import SegmentLog.Proofs.Client.Accepted
import SegmentLog.Proofs.Client.Layout

/-!
# What a log gives back

Wherever a log keeps its segments and whatever a client has asked of it, releases among that, what
is kept of the records in the segments that are still there is read back, as long as reading refuses
none of them. Whether it refuses the next record is a matter of that record alone. Main statement:
`serve_accepted`.
-/
namespace SegmentLog

/-- Of the values that are not below a bound, those at the bound come first in an ordered list. -/
theorem filter_le_eq {α : Type} {l : List α} {f : α → ℕ} (sorted : l.Pairwise (f · ≤ f ·)) (k : ℕ) :
    l.filter (k ≤ f ·) = l.filter (f · = k) ++ l.filter (k + 1 ≤ f ·) := by
  induction l with
  | nil => rfl
  | cons a l ih =>
      obtain ⟨least, sorted⟩ := List.pairwise_cons.mp sorted
      have rest := ih sorted
      have omit_ {p : α → Prop} [DecidablePred p] (h : ¬p a) :
          (a :: l).filter (p ·) = l.filter (p ·) := List.filter_cons_of_neg (by simpa using h)
      have take_ {p : α → Prop} [DecidablePred p] (h : p a) :
          (a :: l).filter (p ·) = a :: l.filter (p ·) := List.filter_cons_of_pos (by simpa using h)
      rcases Nat.lt_trichotomy (f a) k with below | here | above
      · rw [omit_ (by omega), omit_ (by omega), omit_ (by omega), rest]
      · rw [take_ (by omega), take_ here, omit_ (by omega), rest, List.cons_append]
      · have none_here : l.filter (f · = k) = [] := by
          refine List.filter_eq_nil_iff.mpr fun b mem => ?_
          have := least b mem
          simp only [decide_eq_true_eq]
          omega
        rw [take_ (by omega), omit_ (by omega), take_ (by omega), rest, none_here]
        rfl

namespace Sheet
variable {s : Sheet}

/-- What is kept of the records, in the same bytes. -/
def kept (s : Sheet) : Image :=
  { s.image with frames := s.image.frames.map fun e => (e.1, e.2.stored) }

theorem bytes_kept (s : Sheet) : s.kept.bytes = s.image.bytes := by
  rw [Image.bytes, Image.bytes, kept, Frames.bytes, Frames.bytes, List.flatMap_map]

theorem stop_kept (s : Sheet) : s.kept.stop = s.image.stop := by
  rw [Image.stop, Image.stop, kept, Frames.bytes, Frames.bytes, List.flatMap_map]

theorem items_kept (s : Sheet) (k : ℕ) :
    s.kept.items k = (s.image.items k).map Client.kept := by
  have along : ∀ (fs : Frames) offset,
      Frames.items k offset (fs.map fun e => (e.1, e.2.stored)) =
        (Frames.items k offset fs).map Client.kept := by
    intro fs
    induction fs with
    | nil => exact fun _ => rfl
    | cons e fs ih => exact fun offset => congrArg (List.cons _) (ih _)
  exact along _ _

/-- Readable records are read back from their frames. -/
theorem sound_kept (written : s.image.frames.Encoded s.image.format)
    (reach : s.image.stop ≤ Pointer.maxOffset) (readable : ∀ e ∈ s.image.frames, e.2.Readable) :
    s.kept.Sound := by
  refine ⟨fun e mem => ?_, s.stop_kept ▸ reach⟩
  obtain ⟨e, there, rfl⟩ := List.mem_map.mp mem
  exact written.decode there (readable e there)

theorem Filled.kept (h : s.Filled) (readable : ∀ e ∈ s.image.frames, e.2.Readable) :
    s.kept.Sound ∧ s.kept.Blank :=
  ⟨sound_kept h.written h.reach readable, h.blank⟩

end Sheet

/-! ## Segments with readable records -/

/-- The segments with what is kept of their records. -/
def keptShelf (sheets : List Sheet) : Shelf := sheets.map fun s => (s.content, s.kept)

variable {place : Place} {v : Volume} {removed first : ℕ} {appended : List (Pointer × Record)}
  {sheets older : List Sheet} {newest : Sheet}

theorem Account.readable (h : Account appended sheets)
    (readable : ∀ item ∈ appended, item.2.Readable) {sheet : Sheet} (mem : sheet ∈ sheets) :
    ∀ e ∈ sheet.image.frames, e.2.Readable := by
  obtain ⟨k, found⟩ := List.mem_iff_getElem?.mp mem
  intro e there
  obtain ⟨p, item⟩ := Frames.exists_item there k Header.size
  have among := (h.records k sheet found).1.subset item
  exact readable _ (List.mem_filter.mp among).1

theorem Account.shelves (h : Account appended sheets)
    (readable : ∀ item ∈ appended, item.2.Readable)
    (keeps : place.Keeps v removed (sheets.map (·.content)))
    (bytes : ∀ sheet ∈ sheets, v.bytes sheet.content = sheet.image.bytes)
    (filled : ∀ sheet ∈ sheets, sheet.Filled) : place.Shelves v removed (keptShelf sheets) := by
  refine Place.Keeps.shelves (by rwa [keptShelf, List.map_map]) (List.forall_mem_map.mpr ?_)
    (List.forall_mem_map.mpr ?_)
  · exact fun sheet mem => (bytes sheet mem).trans sheet.bytes_kept.symm
  · exact fun sheet mem => (filled sheet mem).kept (h.readable readable mem)

/-- The segments from any one on have what was appended to them. -/
theorem Account.itemsFrom (h : Account appended sheets)
    (readable : ∀ item ∈ appended, item.2.Readable) (le : first ≤ sheets.length) :
    Image.itemsFrom first (Shelf.images ((keptShelf sheets).drop first)) =
      (appended.filter (first ≤ ·.1.segment)).map Client.kept := by
  induction left : sheets.length - first generalizing first with
  | zero =>
      have all : appended.filter (first ≤ ·.1.segment) = [] := by
        refine List.filter_eq_nil_iff.mpr fun item mem => ?_
        have := (h.reach item mem).1
        simp only [decide_eq_true_eq]
        omega
      rw [all, List.drop_eq_nil_of_le (by rw [keptShelf, List.length_map]; omega)]
      rfl
  | succ n ih =>
      have lt : first < (keptShelf sheets).length := by
        rw [keptShelf, List.length_map]
        omega
      have found : sheets[first]? = some sheets[first] := List.getElem?_eq_getElem _
      have whole : sheets[first].image.items first = appendedTo appended first :=
        (h.records first _ found).2 fun item mem => readable item (List.mem_filter.mp mem).1
      have here : (keptShelf sheets)[first].2.items first =
          (appendedTo appended first).map Client.kept := by
        rw [← whole, ← Sheet.items_kept]
        simp only [keptShelf, List.getElem_map]
      rw [List.drop_eq_getElem_cons lt, filter_le_eq h.ordered, List.map_append,
        ← ih (by omega) (by omega)]
      exact congrArg (· ++ _) here

namespace Scene
variable {asked : List Request} {scene : Scene} {record : Record} {p : Pointer} {c' : Client}

/-- Every record that was appended can be read. -/
def Readable (scene : Scene) : Prop := ∀ item ∈ scene.appended, item.2.Readable

/-- The records in the segments that are listed. -/
def left (scene : Scene) : List (Pointer × Record) :=
  scene.appended.filter fun item => scene.listed.contains item.1.segment

/-- Of a scene whose client keeps its segments at a place, what is read back. -/
structure GivesBack (scene : Scene) (place : Place) : Prop where
  /-- Who reads the log reads the place. -/
  log : ∀ log ∈ scene.client.log, log.directory = { place }
  /-- A session over all segments. -/
  told : ∀ bufferSize, Session.transcript { place } scene.client.volume bufferSize =
    .ok (scene.left.map Client.kept, none)
  /-- The pointers that were returned. -/
  reads : ∀ item ∈ scene.left, ∀ bufferSize,
    Directory.readRecord { place } scene.client.volume bufferSize item.1 = .ok item.2.stored

theorem Layout.left_eq (h : scene.Layout place asked removed sheets) :
    scene.left = scene.appended.filter (removed ≤ ·.1.segment) := by
  have listed : scene.listed = List.range' removed (sheets.length - removed) := by
    rw [Scene.listed, h.located]
    dsimp only [Option.bind]
    rw [h.keeps.stocks.list, List.length_map]
    rfl
  refine List.filter_congr fun item mem => ?_
  have := (h.account.reach item mem).1
  rw [listed, Bool.eq_iff_iff, List.contains_iff_mem, List.mem_range'_1, decide_eq_true_eq]
  omega

theorem Layout.removed_le (h : scene.Layout place asked removed sheets) :
    removed ≤ sheets.length := by
  have := h.keeps.removed_le
  rwa [List.length_map] at this

theorem Layout.shelves (h : scene.Layout place asked removed sheets) (readable : scene.Readable) :
    place.Shelves scene.client.volume removed (keptShelf sheets) :=
  h.account.shelves readable h.keeps h.bytes h.filled

theorem Layout.scanAll (h : scene.Layout place asked removed sheets) (readable : scene.Readable)
    (le : first ≤ sheets.length) :
    Segment.scanAll (scene.client.volume.image first (sheets.map (·.content))) =
      ((scene.appended.filter (first ≤ ·.1.segment)).map Client.kept, .finish) := by
  have shelves := h.shelves readable
  have ids : sheets.map (·.content) = (keptShelf sheets).map (·.1) := by
    rw [keptShelf, List.map_map]
    rfl
  rw [ids, Volume.image_eq_numbered shelves.stored, shelves.scanAll,
    h.account.itemsFrom readable le]

theorem Layout.givesBack (h : scene.Layout place asked removed sheets)
    (readable : scene.Readable) : scene.GivesBack place := by
  have shelves := h.shelves readable
  have items : (keptShelf sheets).items = scene.appended.map Client.kept := by
    have all : (keptShelf sheets).items = _ := h.account.itemsFrom readable (Nat.zero_le _)
    simpa using all
  refine ⟨fun log hl => ?_, fun bufferSize => ?_, fun item mem bufferSize => ?_⟩
  · obtain ⟨older, newest, -, fills, -⟩ := h.log log hl
    exact fills.heads.directory
  · rw [(shelves.drain bufferSize).transcript, h.left_eq, h.account.itemsFrom readable h.removed_le]
    rfl
  · rw [h.left_eq] at mem
    obtain ⟨among, there⟩ := List.mem_filter.mp mem
    exact shelves.readRecord (items ▸ List.mem_map_of_mem among) (of_decide_eq_true there)
      bufferSize

/-- Where an acknowledged record went. -/
theorem Layout.acknowledged (h : scene.Layout place asked removed sheets)
    (room : Place.Room (sheets.length + 1))
    (done : Client.onLog (Log.append record) scene.client = .ok p c') :
    ∃ older newest frame log, p = ⟨older.length, newest.image.stop, frame.length⟩ ∧
      Account scene.appended (older ++ [newest]) ∧
      newest.image.items older.length = appendedTo scene.appended older.length ∧
      Log.Fills place removed older (newest.push frame record) (c'.volume, log) := by
  cases hl : scene.client.log with
  | none =>
      rw [Client.onLog_of_none hl] at done
      cases done
  | some log =>
      obtain ⟨older, newest, rfl, fills, whole⟩ := h.log log hl
      rcases Log.append_attempts fills (by simpa using room) record with
        ⟨e, refused⟩ | ⟨frame, older', newest', lands, puts⟩
      · rw [Client.onLog_of_error hl refused] at done
        cases done
      obtain ⟨account, whole'⟩ :=
        h.account.onward whole (Onward.of_lands lands fills.config)
      by_cases reach : newest'.image.stop + frame.length ≤ Pointer.maxOffset
      · obtain ⟨s, put, fills'⟩ := puts.done reach
        rw [Client.onLog_of_ok hl put] at done
        cases done
        exact ⟨older', newest', frame, s.2, rfl, account, whole', fills'⟩
      · obtain ⟨e, s, refused, -⟩ := puts.refused (Nat.lt_of_not_le reach)
        rw [Client.onLog_of_error hl refused] at done
        cases done

/-- A readable record is read back behind the others. -/
theorem Layout.reads_next (h : scene.Layout place asked removed sheets) (readable : scene.Readable)
    (room : Place.Room (sheets.length + 1))
    (done : Client.onLog (Log.append record) scene.client = .ok p c') (next : record.Readable)
    (bufferSize : ℕ) :
    Directory.readRecord { place } c'.volume bufferSize p = .ok record.stored ∧
      Session.transcript { place } c'.volume bufferSize =
        .ok (scene.left.map Client.kept ++ [(p, record.stored)], none) := by
  obtain ⟨older, newest, frame, log, rfl, account, whole, fills⟩ := h.acknowledged room done
  have present := fills.removed_le
  have reach := (fills.filled _ (List.mem_append_right _ List.mem_cons_self)).reach
  rw [Sheet.stop_push] at reach
  obtain ⟨account, -⟩ := account.push whole reach record
  have readable : ∀ item ∈ scene.appended ++ [(⟨older.length, newest.image.stop, frame.length⟩,
      record)], item.2.Readable :=
    List.forall_mem_append.mpr ⟨readable, List.forall_mem_singleton.mpr next⟩
  have shelves := account.shelves readable fills.keeps fills.bytes fills.filled
  have items := account.itemsFrom readable (Nat.zero_le _)
  have left := account.itemsFrom readable (show removed ≤ _ by simp; omega)
  constructor
  · refine shelves.readRecord ?_ present bufferSize
    change _ ∈ Image.itemsFrom 0 (Shelf.images ((keptShelf _).drop 0))
    rw [items]
    simp [Client.kept]
  · rw [(shelves.drain bufferSize).transcript, left, h.left_eq, List.filter_append, List.map_append]
    simp [Client.kept, present, Ending.error?]

/-- A frame is shown behind what is kept in front of it. -/
theorem shows_push {frame : Bytes} {log : Log}
    (fills : Log.Fills place removed older (newest.push frame record) (v, log)) :
    Directory.Shows { place } v (Image.numbered removed
      (Shelf.images ((keptShelf older).drop removed) ++
        [newest.kept.withTail (frame ++ newest.image.tail.drop frame.length)])) := by
  generalize last : newest.kept.withTail (frame ++ newest.image.tail.drop frame.length) = image
  have present : removed ≤ (keptShelf older).length := by
    rw [keptShelf, List.length_map]
    exact fills.removed_le
  obtain ⟨before, stored⟩ := List.forall_mem_append.mp fills.bytes
  rw [List.forall_mem_singleton] at stored
  have bytes : v.bytes newest.content = image.bytes := by
    refine stored.trans ((Image.bytes_push record).trans ?_)
    rw [← last]
    exact (Sheet.bytes_kept { newest with image := newest.image.withTail _ }).symm
  have keeps : place.Keeps v removed ((keptShelf older ++ [(newest.content, image)]).map (·.1)) := by
    have keeps := fills.keeps
    rw [List.map_append] at keeps ⊢
    rwa [keptShelf, List.map_map]
  have shows := keeps.shows_shelf (List.forall_mem_append.mpr
    ⟨List.forall_mem_map.mpr fun sheet mem => (before sheet mem).trans sheet.bytes_kept.symm,
      List.forall_mem_singleton.mpr bytes⟩)
  rw [List.drop_append_of_le_length present, Shelf.images, List.map_append] at shows
  exact shows

/-- A record that reading refuses is never read. -/
theorem Layout.refuses_next (h : scene.Layout place asked removed sheets)
    (readable : scene.Readable) (room : Place.Room (sheets.length + 1))
    (done : Client.onLog (Log.append record) scene.client = .ok p c') (next : ¬record.Readable)
    (bufferSize : ℕ) :
    (∃ fault, Directory.readRecord { place } c'.volume bufferSize p =
        .error (.record p.segment p.offset fault)) ∧
      Session.transcript { place } c'.volume bufferSize =
        .ok (scene.left.map Client.kept, none) := by
  obtain ⟨older, newest, frame, log, rfl, account, -, fills⟩ := h.acknowledged room done
  have shows := shows_push fills
  have present := fills.removed_le
  obtain ⟨filled, last⟩ := List.forall_mem_append.mp fills.filled
  rw [List.forall_mem_singleton] at last
  have reach := last.reach
  rw [Sheet.stop_push] at reach
  obtain ⟨written, added⟩ := List.forall_mem_append.mp last.written
  obtain ⟨kind, encoded⟩ := List.forall_mem_singleton.mp added
  have whole : Frame.Whole newest.kept.format frame := Frame.whole_of_encode encoded
  obtain ⟨fault, refused⟩ : ∃ fault, Frame.decode newest.kept.format frame = .error fault :=
    Frame.decode_of_unreadable kind next encoded
  have sound : newest.kept.Sound := Sheet.sound_kept written (by omega)
    (account.readable readable (List.mem_append_right _ List.mem_cons_self))
  have before : ∀ i ∈ Shelf.images ((keptShelf older).drop removed), i.Sound ∧ i.Blank := by
    refine List.forall_mem_map.mpr fun e mem => ?_
    obtain ⟨sheet, there, rfl⟩ := List.mem_map.mp (List.mem_of_mem_drop mem)
    exact (filled sheet there).kept (account.readable readable (List.mem_append_left _ there))
  have fits : newest.kept.stop + frame.length ≤ Pointer.maxOffset := by rwa [Sheet.stop_kept]
  constructor
  · have number : removed + (Shelf.images ((keptShelf older).drop removed)).length =
        older.length := by
      simp [Shelf.images, keptShelf, present]
    have stores := shows.stores (older.length, _) (by
      rw [Image.numbered_append, number]
      exact List.mem_append_right _ List.mem_cons_self)
    have read := Image.read_refused whole refused fits older.length
      (newest.image.tail.drop frame.length)
    have within : newest.kept.stop ≤ _ :=
      (newest.kept.withTail (frame ++ newest.image.tail.drop frame.length)).stop_le
    rw [newest.stop_kept] at read within
    exact ⟨fault, Directory.readRecord_of_damage stores (Image.header _) (Nat.le_add_right ..) within
      read bufferSize⟩
  · have left := account.itemsFrom readable (show removed ≤ _ by simp; omega)
    have images : Shelf.images ((keptShelf (older ++ [newest])).drop removed) =
        Shelf.images ((keptShelf older).drop removed) ++ [newest.kept] := by
      rw [keptShelf, List.map_append, List.drop_append_of_le_length (by rwa [List.length_map]),
        Shelf.images, List.map_append]
      rfl
    rw [shows.transcript_refused before sound whole refused fits bufferSize, h.left_eq, ← left,
      images]

/-- A client that started without segments reads back what is kept of all records in the segments
that are still listed, wherever they are kept and whatever it has asked for, as long as the records
can be read. Whether the next record is read back depends on that record alone. -/
theorem serve_accepted {v : Volume} (empty : place.Stocks v 0 []) {requests : List Request}
    (room : Place.Room (requests.length + 1))
    (readable : (serve requests (start place v)).Readable) :
    (serve requests (start place v)).GivesBack place ∧
      ∀ record p c', Client.onLog (Log.append record) (serve requests (start place v)).client =
          .ok p c' → ∀ bufferSize,
        (∀ found, Directory.readRecord { place } c'.volume bufferSize p = .ok found ↔
          record.Readable ∧ found = record.stored) ∧
        Session.transcript { place } c'.volume bufferSize =
          .ok ((serve requests (start place v)).left.map Client.kept ++
            if record.Readable then [(p, record.stored)] else [], none) := by
  obtain ⟨removed, sheets, layout, few⟩ := (layout_start empty requests).serve
    (balanced_start place v) (room.mono (by simp)) fun _ => id
  refine ⟨layout.givesBack readable, fun record p c' done bufferSize => ?_⟩
  have room : Place.Room (sheets.length + 1) := room.mono (by simpa using few)
  by_cases next : record.Readable
  · obtain ⟨read, told⟩ := layout.reads_next readable room done next bufferSize
    refine ⟨fun found => ?_, by rw [told, if_pos next]⟩
    rw [read, Except.ok.injEq, eq_comm, and_iff_right next]
  · obtain ⟨⟨fault, refused⟩, told⟩ := layout.refuses_next readable room done next bufferSize
    refine ⟨fun found => ?_, by rw [told, if_neg next, List.append_nil]⟩
    rw [refused]
    exact iff_of_false (fun e => nomatch e) fun both => next both.1

/-- Three segments with a record each, of which the first is released, and a header is refused. -/
def releasingFront : List Request := [
  .call (.openLog {}), .call (.append (update 1)), .call .rotate,
  .call (.append (.pageUpdate ⟨⟨1⟩, ⟨2⟩, 0, 1, some ⟨0, 15, 27⟩, [7]⟩)), .call .rotate,
  .call (.append (update 3)), .call (.append (.header 2)), .call (.releaseBefore 1)]

/-- The others are read back, in memory and in a folder, and of a checkpoint that says of an update
counter that it has an empty gap nothing is. -/
theorem serve_accepted_releasing :
    let folder := Place.folder ⟨"/log", ["log"]⟩ 0
    let scene := serve releasingFront (start .memory {})
    let items : List (Pointer × Record) :=
      [(⟨1, 15, 44⟩, .pageUpdate ⟨⟨1⟩, ⟨2⟩, 0, 1, some ⟨0, 15, 27⟩, []⟩), (⟨2, 15, 27⟩, update 3)]
    (serve releasingFront (start folder newFolder)).GivesBack folder ∧
      scene.left.map Client.kept = items ∧ scene.GivesBack .memory ∧
      ∃ c', Client.onLog (Log.append Client.unreadable) scene.client = .ok ⟨2, 42, 59⟩ c' ∧
        (∀ found, Directory.readRecord { place := .memory } c'.volume 64 ⟨2, 42, 59⟩ ≠ .ok found) ∧
        Session.transcript { place := .memory } c'.volume 64 = .ok (items, none) := by
  intro folder scene items
  have left : scene.left.map Client.kept = items := by decide +kernel
  have readable : scene.Readable := by
    unfold Readable
    decide +kernel
  have readable' : (serve releasingFront (start folder newFolder)).Readable := by
    unfold Readable
    decide +kernel
  obtain ⟨gives, next⟩ := serve_accepted (Place.stocks_memory rfl) (by decide) readable
  have answered : answer (Client.onLog (Log.append Client.unreadable)) scene.client =
      .ok ⟨2, 42, 59⟩ := by decide +kernel
  refine ⟨(serve_accepted stocks_newFolder (by decide) readable').1, left, gives, ?_⟩
  cases done : Client.onLog (Log.append Client.unreadable) scene.client with
  | error refusal c' =>
      rw [answer, done] at answered
      cases answered
  | ok p c' =>
      rw [answer, done] at answered
      cases answered
      have refused : ¬Client.unreadable.Readable := by decide
      obtain ⟨reads, told⟩ := next _ _ c' done 64
      refine ⟨c', rfl, fun found h => refused ((reads found).mp h).1, ?_⟩
      rw [if_neg refused, List.append_nil, left] at told
      exact told

end Scene
end SegmentLog
