import SegmentLog.Proofs.Reader.Outcomes
import SegmentLog.Proofs.Segment.Cut
import SegmentLog.Proofs.Session.Shown
import SegmentLog.Proofs.Session.Transcript

/-!
# Torn ends

A segment of frames that was cut off, wherever that was, holds the records whose frames are left;
behind them a reader finds the end if the cut leaves no part of a frame, and damage where the part
is that was left (`yields_of_cut`). For a session it matters which segment it is: the newest one
ends it, an older one fails it if it ends in the part of a frame, and a header that was cut off is
an error in each of them. `torn_at_every_cut` is the main statement.

An older segment that was cut off between two frames is no matter of this module. Nothing in it
tells that there was more.
-/
namespace SegmentLog
open Segment (EndsBy GoesThrough)

section
variable {f : Format} {fs : Frames} {cut : ℕ} {d : Directory} {v : Volume}

/-- A reader gives what is left, and then it says how the segment ends. -/
theorem Reader.yields_of_cut (written : fs.Written f)
    (fits : Header.size + fs.bytes.length ≤ Pointer.maxOffset) (header : Header.size ≤ cut)
    (within : cut ≤ Header.size + fs.bytes.length) {index : ℕ}
    (stores : d.Stores v index ((Header.encode f ++ fs.bytes).take cut)) (bufferSize : ℕ) :
    ∃ r outcome r', d.openReader v bufferSize index 0 = .ok r ∧
      r.Yields v ((fs.items index Header.size).filter (EndsBy cut)) outcome r' ∧
      ((∀ item ∈ fs.items index Header.size, ¬GoesThrough cut item) → outcome = .finish) ∧
      ∀ item ∈ fs.items index Header.size, GoesThrough cut item →
        ∃ fault, outcome = .damaged fault ∧ r'.segment = index ∧ r'.position = item.1.offset := by
  obtain ⟨front, stop, run, clean, torn⟩ :=
    Segment.cutOff_take written fits header within index
  have decoded := Header.decode_eq_ok_iff.mpr front
  obtain ⟨r, opened, on, segment, format, position⟩ :=
    Directory.openReader_of_ok stores decoded 0 (by simpa using Header.size_le_of_decode decoded)
      bufferSize
  rw [Nat.zero_max] at position
  obtain ⟨r', yields, index', stays⟩ := Reader.yields_of_run run on format segment position
  refine ⟨r, _, r', opened, yields, ?_, ?_⟩
  · intro whole
    exact Segment.read_eq_finish.mpr (clean whole)
  · intro item mem through
    obtain ⟨here, goes_on⟩ := torn item mem through
    obtain ⟨fault, damaged⟩ := run.ends_or_damaged.resolve_left goes_on
    exact ⟨fault, damaged, index', stays.trans here⟩

end

namespace Session

/-- The directory shows undamaged segments from `first` on, then one with these bytes, and then any
`newer` ones. A session from `start` reads all of them from the beginning of the first. -/
structure LeadsTo (d : Directory) (v : Volume) (start : Option Pointer) (first : ℕ)
    (older : List Image) (bs : Bytes) (newer : List (ℕ × Bytes)) : Prop where
  undamaged : ∀ i ∈ older, i.Sound ∧ i.Blank
  consecutive : newer.map (·.1) = List.range' (first + older.length + 1) newer.length
  shown : ∃ oldest, start.elim (oldest = []) (·.segment = first) ∧
    d.Shows v (oldest ++ (Image.numbered first older ++ (first + older.length, bs) :: newer))
  in_header : startOffset start ≤ Header.size

variable {d : Directory} {v : Volume} {start : Option Pointer} {first bufferSize : ℕ}
  {older : List Image} {bs : Bytes} {newer : List (ℕ × Bytes)}

theorem LeadsTo.follow (h : LeadsTo d v start first older bs newer) :
    (Image.numbered first older ++ (first + older.length, bs) :: newer).map (·.1) =
      List.range' first
        (Image.numbered first older ++ (first + older.length, bs) :: newer).length := by
  rw [List.map_append, Image.numbered_keys, List.map_cons, h.consecutive, ← List.range'_succ,
    List.range'_append_1, List.length_append, Image.length_numbered, List.length_cons]

/-- No session opens whose first segment has no header. -/
theorem openRange_of_no_header {oldest ahead : List (ℕ × Bytes)} {fault : HeaderFault}
    (shows : d.Shows v (oldest ++ (first, bs) :: ahead))
    (starts : start.elim (oldest = []) (·.segment = first))
    (follow : ((first, bs) :: ahead).map (·.1) = List.range' first (ahead.length + 1))
    (header : Header.decode bs = .error fault) (bufferSize : ℕ) :
    openRange d v bufferSize start none = .error (.header first fault) := by
  rw [List.map_cons] at follow
  have covered : coverage none first (first :: ahead.map (·.1)) =
      .ok (first :: ahead.map (·.1)) := by
    rw [follow]
    exact coverage_none ..
  have stores := shows.stores _ (List.mem_append_right _ List.mem_cons_self)
  rw [openRange_of_shown shows starts, covered,
    Directory.openReader_of_error stores header]
  rfl

/-- A session comes to the segment behind the undamaged ones. -/
theorem LeadsTo.delivers (h : LeadsTo d v start first older bs newer)
    (header : older = [] → ∃ f, Header.encode f <+: bs) (bufferSize : ℕ) :
    Delivers (openRange d v bufferSize start none) v
      (Image.itemsFrom first older ++ (Segment.scanAll ((first + older.length, bs) :: newer)).1)
      (Segment.scanAll ((first + older.length, bs) :: newer)).2 := by
  obtain ⟨oldest, starts, shows⟩ := h.shown
  have front : ∀ e ∈ (Image.numbered first older ++ (first + older.length, bs) :: newer).head?,
      ∃ f, Header.encode f <+: e.2 := by
    cases older with
    | nil =>
        rintro _ ⟨⟩
        exact header rfl
    | cons i older =>
        rintro _ ⟨⟩
        exact ⟨i.format, Header.decode_eq_ok_iff.mp i.header⟩
  have opens := openRange_scanAll (List.append_ne_nil_of_right_ne_nil _ (List.cons_ne_nil _ _))
    shows starts h.in_header h.follow front bufferSize
  rwa [Image.scanAll_append h.undamaged] at opens

/-! ## The segment that was cut off -/

variable {f : Format} {fs : Frames} {cut : ℕ}

theorem delivers_newest (h : LeadsTo d v start first older bs []) (header : Header.encode f <+: bs)
    {items : List (Pointer × Record)} {stop : ℕ}
    (run : Segment.Run f (first + older.length) bs Header.size items stop) (bufferSize : ℕ) :
    ∃ ending, ending.error? = none ∧ Delivers (openRange d v bufferSize start none) v
      (Image.itemsFrom first older ++ items) ending := by
  have delivers := h.delivers (fun _ => ⟨f, header⟩) bufferSize
  rw [Segment.scanAll_of_header (Header.decode_eq_ok_iff.mpr header)] at delivers
  rcases run.ends_or_damaged with ends | ⟨fault, damaged⟩
  · rw [Segment.scan_of_ends run ends, Segment.chain, Segment.scanAll, List.append_nil] at delivers
    exact ⟨_, rfl, delivers⟩
  · rw [Segment.scan_of_damage run damaged] at delivers
    exact ⟨_, rfl, delivers⟩

theorem delivers_older (h : LeadsTo d v start first older bs newer) (some_newer : newer ≠ [])
    (header : Header.encode f <+: bs) {items : List (Pointer × Record)} {stop : ℕ}
    (run : Segment.Run f (first + older.length) bs Header.size items stop)
    (goes_on : ¬Segment.EndsAt bs stop) (bufferSize : ℕ) :
    ∃ fault, Delivers (openRange d v bufferSize start none) v
      (Image.itemsFrom first older ++ items)
      (.failed (.record (first + older.length) stop fault)) := by
  obtain ⟨fault, damaged⟩ := run.ends_or_damaged.resolve_left goes_on
  have delivers := h.delivers (fun _ => ⟨f, header⟩) bufferSize
  rw [Segment.scanAll_of_header (Header.decode_eq_ok_iff.mpr header),
    Segment.scan_of_damage run damaged, Segment.chain] at delivers
  dsimp only at delivers
  rw [if_neg (mt List.isEmpty_iff.mp some_newer)] at delivers
  exact ⟨fault, delivers⟩

/-- Without its header the segment is an error, which is reported where the session comes to it. -/
theorem fails_in_header (h : LeadsTo d v start first older bs newer) {fault : HeaderFault}
    (header : Header.decode bs = .error fault) (bufferSize : ℕ) :
    if older = [] then
      openRange d v bufferSize start none = .error (.header (first + older.length) fault)
    else Delivers (openRange d v bufferSize start none) v (Image.itemsFrom first older)
      (.failed (.header (first + older.length) fault)) := by
  split
  · rename_i none_older
    subst none_older
    obtain ⟨oldest, starts, shows⟩ := h.shown
    exact openRange_of_no_header shows starts h.follow header bufferSize
  · rename_i some_older
    have delivers := h.delivers (fun none_older => absurd none_older some_older) bufferSize
    rw [Segment.scanAll, header, List.append_nil] at delivers
    exact delivers

/-- Frames that were written, behind a header, in a segment that is cut off somewhere. Behind the
header a reader gives the records whose frames are left. It finds the end if the cut goes through no
frame, and otherwise damage at the frame that the cut goes through. A session over undamaged
segments and this one gives the same records of it; it ends without an error if this is the newest
segment, and fails at the frame that the cut goes through if it is an older one. A segment that is
cut off in its header is damaged there. -/
theorem torn_at_every_cut (written : fs.Written f)
    (fits : Header.size + fs.bytes.length ≤ Pointer.maxOffset)
    (within : cut ≤ Header.size + fs.bytes.length) (d : Directory) (v : Volume) (bufferSize : ℕ) :
    (∀ index, d.Stores v index ((Header.encode f ++ fs.bytes).take cut) →
      (Header.size ≤ cut → ∃ r outcome r', d.openReader v bufferSize index 0 = .ok r ∧
        r.Yields v ((fs.items index Header.size).filter (EndsBy cut)) outcome r' ∧
        ((∀ item ∈ fs.items index Header.size, ¬GoesThrough cut item) → outcome = .finish) ∧
        ∀ item ∈ fs.items index Header.size, GoesThrough cut item →
          ∃ fault, outcome = .damaged fault ∧ r'.segment = index ∧ r'.position = item.1.offset) ∧
      (cut < Header.size → ∃ error, d.openReader v bufferSize index 0 = .error error ∧
        error.isHeaderDamage)) ∧
    ∀ start first older newer,
      LeadsTo d v start first older ((Header.encode f ++ fs.bytes).take cut) newer →
      (Header.size ≤ cut → newer = [] → ∃ ending, ending.error? = none ∧
        Delivers (openRange d v bufferSize start none) v (Image.itemsFrom first older ++
          (fs.items (first + older.length) Header.size).filter (EndsBy cut)) ending) ∧
      (Header.size ≤ cut → newer ≠ [] →
        ∀ item ∈ fs.items (first + older.length) Header.size, GoesThrough cut item →
        ∃ fault, (Error.record (first + older.length) item.1.offset fault).isRecordDamage ∧
          Delivers (openRange d v bufferSize start none) v (Image.itemsFrom first older ++
            (fs.items (first + older.length) Header.size).filter (EndsBy cut))
            (.failed (.record (first + older.length) item.1.offset fault))) ∧
      (cut < Header.size → ∃ error : Error, error.isHeaderDamage ∧
        if older = [] then openRange d v bufferSize start none = .error error
        else Delivers (openRange d v bufferSize start none) v (Image.itemsFrom first older)
          (.failed error)) := by
  refine ⟨fun index stores => ⟨fun header => ?_, fun header => ?_⟩,
    fun start first older newer leads => ⟨fun header newest => ?_, fun header some_newer => ?_,
      fun header => ?_⟩⟩
  · exact Reader.yields_of_cut written fits header within stores bufferSize
  · obtain ⟨fault, refused, damage⟩ := Segment.decode_take_header header _ index
    exact ⟨_, Directory.openReader_of_error stores refused .., damage⟩
  · subst newest
    obtain ⟨front, stop, cutOff⟩ :=
      Segment.cutOff_take written fits header within (first + older.length)
    exact delivers_newest leads front cutOff.run bufferSize
  · intro item mem through
    obtain ⟨front, stop, cutOff⟩ :=
      Segment.cutOff_take written fits header within (first + older.length)
    obtain ⟨rfl, goes_on⟩ := cutOff.torn item mem through
    obtain ⟨fault, delivers⟩ :=
      delivers_older leads some_newer front cutOff.run goes_on bufferSize
    exact ⟨fault, rfl, delivers⟩
  · obtain ⟨fault, refused, damage⟩ :=
      Segment.decode_take_header header (Header.encode f ++ fs.bytes) (first + older.length)
    exact ⟨_, damage, fails_in_header leads refused bufferSize⟩

/-- A segment with a record in front of two zeros. -/
def undamaged : Image where
  format := .unchecked
  frames := [([5, 14, 0, 0, 0, 1, 0, 0, 0, 2, 0, 0, 0, 0, 0, 0, 0, 6, 0], .pageRemove ⟨1⟩ ⟨2⟩ 6)]
  tail := [0, 0]

/-- Twice the same record. -/
def removals : Frames :=
  [(Frame.removal, .pageRemove ⟨1⟩ ⟨2⟩ 7), (Frame.removal, .pageRemove ⟨1⟩ ⟨2⟩ 7)]

/-- A segment that was cut off in the length of its second record, between two others. -/
def tornInside : Volume where
  contents := #[undamaged.bytes, (Header.encode .checked ++ removals.bytes).take 41, []]
  segments := [(3, 0), (4, 1), (5, 2)]

theorem torn_at_every_cut_inside :
    let bytes := (Header.encode .checked ++ removals.bytes).take 41
    let place : Directory := { place := .memory }
    removals.Written .checked ∧ place.Stores tornInside 4 bytes ∧
    LeadsTo place tornInside none 3 [undamaged] bytes [(5, [])] ∧
    (∃ r outcome r', place.openReader tornInside 8 4 0 = .ok r ∧
      r.Yields tornInside [(⟨4, 15, 23⟩, .pageRemove ⟨1⟩ ⟨2⟩ 7)] outcome r' ∧
      ∃ fault, outcome = .damaged fault ∧ r'.segment = 4 ∧ r'.position = 38) ∧
    ∃ fault, Delivers (openRange place tornInside 8 none none) tornInside
      [(⟨3, 15, 19⟩, .pageRemove ⟨1⟩ ⟨2⟩ 6), (⟨4, 15, 23⟩, .pageRemove ⟨1⟩ ⟨2⟩ 7)]
      (.failed (.record 4 38 fault)) := by
  intro bytes place
  have encoded : Frame.encode .checked (.pageRemove ⟨1⟩ ⟨2⟩ 7) = .ok Frame.removal := by
    decide +kernel
  have written : removals.Written .checked := by
    rintro e (_ | ⟨_, _ | ⟨_, ⟨⟩⟩⟩)
    · exact ⟨trivial, encoded⟩
    · exact ⟨trivial, encoded⟩
  have stores : place.Stores tornInside 4 bytes := Directory.stores_memory rfl rfl
  have sorted : tornInside.segments.Sorted := by
    unfold Table.Sorted
    decide
  have readable : undamaged.frames.Readable .unchecked := by
    rintro e (_ | ⟨_, ⟨⟩⟩)
    decide +kernel
  have leads : LeadsTo place tornInside none 3 [undamaged] bytes [(5, [])] := by
    refine ⟨?_, rfl, ⟨[], rfl, Directory.shows_memory rfl sorted⟩, Nat.zero_le _⟩
    rintro i (_ | ⟨_, ⟨⟩⟩)
    exact ⟨⟨readable, by decide⟩, 2, rfl⟩
  have within : 41 ≤ Header.size + removals.bytes.length := by decide +kernel
  obtain ⟨reads, sessions⟩ :=
    torn_at_every_cut written (by decide +kernel) within place tornInside 8
  obtain ⟨r, outcome, r', opened, yields, -, damaged⟩ := (reads 4 stores).1 (by decide)
  obtain ⟨fault, -, delivers⟩ := (sessions none 3 [undamaged] _ leads).2.1 (by decide) nofun
    (⟨4, 38, 23⟩, .pageRemove ⟨1⟩ ⟨2⟩ 7) (by decide) ⟨by decide, by decide⟩
  exact ⟨written, stores, leads,
    ⟨r, outcome, r', opened, yields, damaged (⟨4, 38, 23⟩, .pageRemove ⟨1⟩ ⟨2⟩ 7) (by decide)
      ⟨by decide, by decide⟩⟩, fault, delivers⟩

end Session
end SegmentLog
