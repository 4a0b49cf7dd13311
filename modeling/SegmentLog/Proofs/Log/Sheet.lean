import SegmentLog.Proofs.Frame.Stored
import SegmentLog.Proofs.Log.Growth
import SegmentLog.Proofs.Log.Write

/-!
# How a log fills its segments

A log puts the frames of its records one behind the other, and what it has reserved behind them
stays zero. It starts the next segment when a frame would go beyond the segment size, unless the
segment has no frame yet; so a segment that is larger than that has one frame only. `Fills` says
this of all segments that are there, and each call of the log keeps it, whatever the records are.
-/
namespace SegmentLog

/-- Each frame is what is written for its record, whether or not it can be read. -/
def Frames.Encoded (f : Format) (fs : Frames) : Prop :=
  ∀ e ∈ fs, e.2.kind ≠ .header ∧ Frame.encode f e.2 = .ok e.1

/-- A segment, with the configuration of the log that has written it. -/
structure Sheet where
  content : ContentId
  config : Log.Config
  image : Image

namespace Sheet

/-- The frames stand one behind the other, and no more of them than fit, if there are several. -/
structure Filled (s : Sheet) : Prop where
  size : Header.size < s.config.segmentSize
  written : s.image.frames.Encoded s.image.format
  blank : s.image.Blank
  within : s.image.stop ≤ s.config.segmentSize ∨ s.image.frames.length = 1
  reach : s.image.stop ≤ Pointer.maxOffset

/-- The segment with another frame. -/
def push (s : Sheet) (frame : Bytes) (record : Record) : Sheet :=
  { s with image := s.image.push frame record }

theorem stop_push (s : Sheet) (frame : Bytes) (record : Record) :
    (s.push frame record).image.stop = s.image.stop + frame.length := Image.stop_push record

end Sheet

variable {f : Format} {fs : Frames} {frame : Bytes} {record : Record}

theorem Frames.Encoded.eq_nil (h : fs.Encoded f) (nothing : fs.bytes.length = 0) : fs = [] := by
  cases fs with
  | nil => rfl
  | cons e fs =>
      have whole := Frame.whole_of_encode (h e List.mem_cons_self).2
      have := whole.lead
      rw [Frames.bytes_cons, List.length_append] at nothing
      unfold Frame.leadSize at this
      omega

/-- What is kept of readable records is read back. -/
theorem Frames.Encoded.decode (h : fs.Encoded f) {e : Bytes × Record} (mem : e ∈ fs)
    (readable : e.2.Readable) : Frame.decode f e.1 = .ok e.2.stored := by
  obtain ⟨kind, encoded⟩ := h e mem
  exact Frame.decode_encode (Record.wellFormed_stored kind readable)
    ((Frame.encode_stored f e.2).trans encoded)

/-! ## What reading finds -/

/-- Reading stops behind one of the frames, and not before the first that it refuses. -/
theorem Segment.Run.frames {segment stop : ℕ} {front tail : Bytes}
    {items : List (Pointer × Record)} (h : fs.Encoded f)
    (run : Run f segment (front ++ (fs.bytes ++ tail)) front.length items stop)
    (fits : front.length + fs.bytes.length ≤ Pointer.maxOffset) (blank : tail.headD 0 = 0) :
    ∃ read left, fs = read ++ left ∧ stop = front.length + read.bytes.length ∧
      ((∀ e ∈ fs, e.2.Readable) → left = []) := by
  induction fs generalizing front items with
  | nil =>
      have ends : EndsAt (front ++ ([] ++ tail)) front.length :=
        headD_drop.mp (by rwa [List.drop_left])
      rw [Frames.bytes_nil] at run
      cases run with
      | stop none_there => exact ⟨[], [], rfl, rfl, fun _ => rfl⟩
      | frame here later =>
          have found : read f segment _ _ = .finish := read_eq_finish.mpr ends
          rw [read_of_frameAt segment here] at found
          cases found
  | cons e fs ih =>
      obtain ⟨⟨kind, encoded⟩, rest⟩ := List.forall_mem_cons.mp h
      obtain ⟨frame, record⟩ := e
      rw [Frames.bytes_cons, List.length_append] at fits
      rw [Frames.bytes_cons, List.append_assoc] at run
      dsimp only at encoded fits run
      have whole := Frame.whole_of_encode encoded
      have found : read f segment (front ++ (frame ++ (Frames.bytes fs ++ tail))) front.length =
        _ := read_whole segment front whole (by omega)
      cases run with
      | stop none_there =>
          refine ⟨[], (frame, record) :: fs, rfl, rfl, fun readable => ?_⟩
          have decoded := h.decode List.mem_cons_self (readable _ List.mem_cons_self)
          rw [decoded] at found
          obtain ⟨frame', here, -⟩ := frameAt_of_read found
          exact absurd here (none_there _ _)
      | @frame _ _ frame' record' _ here later =>
          rw [read_of_frameAt segment here] at found
          have same : frame'.length = frame.length := by
            split at found
            · cases found
            · exact congrArg Pointer.length (Outcome.record.inj found).1
          rw [same, ← List.length_append, ← List.append_assoc] at later
          obtain ⟨read, left, rfl, stop, all⟩ :=
            ih rest later (by rw [List.length_append]; omega)
          refine ⟨(frame, record) :: read, left, rfl, ?_, fun readable => all fun e mem =>
            readable e (List.mem_cons_of_mem _ mem)⟩
          rw [stop, Frames.bytes_cons, List.length_append, List.length_append, Nat.add_assoc]

/-- Where damage behind its first frames is cut off a segment keeps those, and if all its records
are readable nothing is cut off. -/
theorem Sheet.Filled.seal {s : Sheet} (h : s.Filled) {segment : ℕ} {kept : Bytes}
    {items : List (Pointer × Record)} (header : Header.encode f <+: s.image.bytes)
    (sealed_ : Segment.Sealed f segment s.image.bytes kept items) :
    ∃ image, kept = image.bytes ∧ image.format = s.image.format ∧
      image.frames <+: s.image.frames ∧ Filled { s with image } ∧
      ((∀ e ∈ s.image.frames, e.2.Readable) → image = s.image) := by
  obtain rfl : s.image.format = f :=
    Except.ok.inj (s.image.header.symm.trans (Header.decode_eq_ok_iff.mpr header))
  have size := Header.length_encode s.image.format
  obtain ⟨stop, run, cut⟩ := sealed_
  rw [← size, Image.bytes] at run
  obtain ⟨read, left, split, here, all⟩ := run.frames h.written
    (by rw [size]; exact h.reach) h.blank.headD
  rw [size] at here
  rcases cut with ⟨-, rfl⟩ | ⟨goes_on, rfl⟩
  · exact ⟨s.image, rfl, rfl, List.prefix_refl _, h, fun _ => rfl⟩
  have bytes : s.image.bytes =
      (Header.encode s.image.format ++ read.bytes) ++ (left.bytes ++ s.image.tail) := by
    simp only [Image.bytes, split, Frames.bytes_append, List.append_assoc]
  have position : stop = (Header.encode s.image.format ++ read.bytes).length := by
    rw [here, List.length_append, size]
  have le : Image.stop ⟨s.image.format, read, []⟩ ≤ s.image.stop := by
    rw [Image.stop, Image.stop, split, Frames.bytes_append, List.length_append]
    dsimp only
    omega
  refine ⟨⟨s.image.format, read, []⟩, ?_, rfl, split ▸ List.prefix_append .., ⟨h.size, ?_, ⟨0, rfl⟩,
    ?_, le.trans h.reach⟩, fun readable => ?_⟩
  · rw [bytes, position, List.take_left, Image.bytes_eq, List.append_nil]
  · exact fun e mem => h.written e (split ▸ List.mem_append_left _ mem)
  · rcases h.within with within | one
    · exact .inl (le.trans within)
    · cases read with
      | nil => exact .inl (Nat.le_of_lt h.size)
      | cons e read =>
          rw [split, List.cons_append, List.length_cons, List.length_append] at one
          exact .inr (by rw [List.length_cons]; omega)
  · refine absurd (Segment.headD_drop.mp ?_) goes_on
    rw [bytes, all readable, position, List.drop_left]
    exact h.blank.headD

/-! ## Logs -/

namespace Log

/-- The log has filled these segments, but for those that other logs have, and it writes the newest
of them. -/
structure Fills (place : Place) (removed : ℕ) (older : List Sheet) (newest : Sheet)
    (s : Volume × Log) : Prop where
  heads : Heads place removed (older.map (·.content)) s
  content : newest.content = s.2.active.store.content
  config : newest.config = s.2.config
  format : newest.image.format = s.2.format
  position : s.2.active.position = newest.image.stop
  tail : newest.image.tail = List.replicate (s.2.config.reserve newest.image.stop) 0
  bounded : s.2.config.segmentSize ≤ Pointer.maxOffset
  bytes : ∀ sheet ∈ older ++ [newest], s.1.bytes sheet.content = sheet.image.bytes
  filled : ∀ sheet ∈ older ++ [newest], sheet.Filled

variable {place : Place} {removed : ℕ} {older : List Sheet} {newest : Sheet} {s : Volume × Log}
  {v v' : Volume} {log : Log}

theorem Fills.keeps (h : Fills place removed older newest s) :
    place.Keeps s.1 removed ((older ++ [newest]).map (·.content)) := by
  rw [List.map_append, List.map_singleton, h.content]
  exact h.heads.keeps

theorem Fills.removed_le (h : Fills place removed older newest s) : removed ≤ older.length := by
  have := h.heads.keeps.removed_le_older
  rwa [List.length_map] at this

theorem Fills.segment (h : Fills place removed older newest s) :
    s.2.active.segment = older.length := h.heads.segment.trans (List.length_map _)

/-- The sheet of a segment that was just started. -/
def newSheet (log : Log) : Sheet where
  content := log.active.store.content
  config := log.config
  image := fresh log.format (log.config.reserve Header.size)

theorem Started.fills (started : Started place removed (older.map (·.content)) log.format
      (log.config.reserve Header.size) v v' log.active)
    (directory : log.directory = { place }) (size : Header.size < log.config.segmentSize)
    (bounded : log.config.segmentSize ≤ Pointer.maxOffset)
    (bytes : ∀ sheet ∈ older, v.bytes sheet.content = sheet.image.bytes)
    (filled : ∀ sheet ∈ older, sheet.Filled) :
    Fills place removed older log.newSheet (v', log) := by
  refine ⟨started.heads directory rfl, rfl, rfl, rfl, started.position, rfl, bounded,
    List.forall_mem_append.mpr ⟨fun sheet mem => ?_, List.forall_mem_singleton.mpr ?_⟩,
    List.forall_mem_append.mpr ⟨filled, List.forall_mem_singleton.mpr ?_⟩⟩
  · rw [started.others _ (List.mem_map_of_mem mem), bytes sheet mem]
  · exact started.bytes.trans (bytes_fresh ..).symm
  · exact ⟨size, nofun, ⟨_, rfl⟩, .inl (Nat.le_of_lt size),
      (by decide : Header.size ≤ Pointer.maxOffset)⟩

/-- Neither figures nor pins are part of what is filled. -/
theorem Fills.withLedger (h : Fills place removed older newest s) (ledger : Ledger) :
    Fills place removed older newest (s.1, { s.2 with ledger }) :=
  ⟨⟨h.heads.directory, h.heads.keeps, h.heads.segment, h.heads.bare, h.heads.within⟩, h.content,
    h.config, h.format, h.position, h.tail, h.bounded, h.bytes, h.filled⟩

theorem flush_fills (h : Fills place removed older newest s) :
    ∃ ledger, flush s = .ok () (s.1, { s.2 with ledger }) ∧
      Fills place removed older newest (s.1, { s.2 with ledger }) :=
  ⟨_, flush_bare h.heads.bare s.1, h.withLedger _⟩

theorem rotate_fills (h : Fills place removed older newest s)
    (room : Place.Room (older.length + 2)) :
    ∃ s', rotate s = .ok (older.length + 1) s' ∧
      Fills place removed (older ++ [newest]) s'.2.newSheet s' ∧
      s'.2.config = s.2.config ∧ s'.2.format = s.2.format := by
  obtain ⟨active, v', rotated, started⟩ := rotate_bare h.keeps
    (by rwa [List.length_map, List.length_append, List.length_singleton]) h.heads.directory
    h.heads.bare (by rw [h.segment, List.length_map, List.length_append, List.length_singleton])
  have size := (h.filled newest (List.mem_append_right _ List.mem_cons_self)).size
  refine ⟨(v', { s.2 with active, ledger := (s.2.ledger.count .flushed).count .created }), ?_,
    Started.fills started h.heads.directory (h.config ▸ size) h.bounded h.bytes h.filled, rfl, rfl⟩
  rw [rotated, started.segment, List.length_map, List.length_append, List.length_singleton]

/-- The next frame is the first of a new segment. -/
def Turns (s : Volume × Log) (newest : Sheet) (frame : Bytes) : Prop :=
  s.2.config.segmentSize < newest.image.stop + frame.length ∧ newest.image.frames ≠ []

/-- A frame that goes with the segment size, or is the first of its segment, is put behind the
others. -/
theorem put_fills (h : Fills place removed older newest s)
    (kind : record.kind ≠ .header) (encoded : Frame.encode s.2.format record = .ok frame)
    (fits : ¬Turns s newest frame)
    (reach : newest.image.stop + frame.length ≤ Pointer.maxOffset) :
    ∃ s', put frame s = .ok ⟨older.length, newest.image.stop, frame.length⟩ s' ∧
      Fills place removed older (newest.push frame record) s' ∧
      s'.2.config = s.2.config ∧ s'.2.format = s.2.format := by
  have some_bytes : frame ≠ [] := by
    rintro rfl
    exact (Frame.whole_of_encode encoded).starts rfl
  have mem : newest ∈ older ++ [newest] := List.mem_append_right _ List.mem_cons_self
  have known := h.keeps.known _ (List.mem_map_of_mem mem)
  obtain ⟨store, done, content, bare⟩ :=
    put_bare h.heads.bare s.1 some_bytes (by rwa [h.position])
  have stored := h.bytes newest mem
  have last := h.filled newest mem
  rw [← h.content, h.position, h.segment, stored, Image.overwrite_stop,
    ← Image.bytes_push record] at done
  have others (other : Sheet) (there : other ∈ older) : newest.content ≠ other.content := by
    have keeps := h.keeps
    rw [List.map_append, List.map_singleton] at keeps
    exact keeps.other (List.mem_map_of_mem there)
  have heads := (put_grows h.heads some_bytes).heads
  rw [final_of_ok done] at heads
  refine ⟨_, done, ⟨heads, content.symm ▸ h.content, h.config, h.format,
    (Image.stop_push record).symm, ?_, h.bounded, ?_, ?_⟩, rfl, rfl⟩
  · change newest.image.tail.drop frame.length =
      List.replicate (s.2.config.reserve (newest.push frame record).image.stop) 0
    rw [h.tail, List.drop_replicate, Sheet.stop_push]
    unfold Config.reserve
    split
    · rw [Nat.sub_sub]
    · rw [Nat.zero_sub]
  · refine List.forall_mem_append.mpr ⟨fun sheet there => ?_, List.forall_mem_singleton.mpr ?_⟩
    · rw [Volume.bytes_setBytes_of_ne (others sheet there)]
      exact h.bytes sheet (List.mem_append_left _ there)
    · exact Volume.bytes_setBytes known _
  · refine List.forall_mem_append.mpr
      ⟨fun sheet there => h.filled sheet (List.mem_append_left _ there),
        List.forall_mem_singleton.mpr ⟨last.size, ?_, ?_, ?_, ?_⟩⟩
    · exact List.forall_mem_append.mpr
        ⟨last.written, List.forall_mem_singleton.mpr ⟨kind, h.format ▸ encoded⟩⟩
    · obtain ⟨n, zeros⟩ := last.blank
      exact ⟨n - frame.length, by rw [Sheet.push, Image.push, zeros, List.drop_replicate]⟩
    · rcases not_and_or.mp fits with fits | first
      · left
        rw [Sheet.stop_push, Sheet.push, h.config]
        exact Nat.le_of_not_lt fits
      · right
        rw [Sheet.push, Image.push, not_not.mp first]
        rfl
    · rwa [Sheet.stop_push]

theorem Fills.overflows_iff (h : Fills place removed older newest s) (frame : Bytes) :
    s.2.overflows frame.length = true ↔ Turns s newest frame := by
  have mem : newest ∈ older ++ [newest] := List.mem_append_right _ List.mem_cons_self
  have started : Header.size < newest.image.stop ↔ newest.image.frames ≠ [] := by
    constructor
    · rintro lt none
      rw [Image.stop, none] at lt
      exact absurd lt (lt_irrefl _)
    · intro some_frame
      by_contra le
      refine some_frame ((h.filled newest mem).written.eq_nil ?_)
      rw [Image.stop] at le
      omega
  rw [Log.overflows, decide_eq_true_eq, h.position, started, Turns]

/-- Where a frame is to go: behind the frames of the newest segment, or into a new one. -/
inductive Lands (s : Volume × Log) (older : List Sheet) (newest : Sheet) (frame : Bytes) :
    List Sheet → Sheet → Prop
  | stay (fits : ¬Turns s newest frame) : Lands s older newest frame older newest
  | turn {next : Sheet} (turns : Turns s newest frame) (config : next.config = s.2.config)
      (empty : next.image.frames = []) : Lands s older newest frame (older ++ [newest]) next

/-- What an append leaves of a record that has a frame. A frame that is too long for a pointer is
refused, though not before a segment was started for it. -/
structure Puts (x : LogM Pointer) (place : Place) (removed : ℕ) (older : List Sheet)
    (newest : Sheet) (frame : Bytes) (record : Record) (s : Volume × Log) : Prop where
  done : newest.image.stop + frame.length ≤ Pointer.maxOffset →
    ∃ s', x s = .ok ⟨older.length, newest.image.stop, frame.length⟩ s' ∧
      Fills place removed older (newest.push frame record) s'
  refused : Pointer.maxOffset < newest.image.stop + frame.length →
    ∃ e s', x s = .error e s' ∧ Fills place removed older newest s'

theorem put_puts (h : Fills place removed older newest s) (kind : record.kind ≠ .header)
    (encoded : Frame.encode s.2.format record = .ok frame) (fits : ¬Turns s newest frame) :
    Puts (put frame) place removed older newest frame record s := by
  constructor
  · intro reach
    obtain ⟨s', done, fills, -⟩ := put_fills h kind encoded fits reach
    exact ⟨s', done, fills⟩
  · intro beyond
    obtain ⟨e, refused⟩ := put_bare_beyond (h.position ▸ beyond) s.1
    exact ⟨e, s, refused, h⟩

theorem write_puts (h : Fills place removed older newest s) (room : Place.Room (older.length + 2))
    (kind : record.kind ≠ .header) (encoded : Frame.encode s.2.format record = .ok frame) :
    ∃ older' newest', Lands s older newest frame older' newest' ∧
      Puts (write record) place removed older' newest' frame record s := by
  rcases write_cases record s with ⟨e, -, header⟩ | ⟨frame', -, encoded', written⟩
  · exact absurd (header frame encoded) kind
  cases encoded'.symm.trans encoded
  by_cases turns : Turns s newest frame
  · obtain ⟨s₁, rotated, fills, config, format⟩ := rotate_fills h room
    have stays : ¬Turns s₁ s₁.2.newSheet frame := fun h => h.2 rfl
    have put_ := put_puts fills kind (format ▸ encoded) stays
    refine ⟨older ++ [newest], s₁.2.newSheet, .turn turns config rfl, ?_⟩
    rw [if_pos ((h.overflows_iff frame).mpr turns)] at written
    constructor
    · intro reach
      rw [written, run_bind_of_ok rotated]
      exact put_.done reach
    · intro beyond
      rw [written, run_bind_of_ok rotated]
      exact put_.refused beyond
  · have put_ := put_puts h kind encoded turns
    rw [if_neg (mt (h.overflows_iff frame).mp turns)] at written
    exact ⟨_, _, .stay turns, ⟨fun reach => written ▸ put_.done reach,
      fun beyond => written ▸ put_.refused beyond⟩⟩

theorem append_puts (h : Fills place removed older newest s)
    (room : Place.Room (older.length + 2)) (kind : record.kind ≠ .header)
    (encoded : Frame.encode s.2.format record = .ok frame) :
    ∃ older' newest', Lands s older newest frame older' newest' ∧
      Puts (append record) place removed older' newest' frame record s := by
  obtain ⟨older', newest', lands, written⟩ := write_puts h room kind encoded
  refine ⟨older', newest', lands, ?_, ?_⟩
  · intro reach
    obtain ⟨s₁, done, fills⟩ := written.done reach
    rw [append_of_ok done]
    split
    · obtain ⟨ledger, flushed, fills⟩ := flush_fills fills
      exact ⟨_, (run_bind_of_ok flushed).trans rfl, fills⟩
    · exact ⟨s₁, rfl, fills⟩
  · intro beyond
    obtain ⟨e, s₁, failed, fills⟩ := written.refused beyond
    exact ⟨e, s₁, append_of_error failed, fills⟩

/-- A record without a frame is refused, and nothing is done. -/
theorem append_frameless (none_ : ∀ frame, Frame.encode s.2.format record = .ok frame →
    record.kind = .header) : ∃ e, append record s = .error e s := by
  rcases write_cases record s with ⟨e, refused, -⟩ | ⟨frame, kind, encoded, -⟩
  · exact ⟨e, append_of_error refused⟩
  · exact absurd (none_ frame encoded) kind

/-- Either an append does nothing, or there is a frame that it puts somewhere if it can. -/
theorem append_attempts (h : Fills place removed older newest s)
    (room : Place.Room (older.length + 2)) (record : Record) :
    (∃ e, append record s = .error e s) ∨ ∃ frame older' newest',
      Lands s older newest frame older' newest' ∧
        Puts (append record) place removed older' newest' frame record s := by
  by_cases encoded : ∃ frame, Frame.encode s.2.format record = .ok frame ∧ record.kind ≠ .header
  · obtain ⟨frame, encoded, kind⟩ := encoded
    exact .inr ⟨frame, append_puts h room kind encoded⟩
  · refine .inl (append_frameless fun frame ok => ?_)
    by_contra kind
    exact encoded ⟨frame, ok, kind⟩

/-! ## Opening -/

/-- Opening a log leaves the segments that are there, but for what reading refuses at the end of the
newest one. -/
inductive Resumed : List Sheet → List Sheet → Prop
  | none_there : Resumed [] []
  | newest {older : List Sheet} {newest : Sheet} {image : Image}
      (frames : image.frames <+: newest.image.frames)
      (whole : (∀ e ∈ newest.image.frames, e.2.Readable) → image = newest.image) :
      Resumed (older ++ [newest]) (older ++ [{ newest with image }])

theorem Resumed.length {sheets sheets' : List Sheet} (h : Resumed sheets sheets') :
    sheets'.length = sheets.length := by
  cases h with
  | none_there => rfl
  | newest frames whole => simp only [List.length_append, List.length_singleton]

theorem Sealing.resumed {sheets : List Sheet} {v₁ : Volume}
    (seals : Sealing v (sheets.map (·.content)) v₁)
    (keeps : place.Keeps v removed (sheets.map (·.content)))
    (bytes : ∀ sheet ∈ sheets, v.bytes sheet.content = sheet.image.bytes)
    (filled : ∀ sheet ∈ sheets, sheet.Filled) :
    ∃ sheets', Resumed sheets sheets' ∧ sheets'.map (·.content) = sheets.map (·.content) ∧
      (∀ sheet ∈ sheets', v₁.bytes sheet.content = sheet.image.bytes) ∧
      ∀ sheet ∈ sheets', sheet.Filled := by
  generalize same : sheets.map (·.content) = ids at seals keeps
  cases seals with
  | none_there =>
      cases List.map_eq_nil_iff.mp same
      exact ⟨[], .none_there, rfl, nofun, nofun⟩
  | @newest _ _ f kept items header sealed_ =>
      obtain ⟨older, rest, rfl, rfl, last⟩ := List.map_eq_append_iff.mp same
      obtain ⟨sheet, rfl, rfl⟩ := List.map_eq_singleton_iff.mp last
      obtain ⟨before, stored⟩ := List.forall_mem_append.mp bytes
      obtain ⟨filled, last⟩ := List.forall_mem_append.mp filled
      rw [List.forall_mem_singleton] at stored last
      rw [stored] at header sealed_
      obtain ⟨image, rfl, -, frames, fills, whole⟩ := last.seal header sealed_
      have known := keeps.known _ (List.mem_append_right _ List.mem_cons_self)
      refine ⟨_, .newest frames whole, by simp, List.forall_mem_append.mpr ⟨fun s mem => ?_,
        List.forall_mem_singleton.mpr (Volume.bytes_setBytes known _)⟩,
        List.forall_mem_append.mpr ⟨filled, List.forall_mem_singleton.mpr fills⟩⟩
      rw [Volume.bytes_setBytes_of_ne (keeps.other (List.mem_map_of_mem mem))]
      exact before s mem

theorem openIn_fills {sheets : List Sheet} (keeps : place.Keeps v removed (sheets.map (·.content)))
    (bytes : ∀ sheet ∈ sheets, v.bytes sheet.content = sheet.image.bytes)
    (filled : ∀ sheet ∈ sheets, sheet.Filled) (room : Place.Room (sheets.length + 1))
    (c : Config) :
    (∃ v' log older, openIn { place } c v = .ok log v' ∧ Resumed sheets older ∧
      Fills place removed older log.newSheet (v', log) ∧ log.config = c ∧
      log.ledger.pins = []) ∨
    ∃ fault, openIn { place } c v = .error fault v := by
  refine (openIn_kept keeps (by rwa [List.length_map]) c).imp_left ?_
  rintro ⟨v₁, v', log, opened, seals, started, directory, rfl, size, bounded, pins⟩
  obtain ⟨older, resumed, same, bytes, filled⟩ := seals.resumed keeps bytes filled
  rw [← same] at started
  exact ⟨v', log, older, opened, resumed, started.fills directory size bounded bytes filled, rfl,
    pins⟩

end Log
end SegmentLog
