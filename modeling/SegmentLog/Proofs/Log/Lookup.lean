import SegmentLog.Log
import SegmentLog.Proofs.Segment.Placed
import SegmentLog.Proofs.Session.Restart
import SegmentLog.Proofs.Store.Bare

/-!
# Looking up one record

Reading the one record at a pointer gives the record whose frame starts there, behind the header,
and nothing else, wherever the segments are kept: `readRecord_eq_ok_iff`. It is also what a session
that starts at the pointer gives first, if that one is at the pointer (`first_of_openRange`).

Main statement: `readRecord_classified`, for a log in memory. What is not a record is damage, up to
the last byte of the segment. A pointer behind that is refused as an argument, so the answer is not
damage of a record (`readRecord_behind_the_end`); a reference to bytes that were cut off is such a
pointer.
-/
namespace SegmentLog

namespace Directory
variable {d : Directory} {v : Volume} {p : Pointer} {record : Record}

/-- A segment that opens has bytes. -/
theorem exists_stores {index : ℕ} {store : Store} (h : d.openRead v index = .ok store) :
    ∃ bs, d.Stores v index bs := by
  refine ⟨v.bytes store.content, store, h, ?_⟩
  unfold openRead Place.openSegment at h
  split at h
  · split at h
    · cases h
      exact ⟨rfl, fun offset len within =>
        Store.reads_memory _ true _ v offset len within (Nat.le_refl _)⟩
    · cases h
  · dsimp only at h
    split at h
    · split at h
      · cases h
        exact ⟨rfl, fun offset len within =>
          Store.reads_onFile v _ _ true v offset len within (Nat.le_refl _)⟩
      · cases h
    · cases h

/-- The frame of the record starts at the pointer, behind the header of its segment. -/
def RecordAt (d : Directory) (v : Volume) (p : Pointer) (record : Record) : Prop :=
  ∃ bs f frame, d.Stores v p.segment bs ∧ Header.encode f <+: bs ∧ Header.size ≤ p.offset ∧
    Segment.FrameAt f bs p.offset frame record

theorem readRecord_of_stores {bs : Bytes} {f : Format} (h : d.Stores v p.segment bs)
    (header : Header.encode f <+: bs) {bufferSize : ℕ} :
    d.readRecord v bufferSize p = .ok record ↔
      Header.size ≤ p.offset ∧ ∃ frame, Segment.FrameAt f bs p.offset frame record := by
  constructor
  · intro ok
    obtain ⟨f', found, header', inBody, here⟩ := readRecord_eq_ok h ok
    cases header'.symm.trans (Header.decode_eq_ok_iff.mpr header)
    obtain ⟨frame, here, -⟩ := Segment.frameAt_of_read here
    exact ⟨inBody, frame, here⟩
  · rintro ⟨inBody, frame, here⟩
    exact readRecord_of_read h (Header.decode_eq_ok_iff.mpr header) inBody
      (Segment.read_of_frameAt p.segment here) bufferSize

/-- Whatever segments a directory has, and wherever, what is read through a pointer is the record
that is there. -/
theorem readRecord_eq_ok_iff {bufferSize : ℕ} :
    d.readRecord v bufferSize p = .ok record ↔ d.RecordAt v p record := by
  constructor
  · intro ok
    obtain ⟨r, opening, -⟩ := bind_eq_ok.mp ok
    obtain ⟨store, opened, -⟩ := bind_eq_ok.mp opening
    obtain ⟨bs, stored⟩ := exists_stores opened
    obtain ⟨f, found, header, -, -⟩ := readRecord_eq_ok stored ok
    have header := Header.decode_eq_ok_iff.mp header
    obtain ⟨inBody, frame, here⟩ := (readRecord_of_stores stored header).mp ok
    exact ⟨bs, f, frame, stored, header, inBody, here⟩
  · rintro ⟨bs, f, frame, stored, header, inBody, here⟩
    exact (readRecord_of_stores stored header).mpr ⟨inBody, frame, here⟩

/-- Up to the end of the bytes, whatever is not a record is damage of one. -/
theorem isRecordDamage_of_readRecord {bs : Bytes} {f : Format} (h : d.Stores v p.segment bs)
    (header : Header.encode f <+: bs) (within : p.offset ≤ bs.length) {bufferSize : ℕ}
    {error : Error} (fails : d.readRecord v bufferSize p = .error error) :
    error.isRecordDamage = true := by
  rw [readRecord_of_header h (Header.decode_eq_ok_iff.mpr header) within] at fails
  split at fails
  · split at fails
    · cases fails
    · cases fails
      rfl
  · cases fails
    rfl
  · cases fails
    rfl

theorem readRecord_of_absent (place : d.place = .memory) (absent : v.segment? p.segment = none)
    (bufferSize : ℕ) : d.readRecord v bufferSize p = .error (.segmentMissing p.segment) := by
  rw [Volume.segment?, Option.map_eq_none_iff] at absent
  simp only [readRecord, openReader, openRead, place, Place.openSegment, absent, bind, Except.bind]

/-- Nothing but the segment of the pointer is missed, and only where it is not there. -/
theorem readRecord_eq_segmentMissing (place : d.place = .memory) {bufferSize index : ℕ} :
    d.readRecord v bufferSize p = .error (.segmentMissing index) ↔
      index = p.segment ∧ v.segment? p.segment = none := by
  cases there : v.segment? p.segment with
  | none =>
      rw [readRecord_of_absent place there]
      simp [eq_comm]
  | some bs =>
      have stored := stores_memory place there
      simp only [reduceCtorEq, and_false, iff_false]
      intro fails
      cases header : Header.decode bs with
      | error fault =>
          rw [readRecord_of_error stored header] at fails
          cases fails
      | ok f =>
          by_cases past : bs.length < p.offset
          · rw [readRecord_of_past stored header past] at fails
            cases fails
          · have damage := isRecordDamage_of_readRecord stored (Header.decode_eq_ok_iff.mp header)
              (Nat.le_of_not_lt past) fails
            cases damage

end Directory

/-! ## Sessions that start at the pointer -/

namespace Segment
variable {f : Format} {segment position : ℕ} {bs : Bytes} {ahead : List (ℕ × Bytes)}
  {items : List (Pointer × Record)} {ending : Ending} {found : Pointer} {record : Record}

/-- The first record that several segments give is the one at the position, unless it is of a
segment ahead. -/
theorem Parses.head?_eq_some (h : Parses f segment bs position ahead items ending)
    (others : segment ∉ ahead.map (·.1)) :
    items.head? = some (found, record) ∧ found.segment = segment ↔
      ∃ frame, FrameAt f bs position frame record ∧ found = ⟨segment, position, frame.length⟩ := by
  obtain ⟨here, stop, later, rfl, run, -, rest⟩ := h.run_later
  constructor
  · rintro ⟨first, same⟩
    cases run with
    | frame there =>
        cases first
        exact ⟨_, there, rfl⟩
    | stop none_there =>
        rcases rest with rfl | ⟨g, index, next, ahead', rfl, -, rest⟩
        · cases first
        · have mem := List.mem_of_head? first
          have placed := (rest.placed (Nat.le_refl _) _ mem).segment_mem
          exact absurd (same ▸ placed) others
  · rintro ⟨frame, there, rfl⟩
    cases run with
    | stop none_there => exact absurd there (none_there frame record)
    | frame there' =>
        obtain ⟨rfl, rfl⟩ := there.unique there'
        exact ⟨rfl, rfl⟩

end Segment

namespace Session
variable {d : Directory} {v : Volume} {s : Session} {p : Pointer} {bs : Bytes} {f : Format}

theorem head?_drain {item : Pointer × Record} :
    (s.drain v).items.head? = some item ↔ (s.next v).1 = .ok item := by
  obtain ⟨answer, s', given⟩ : ∃ answer s', s.next v = (answer, s') := ⟨_, _, rfl⟩
  cases answer with
  | ok first =>
      rw [drain_of_next_ok given, given]
      simp [Reading.cons]
  | error ending =>
      rw [drain_of_next_error given, given]
      simp

/-- A session that starts in a segment with a header opens, unless a newer segment is missing or the
start is behind the segment. It reads on from the start, but never before the end of the header. -/
theorem openRange_into (place : d.place = .memory) (sorted : v.segments.Sorted)
    (stored : v.segment? p.segment = some bs) (header : Header.encode f <+: bs) (bufferSize : ℕ) :
    (∃ index, v.Lacks p.segment index ∧
        openRange d v bufferSize (some p) none = .error (.segmentMissing index)) ∨
      (bs.length < p.offset ∧ openRange d v bufferSize (some p) none =
        .error (.argument (.startPastEnd p.offset p.segment bs.length))) ∨
      ∃ s ahead ending, openRange d v bufferSize (some p) none = .ok s ∧
        p.segment ∉ ahead.map (·.1) ∧
        Segment.Parses f p.segment bs (max p.offset Header.size) ahead (s.drain v).items ending := by
  have starts : v.StartsIn (some p) p.segment := rfl
  rcases Volume.lacks_or_covers sorted p.segment with ⟨index, lacks⟩ | ⟨bs', ahead, covers⟩
  · exact .inl ⟨index, lacks, openRange_of_lacks place sorted starts lacks bufferSize⟩
  obtain rfl := Option.some.inj (stored.symm.trans (covers.stored _ List.mem_cons_self))
  by_cases past : bs.length < p.offset
  · refine .inr (.inl ⟨past, ?_⟩)
    rw [openRange_of_covers place sorted starts covers, startOffset_some,
      Directory.openReader_of_past (Directory.stores_memory place stored)
        (Header.decode_eq_ok_iff.mpr header) past]
    rfl
  · obtain ⟨s, opened, before⟩ := openRange_of_within place sorted starts covers header
      (Nat.le_of_not_lt past) bufferSize
    obtain ⟨items, ending, parses⟩ :=
      Segment.exists_parses f p.segment bs (max p.offset Header.size) ahead
    have given := (drain_spec before).1
    rw [startOffset_some, Segment.scanFrom_of_parses parses] at given
    have newer : p.segment ∉ ahead.map (·.1) := by
      have consecutive := covers.consecutive
      rw [List.length_cons, List.range'_succ, List.map_cons] at consecutive
      rw [(List.cons.inj consecutive).2, List.mem_range'_1]
      omega
    exact .inr (.inr ⟨s, ahead, ending, opened, newer, given ▸ parses⟩)

/-- The record at a pointer is what a session gives first that starts there, if it gives it at the
pointer. -/
theorem first_of_openRange (place : d.place = .memory) (sorted : v.segments.Sorted)
    (stored : v.segment? p.segment = some bs) (header : Header.encode f <+: bs) {bufferSize : ℕ}
    (opened : openRange d v bufferSize (some p) none = .ok s) {record : Record} :
    (∃ found, (s.next v).1 = .ok (found, record) ∧ found.address = p.address) ↔
      Header.size ≤ p.offset ∧ ∃ frame, Segment.FrameAt f bs p.offset frame record := by
  rcases openRange_into place sorted stored header bufferSize with
    ⟨index, -, fails⟩ | ⟨-, fails⟩ | ⟨s', ahead, ending, opened', newer, parses⟩
  · cases opened.symm.trans fails
  · cases opened.symm.trans fails
  · cases opened.symm.trans opened'
    have head (found : Pointer) : (s.next v).1 = .ok (found, record) ∧ found.segment = p.segment ↔
        ∃ frame, Segment.FrameAt f bs (max p.offset Header.size) frame record ∧
          found = ⟨p.segment, max p.offset Header.size, frame.length⟩ := by
      rw [← head?_drain]
      exact parses.head?_eq_some newer
    constructor
    · rintro ⟨found, first, same⟩
      obtain ⟨segment, offset⟩ := Address.mk.inj same
      obtain ⟨frame, here, rfl⟩ := (head found).mp ⟨first, segment⟩
      have inBody : max p.offset Header.size = p.offset := offset
      rw [inBody] at here
      exact ⟨by omega, frame, here⟩
    · rintro ⟨inBody, frame, here⟩
      rw [Nat.max_eq_left inBody] at head
      exact ⟨_, ((head _).mpr ⟨frame, here, rfl⟩).1, rfl⟩

end Session

/-! ## Logs in memory -/

namespace Log

/-- What a log answers to a pointer into a segment that has a header. -/
structure Answers (log : Log) (v : Volume) (p : Pointer) (f : Format) (bs : Bytes) : Prop where
  /-- A record is read where its frame starts at the pointer, behind the header. -/
  found : ∀ record, log.readRecord v p = .ok record ↔
    Header.size ≤ p.offset ∧ ∃ frame, Segment.FrameAt f bs p.offset frame record
  /-- A session that starts at the pointer gives the same record first, at the pointer. -/
  first : ∀ s, Session.openRange log.directory v log.config.bufferSize (some p) none = .ok s →
    ∀ record, log.readRecord v p = .ok record ↔
      ∃ q, (s.next v).1 = .ok (q, record) ∧ q.address = p.address
  /-- Such a session opens if no segment behind the pointer is missing. -/
  opens : p.offset ≤ bs.length →
    (∃ s, Session.openRange log.directory v log.config.bufferSize (some p) none = .ok s) ∨
      ∃ index, p.segment < index ∧ v.Lacks p.segment index
  /-- Everything else in the segment is damage. -/
  damage : p.offset ≤ bs.length → ∀ error, log.readRecord v p = .error error →
    error.isRecordDamage = true
  /-- What is behind the segment is not. -/
  behind : bs.length < p.offset →
    log.readRecord v p = .error (.argument (.startPastEnd p.offset p.segment bs.length))

/-- How the answers of a log to a pointer are told apart. -/
structure Classified (log : Log) (v : Volume) (p : Pointer) : Prop where
  missing : ∀ index, log.readRecord v p = .error (.segmentMissing index) ↔
    index = p.segment ∧ v.segment? p.segment = none
  unreadable : ∀ bs fault, v.segment? p.segment = some bs → Header.decode bs = .error fault →
    log.readRecord v p = .error (.header p.segment fault)
  readable : ∀ bs f, v.segment? p.segment = some bs → Header.encode f <+: bs →
    log.Answers v p f bs

/-- Whatever the segments of a log in memory hold and wherever a pointer points. -/
theorem readRecord_classified {log : Log} {v : Volume} (place : log.directory.place = .memory)
    (sorted : v.segments.Sorted) (p : Pointer) : log.Classified v p := by
  refine ⟨fun index => Directory.readRecord_eq_segmentMissing place, ?_, ?_⟩
  · intro bs fault there header
    exact Directory.readRecord_of_error (Directory.stores_memory place there) header _
  · intro bs f there header
    have stored := Directory.stores_memory place there
    have found (record : Record) : log.readRecord v p = .ok record ↔
        Header.size ≤ p.offset ∧ ∃ frame, Segment.FrameAt f bs p.offset frame record :=
      Directory.readRecord_of_stores stored header
    refine ⟨found, fun s opened record => ?_, fun within => ?_, ?_, ?_⟩
    · exact (found record).trans
        (Session.first_of_openRange place sorted there header opened).symm
    · rcases Session.openRange_into place sorted there header log.config.bufferSize with
        ⟨index, lacks, -⟩ | ⟨past, -⟩ | ⟨s, -, -, opened, -⟩
      · refine .inr ⟨index, Nat.lt_of_le_of_ne lacks.le ?_, lacks⟩
        rintro rfl
        cases there.symm.trans lacks.absent
      · exact absurd within (Nat.not_le.mpr past)
      · exact .inl ⟨s, opened⟩
    · intro within error fails
      exact Directory.isRecordDamage_of_readRecord stored header within fails
    · intro past
      exact Directory.readRecord_of_past stored (Header.decode_eq_ok_iff.mpr header) past _

/-- Segment 3 has a record at 15, a byte at 34 that starts no frame, and 35 bytes in all. -/
theorem readRecord_classified_spoiled :
    let log : Log := ⟨⟨.memory, none⟩, {}, .checked, ⟨4, ⟨1, .memory false, []⟩, 15⟩, {}⟩
    let bs := Session.spoiled.bytes 0
    log.directory.place = .memory ∧ Session.spoiled.segments.Sorted ∧
      Session.spoiled.segment? 3 = some bs ∧ Header.encode .unchecked <+: bs ∧
      (∃ frame, Segment.FrameAt .unchecked bs 15 frame (.pageRemove ⟨1⟩ ⟨2⟩ 7)) ∧
      (∀ record, log.readRecord Session.spoiled ⟨3, 7, 0⟩ ≠ .ok record) ∧
      (∀ error, log.readRecord Session.spoiled ⟨3, 34, 0⟩ = .error error →
        error.isRecordDamage = true) ∧
      log.readRecord Session.spoiled ⟨3, 36, 0⟩ = .error (.argument (.startPastEnd 36 3 35)) ∧
      log.readRecord Session.spoiled ⟨5, 15, 0⟩ = .error (.segmentMissing 5) := by
  intro log bs
  have sorted : Session.spoiled.segments.Sorted := by
    unfold Table.Sorted
    decide
  have there : Session.spoiled.segment? 3 = some bs := rfl
  have header : Header.encode .unchecked <+: bs := List.prefix_append _ _
  have classified (p : Pointer) : log.Classified Session.spoiled p :=
    readRecord_classified rfl sorted p
  have answers (offset : ℕ) := (classified ⟨3, offset, 0⟩).readable bs .unchecked there header
  have record : log.readRecord Session.spoiled ⟨3, 15, 0⟩ = .ok (.pageRemove ⟨1⟩ ⟨2⟩ 7) := by
    decide +kernel
  refine ⟨rfl, sorted, there, header, (((answers 15).found _).mp record).2, ?_, ?_, ?_, ?_⟩
  · intro record read
    exact absurd (((answers 7).found record).mp read).1 (by decide)
  · exact (answers 34).damage (by decide)
  · exact (answers 36).behind (by decide)
  · exact ((classified ⟨5, 15, 0⟩).missing 5).mpr ⟨rfl, rfl⟩

/-- A fresh log has nothing but a header of 15 bytes. A pointer one byte behind it is not taken for
damage. -/
theorem readRecord_behind_the_end :
    ∃ v log, Log.openIn ⟨.memory, none⟩ {} {} = .ok log v ∧
      v.segment? 0 = some (Header.encode .checked) ∧
      ∃ error, log.readRecord v ⟨0, 16, 0⟩ = .error error ∧ error.isRecordDamage = false := by
  refine ⟨_, _, rfl, rfl, .argument (.startPastEnd 16 0 15), ?_, rfl⟩
  exact Directory.readRecord_of_past (Directory.stores_memory rfl rfl)
    (Header.decode_eq_ok_iff.mpr (List.prefix_refl _)) (by decide) _

end Log

end SegmentLog
