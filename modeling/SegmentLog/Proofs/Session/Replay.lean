import Mathlib.Data.Nat.Find
import SegmentLog.Proofs.Segment.Runs
import SegmentLog.Proofs.Session.Drain

/-!
# Replaying whatever a directory holds

What comes of opening a session and reading it to its end is a matter of which segments there are
and of their bytes alone, whatever these are and however the session fetches them: `replay_iff`.
`Replays` says it in terms of what is there and what is missing. That the segments from the first
one on have to follow each other is where the listing comes in, which is in ascending order.
-/
namespace SegmentLog

section
variable {v : Volume} {first index i : ℕ}

theorem Volume.mem_keys : i ∈ v.segments.keys ↔ v.segment? i ≠ none := by
  unfold segment? Table.keys Table.get?
  simp

/-- A session reads from this segment on: that of its start, or else the oldest. -/
def Volume.StartsIn (v : Volume) (start : Option Pointer) (first : ℕ) : Prop :=
  match start with
  | some p => p.segment = first
  | none => v.segment? first ≠ none ∧ ∀ i, v.segment? i ≠ none → first ≤ i

/-- The first of the segments that should be there and is not. -/
structure Volume.Lacks (v : Volume) (first index : ℕ) : Prop where
  le : first ≤ index
  absent : v.segment? index = none
  before : ∀ i, first ≤ i → i < index → v.segment? i ≠ none
  needed : index = first ∨ ∃ newer, index < newer ∧ v.segment? newer ≠ none

/-- The segments from the first one to the newest, none of which is missing. -/
structure Volume.Covers (v : Volume) (first : ℕ) (segments : List (ℕ × Bytes)) : Prop where
  consecutive : segments.map (·.1) = List.range' first segments.length
  stored : ∀ e ∈ segments, v.segment? e.1 = some e.2
  newest : ∀ i, first + segments.length ≤ i → v.segment? i = none

end

namespace Session

/-- Where a session starts in its first segment, as long as that is not in the header. -/
def startOffset (start : Option Pointer) : ℕ := (start.map (·.offset)).getD 0

@[simp] theorem startOffset_some (p : Pointer) : startOffset (some p) = p.offset := rfl

/-- What comes of replaying the segments of a volume. -/
inductive Replays (v : Volume) (start : Option Pointer) :
    Except Error (List (Pointer × Record) × Option Ending) → Prop
  | empty (no_start : start = none) (no_segment : ∀ i, v.segment? i = none) :
      Replays v start (.ok ([], some .finish))
  | missing {first index : ℕ} (starts : v.StartsIn start first) (lacks : v.Lacks first index) :
      Replays v start (.error (.segmentMissing index))
  | badHeader {first : ℕ} {bs : Bytes} {ahead : List (ℕ × Bytes)} {fault : HeaderFault}
      (starts : v.StartsIn start first) (covers : v.Covers first ((first, bs) :: ahead))
      (header : Header.decode bs = .error fault) :
      Replays v start (.error (.header first fault))
  | pastEnd {first : ℕ} {bs : Bytes} {ahead : List (ℕ × Bytes)} {f : Format}
      (starts : v.StartsIn start first) (covers : v.Covers first ((first, bs) :: ahead))
      (header : Header.encode f <+: bs) (past : bs.length < startOffset start) :
      Replays v start (.error (.argument (.startPastEnd (startOffset start) first bs.length)))
  | reads {first : ℕ} {bs : Bytes} {ahead : List (ℕ × Bytes)} {f : Format}
      {items : List (Pointer × Record)} {ending : Ending}
      (starts : v.StartsIn start first) (covers : v.Covers first ((first, bs) :: ahead))
      (header : Header.encode f <+: bs) (within : startOffset start ≤ bs.length)
      (parses : Segment.Parses f first bs (max (startOffset start) Header.size) ahead items ending) :
      Replays v start (.ok (items, some ending))

/-! ## Coverage -/

/-- Ascending segments follow each other, or the first one that is missing among them is named. -/
theorem coverage_cases {listed : List ℕ} {expected : ℕ} (ascending : listed.Pairwise (· < ·))
    (above : ∀ i ∈ listed, expected ≤ i) :
    (listed = List.range' expected listed.length ∧ coverage none expected listed = .ok listed) ∨
      ∃ index, coverage none expected listed = .error (.segmentMissing index) ∧
        expected ≤ index ∧ index ∉ listed ∧ (∃ newer ∈ listed, index < newer) ∧
        ∀ i, expected ≤ i → i < index → i ∈ listed := by
  induction listed generalizing expected with
  | nil => exact .inl ⟨rfl, rfl⟩
  | cons segment listed ih =>
      obtain ⟨below, ascending⟩ := List.pairwise_cons.mp ascending
      obtain ⟨least, above⟩ := List.forall_mem_cons.mp above
      by_cases e : segment = expected
      · subst e
        rcases ih ascending below with ⟨follow, covered⟩ | ⟨index, missing, le, absent, ⟨newer,
          mem, lt⟩, before⟩
        · refine .inl ⟨?_, ?_⟩
          · rw [List.length_cons, List.range'_succ, ← follow]
          · simp [coverage, covered, Except.map]
        · refine .inr ⟨index, ?_, by omega, ?_, ⟨newer, List.mem_cons_of_mem _ mem, lt⟩, ?_⟩
          · simp [coverage, missing, Except.map]
          · rw [List.mem_cons, not_or]
            exact ⟨by omega, absent⟩
          · intro i hi lt
            by_cases same : i = segment
            · exact same ▸ List.mem_cons_self
            · exact List.mem_cons_of_mem _ (before i (by omega) lt)
      · refine .inr ⟨expected, ?_, Nat.le_refl _, ?_, ⟨segment, List.mem_cons_self, by omega⟩, ?_⟩
        · simp [coverage, e]
        · rw [List.mem_cons, not_or]
          refine ⟨Ne.symm e, fun mem => ?_⟩
          have := below expected mem
          omega
        · intro i hi lt
          omega

/-- What is listed from a segment on is all that is needed, or some segment is missing. -/
theorem coverage_listed {v : Volume} (sorted : v.segments.Sorted) (first : ℕ) :
    (∃ segments, v.Covers first segments ∧
        coverage none first (v.segments.keys.filter (first ≤ ·)) = .ok (segments.map (·.1))) ∨
      ∃ index, v.Lacks first index ∧
        coverage none first (v.segments.keys.filter (first ≤ ·)) =
          .error (.segmentMissing index) := by
  have ascending : (v.segments.keys.filter (first ≤ ·)).Pairwise (· < ·) :=
    (List.pairwise_map.mpr sorted).filter _
  have mem (i : ℕ) : i ∈ v.segments.keys.filter (first ≤ ·) ↔
      v.segment? i ≠ none ∧ first ≤ i := by
    rw [List.mem_filter, Volume.mem_keys, decide_eq_true_eq]
  generalize v.segments.keys.filter (first ≤ ·) = listed at ascending mem ⊢
  rcases coverage_cases ascending fun i hi => ((mem i).mp hi).2 with
    ⟨follow, covered⟩ | ⟨index, missing, le, absent, ⟨newer, there, lt⟩, before⟩
  · have indices : (listed.map fun i => (i, (v.segment? i).getD [])).map (·.1) = listed := by
      rw [List.map_map]
      exact List.map_id listed
    refine .inl ⟨listed.map fun i => (i, (v.segment? i).getD []), ⟨?_, ?_, ?_⟩, ?_⟩
    · rw [indices, List.length_map]
      exact follow
    · intro e he
      obtain ⟨i, hi, rfl⟩ := List.mem_map.mp he
      obtain ⟨bs, hbs⟩ := Option.ne_none_iff_exists'.mp ((mem i).mp hi).1
      rw [hbs, Option.getD_some]
    · intro i hi
      rw [List.length_map] at hi
      by_contra present
      have := (mem i).mpr ⟨present, by omega⟩
      rw [follow, List.mem_range'_1] at this
      omega
    · rw [indices, covered]
  · refine .inr ⟨index, ⟨le, ?_, ?_, .inr ⟨newer, lt, ((mem newer).mp there).1⟩⟩, missing⟩
    · by_contra present
      exact absent ((mem index).mpr ⟨present, le⟩)
    · intro i hi lt
      exact ((mem i).mp (before i hi lt)).1

end Session

/-! ## What is there and what is missing -/

namespace Volume
variable {v : Volume} {start : Option Pointer} {first index : ℕ} {segments : List (ℕ × Bytes)}

theorem Covers.present (h : v.Covers first segments) {i : ℕ} (le : first ≤ i)
    (lt : i < first + segments.length) : v.segment? i ≠ none := by
  have mem : i ∈ segments.map (·.1) := by
    rw [h.consecutive, List.mem_range'_1]
    exact ⟨le, lt⟩
  obtain ⟨e, he, rfl⟩ := List.mem_map.mp mem
  simp [h.stored e he]

theorem Covers.not_lacks (h : v.Covers first segments) (some_segment : segments ≠ []) :
    ¬v.Lacks first index := by
  intro lacks
  have length := List.length_pos_of_ne_nil some_segment
  have past : first + segments.length ≤ index := by
    by_contra within
    exact h.present lacks.le (by omega) lacks.absent
  rcases lacks.needed with rfl | ⟨newer, lt, present⟩
  · omega
  · exact present (h.newest newer (by omega))

/-- Segments with their bytes are determined by which segments they are. -/
theorem eq_of_stored (stored : ∀ e ∈ segments, v.segment? e.1 = some e.2) :
    segments = (segments.map (·.1)).map fun i => (i, (v.segment? i).getD []) := by
  rw [List.map_map]
  conv_lhs => rw [← List.map_id segments]
  refine List.map_congr_left fun e he => ?_
  simp [stored e he]

theorem Covers.unique {segments' : List (ℕ × Bytes)} (h : v.Covers first segments)
    (h' : v.Covers first segments') : segments = segments' := by
  have length : segments.length = segments'.length := by
    rcases Nat.lt_trichotomy segments.length segments'.length with lt | same | gt
    · exact absurd (h.newest _ (Nat.le_refl _)) (h'.present (by omega) (by omega))
    · exact same
    · exact absurd (h'.newest _ (Nat.le_refl _)) (h.present (by omega) (by omega))
  rw [eq_of_stored h.stored, eq_of_stored h'.stored, h.consecutive, h'.consecutive, length]

theorem Lacks.unique {index' : ℕ} (h : v.Lacks first index) (h' : v.Lacks first index') :
    index = index' := by
  rcases Nat.lt_trichotomy index index' with lt | same | gt
  · exact absurd h.absent (h'.before index h.le lt)
  · exact same
  · exact absurd h'.absent (h.before index' h'.le gt)

theorem lacks_or_covers (sorted : v.segments.Sorted) (first : ℕ) :
    (∃ index, v.Lacks first index) ∨ ∃ bs ahead, v.Covers first ((first, bs) :: ahead) := by
  rcases Session.coverage_listed sorted first with ⟨segments, covers, -⟩ | ⟨index, lacks, -⟩
  · cases segments with
    | nil =>
        -- nothing from the first one on is there, the first one itself included
        exact .inl ⟨first, Nat.le_refl _, covers.newest _ (Nat.le_refl _),
          fun i le lt => absurd le (Nat.not_le.mpr lt), .inl rfl⟩
    | cons e ahead =>
        obtain ⟨i, bs⟩ := e
        have consecutive := covers.consecutive
        rw [List.length_cons, List.range'_succ, List.map_cons] at consecutive
        obtain ⟨rfl, -⟩ := List.cons.inj consecutive
        exact .inr ⟨bs, ahead, covers⟩
  · exact .inl ⟨index, lacks⟩

theorem exists_startsIn (v : Volume) (start : Option Pointer) :
    (start = none ∧ ∀ i, v.segment? i = none) ∨ ∃ first, v.StartsIn start first := by
  cases start with
  | some p => exact .inr ⟨p.segment, rfl⟩
  | none =>
      by_cases h : ∃ i, v.segment? i ≠ none
      · classical exact .inr ⟨Nat.find h, Nat.find_spec h, fun i hi => Nat.find_min' h hi⟩
      · rw [not_exists] at h
        exact .inl ⟨rfl, fun i => not_not.mp (h i)⟩

end Volume

namespace Session
variable {d : Directory} {v : Volume} {start : Option Pointer} {first : ℕ}

theorem first_of_startsIn (sorted : v.segments.Sorted) (starts : v.StartsIn start first) :
    (start.map (·.segment)).or v.segments.keys.head? = some first := by
  cases start with
  | some p => exact congrArg some starts
  | none =>
      obtain ⟨present, least⟩ := starts
      rw [← Volume.mem_keys] at present
      have ascending : v.segments.keys.Pairwise (· < ·) := List.pairwise_map.mpr sorted
      have least (i : ℕ) (hi : i ∈ v.segments.keys) : first ≤ i := least i (Volume.mem_keys.mp hi)
      rw [Option.map_none, Option.none_or]
      cases keys : v.segments.keys with
      | nil =>
          rw [keys] at present
          cases present
      | cons oldest newer =>
          rw [keys] at present ascending least
          rcases List.mem_cons.mp present with rfl | later
          · rfl
          · have := (List.pairwise_cons.mp ascending).1 first later
            have := least oldest List.mem_cons_self
            omega

/-- A session opens if no segment is missing and its first segment does. -/
theorem openRange_of_startsIn (place : d.place = .memory) (sorted : v.segments.Sorted)
    (starts : v.StartsIn start first) (bufferSize : ℕ) :
    openRange d v bufferSize start none =
      if v.segment? first = none then .error (.segmentMissing first)
      else do
        let segments ← coverage none first (v.segments.keys.filter (first ≤ ·))
        let reader ← d.openReader v bufferSize first (startOffset start)
        return { directory := d, bufferSize, segments, ahead := segments.tail, stop := none,
                 reader := some reader, last := none } := by
  have list : d.list v = .ok v.segments.keys := by
    rw [Directory.list, place]
    rfl
  have listed : v.segments.keys.contains first = !decide (v.segment? first = none) := by
    rw [List.contains_eq_mem, ← decide_not, decide_eq_decide]
    exact Volume.mem_keys
  simp only [openRange, list, bind, Except.bind, first_of_startsIn sorted starts, listed,
    Bool.not_not, decide_eq_true_eq]
  split
  · rfl
  · rfl

theorem openRange_of_lacks {index : ℕ} (place : d.place = .memory) (sorted : v.segments.Sorted)
    (starts : v.StartsIn start first) (lacks : v.Lacks first index) (bufferSize : ℕ) :
    openRange d v bufferSize start none = .error (.segmentMissing index) := by
  rw [openRange_of_startsIn place sorted starts]
  split
  · rename_i absent
    have here : v.Lacks first first :=
      ⟨Nat.le_refl _, absent, fun i le lt => absurd le (Nat.not_le.mpr lt), .inl rfl⟩
    rw [here.unique lacks]
  · rename_i present
    rcases coverage_listed sorted first with ⟨segments, covers, -⟩ | ⟨other, lacks', missing⟩
    · have some_segment : segments ≠ [] := by
        rintro rfl
        exact present (covers.newest first (Nat.le_refl _))
      exact absurd lacks (covers.not_lacks some_segment)
    · rw [missing, lacks'.unique lacks]
      rfl

theorem openRange_of_covers {bs : Bytes} {ahead : List (ℕ × Bytes)} (place : d.place = .memory)
    (sorted : v.segments.Sorted) (starts : v.StartsIn start first)
    (covers : v.Covers first ((first, bs) :: ahead)) (bufferSize : ℕ) :
    openRange d v bufferSize start none =
      (d.openReader v bufferSize first (startOffset start)).map fun reader =>
        { directory := d, bufferSize, segments := first :: ahead.map (·.1),
          ahead := ahead.map (·.1), stop := none, reader := some reader, last := none } := by
  have present : ¬v.segment? first = none :=
    covers.present (Nat.le_refl _) (Nat.lt_add_of_pos_right (Nat.succ_pos _))
  rw [openRange_of_startsIn place sorted starts, if_neg present]
  rcases coverage_listed sorted first with ⟨segments, covers', covered⟩ | ⟨index, lacks, -⟩
  · rw [covered, ← covers.unique covers']
    rfl
  · exact absurd lacks (covers.not_lacks (List.cons_ne_nil _ _))

/-- A session that starts within its first segment is in front of what is there from its start on,
but never of the header. -/
theorem openRange_of_within {bs : Bytes} {ahead : List (ℕ × Bytes)} {f : Format}
    (place : d.place = .memory) (sorted : v.segments.Sorted) (starts : v.StartsIn start first)
    (covers : v.Covers first ((first, bs) :: ahead)) (header : Header.encode f <+: bs)
    (within : startOffset start ≤ bs.length) (bufferSize : ℕ) :
    ∃ s, openRange d v bufferSize start none = .ok s ∧
      s.Before v f first bs (max (startOffset start) Header.size) ahead := by
  have header := Header.decode_eq_ok_iff.mpr header
  obtain ⟨there, later⟩ := List.forall_mem_cons.mp covers.stored
  obtain ⟨r, opened, on, segment, format, position⟩ :=
    Directory.openReader_of_ok (Directory.stores_memory place there) header (startOffset start)
      (Nat.max_le.mpr ⟨within, Header.size_le_of_decode header⟩) bufferSize
  rw [openRange_of_covers place sorted starts covers, opened]
  exact ⟨_, rfl, rfl, ⟨r, rfl, on, segment, format, position⟩, rfl,
    fun e he => Directory.stores_memory place (later e he)⟩

/-- Opening a session and reading it to its end comes to what the segments hold. -/
theorem openRange_of_replays {answer : Except Error (List (Pointer × Record) × Option Ending)}
    (place : d.place = .memory) (sorted : v.segments.Sorted) (h : Replays v start answer)
    (bufferSize : ℕ) :
    ((openRange d v bufferSize start none).map fun s => ((s.drain v).items, (s.drain v).ending)) =
      answer := by
  cases h with
  | empty no_start no_segment =>
      have none_listed : v.segments.keys = [] := by
        apply List.eq_nil_iff_forall_not_mem.mpr
        intro i hi
        exact Volume.mem_keys.mp hi (no_segment i)
      have list : d.list v = .ok [] := by
        rw [← none_listed, Directory.list, place]
        rfl
      subst no_start
      simp only [openRange, list, bind, Except.bind]
      change Except.ok ((drain v _).items, (drain v _).ending) = _
      rw [drain]
      rfl
  | missing starts lacks =>
      rw [openRange_of_lacks place sorted starts lacks]
      rfl
  | badHeader starts covers header =>
      rw [openRange_of_covers place sorted starts covers,
        Directory.openReader_of_error
          (Directory.stores_memory place (covers.stored _ List.mem_cons_self)) header]
      rfl
  | pastEnd starts covers header past =>
      rw [openRange_of_covers place sorted starts covers,
        Directory.openReader_of_past
          (Directory.stores_memory place (covers.stored _ List.mem_cons_self))
          (Header.decode_eq_ok_iff.mpr header) past]
      rfl
  | @reads first bs ahead f items ending starts covers header within parses =>
      obtain ⟨s, opened, before⟩ :=
        openRange_of_within place sorted starts covers header within bufferSize
      rw [opened]
      obtain ⟨items, ending⟩ := drain_spec before
      rw [Segment.scanFrom_of_parses parses] at items ending
      exact congrArg Except.ok (Prod.ext items ending)

theorem exists_replays (sorted : v.segments.Sorted) (start : Option Pointer) :
    ∃ answer, Replays v start answer := by
  rcases v.exists_startsIn start with ⟨no_start, no_segment⟩ | ⟨first, starts⟩
  · exact ⟨_, .empty no_start no_segment⟩
  rcases Volume.lacks_or_covers sorted first with ⟨index, lacks⟩ | ⟨bs, ahead, covers⟩
  · exact ⟨_, .missing starts lacks⟩
  cases header : Header.decode bs with
  | error fault => exact ⟨_, .badHeader starts covers header⟩
  | ok f =>
      have header := Header.decode_eq_ok_iff.mp header
      by_cases past : bs.length < startOffset start
      · exact ⟨_, .pastEnd starts covers header past⟩
      · obtain ⟨items, ending, parses⟩ := Segment.exists_parses f first bs
          (max (startOffset start) Header.size) ahead
        exact ⟨_, .reads starts covers header (Nat.le_of_not_lt past) parses⟩

/-- Whatever the segments of a directory in memory hold, a session that is opened on them and read
to its end gives what they say, by any buffer and from any start. -/
theorem replay_iff (place : d.place = .memory) (sorted : v.segments.Sorted) (bufferSize : ℕ)
    (start : Option Pointer) (answer : Except Error (List (Pointer × Record) × Option Ending)) :
    ((openRange d v bufferSize start none).map fun s => ((s.drain v).items, (s.drain v).ending)) =
        answer ↔ Replays v start answer := by
  constructor
  · rintro rfl
    obtain ⟨answer, replays⟩ := exists_replays sorted start
    rwa [openRange_of_replays place sorted replays]
  · intro replays
    exact openRange_of_replays place sorted replays bufferSize

/-- Two segments of different formats, with a byte behind the record of the first one that starts
no frame. -/
def spoiled : Volume where
  contents := #[Header.encode .unchecked ++
    [5, 14, 0, 0, 0, 1, 0, 0, 0, 2, 0, 0, 0, 0, 0, 0, 0, 7, 0, 9], Header.encode .checked]
  segments := [(3, 0), (4, 1)]

theorem replay_iff_spoiled : spoiled.segments.Sorted ∧ Replays spoiled none (.ok
    ([(⟨3, 15, 19⟩, .pageRemove ⟨1⟩ ⟨2⟩ 7)], some (.failed (.record 3 34 .truncatedPrefix)))) := by
  have sorted : spoiled.segments.Sorted := by
    unfold Table.Sorted
    decide
  exact ⟨sorted, (replay_iff (d := { place := .memory }) rfl sorted 5 none _).mp (by decide +kernel)⟩

end Session
end SegmentLog
