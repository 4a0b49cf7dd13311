import SegmentLog.Proofs.Session.Transcript

/-!
# What a session passes over

A session that ends without an error has read every segment but the last one as far as it holds
frames: up to there each byte is in the header or in the frame of a record that was given, and there
the segment ends or has a zero (`transcript_accounts`).

The zero is taken for the padding of a segment that was preallocated, but nothing behind it is
looked at. Frames behind a zero are lost, and the session does not fail (`wiped_passed_over`).
-/
namespace SegmentLog

namespace Segment

/-- What a byte of a segment is for, once these records were given. -/
inductive Accounted (f : Format) (segment : ℕ) (bs : Bytes) (items : List (Pointer × Record)) :
    ℕ → Prop
  | header {position : ℕ} (opens : Header.encode f <+: bs) (inside : position < Header.size) :
      Accounted f segment bs items position
  | frame {position start : ℕ} {frame : Bytes} {record : Record}
      (there : FrameAt f bs start frame record)
      (given : (⟨segment, start, frame.length⟩, record) ∈ items)
      (behind : start ≤ position) (inside : position < start + frame.length) :
      Accounted f segment bs items position

/-- The segment was read from its header to where its frames stop, which is its end. -/
structure ReadTo (f : Format) (segment : ℕ) (bs : Bytes) (items : List (Pointer × Record))
    (stop : ℕ) : Prop where
  opens : Header.encode f <+: bs
  run : ∃ found ⊆ items, Run f segment bs Header.size found stop
  accounted : ∀ position < stop, Accounted f segment bs items position
  ends : EndsAt bs stop

variable {f : Format} {segment position stop : ℕ} {bs : Bytes}
  {items items' : List (Pointer × Record)}

theorem Accounted.mono (h : Accounted f segment bs items position) (more : items ⊆ items') :
    Accounted f segment bs items' position := by
  cases h with
  | header opens inside => exact .header opens inside
  | frame there given behind inside => exact .frame there (more given) behind inside

theorem ReadTo.mono (h : ReadTo f segment bs items stop) (more : items ⊆ items') :
    ReadTo f segment bs items' stop := by
  obtain ⟨found, among, run⟩ := h.run
  constructor
  · exact h.opens
  · exact ⟨found, List.Subset.trans among more, run⟩
  · intro position before
    exact (h.accounted position before).mono more
  · exact h.ends

/-- The frames of a run leave nothing out. -/
theorem Run.accounted {start : ℕ} (h : Run f segment bs start items stop)
    (behind : start ≤ position) (before : position < stop) :
    Accounted f segment bs items position := by
  induction h with
  | stop none_there => omega
  | @frame start stop frame record items here later ih =>
      by_cases inside : position < start + frame.length
      · exact .frame here List.mem_cons_self behind inside
      · exact (ih (Nat.le_of_not_lt inside) before).mono (List.subset_cons_self _ _)

theorem Run.readTo (h : Run f segment bs Header.size items stop) (opens : Header.encode f <+: bs)
    (ends : EndsAt bs stop) : ReadTo f segment bs items stop := by
  refine ⟨opens, ⟨items, List.Subset.refl _, h⟩, ?_, ends⟩
  intro position before
  by_cases inside : position < Header.size
  · exact .header opens inside
  · exact h.accounted (Nat.le_of_not_lt inside) before

/-- Without an error, all segments but the last one are read to their ends. -/
theorem Parses.readTo {ahead : List (ℕ × Bytes)} {ending : Ending}
    (h : Parses f segment bs position ahead items ending) (from_header : position = Header.size)
    (opens : Header.encode f <+: bs) (quiet : ending.error? = none) :
    ∀ e ∈ ((segment, bs) :: ahead).dropLast, ∃ g stop, ReadTo g e.1 e.2 items stop := by
  induction h with
  | finish run ends => exact fun e he => absurd he List.not_mem_nil
  | torn run goes_on => exact fun e he => absurd he List.not_mem_nil
  | badHeader run ends header => cases quiet
  | damaged run goes_on why => cases quiet
  | passOn run ends header rest ih =>
      subst from_header
      intro e he
      rw [List.dropLast_cons_cons] at he
      rcases List.mem_cons.mp he with rfl | later
      · exact ⟨_, _, (run.readTo opens ends).mono (List.subset_append_left _ _)⟩
      · obtain ⟨g, stop, readTo⟩ := ih rfl header quiet e later
        exact ⟨g, stop, readTo.mono (List.subset_append_right _ _)⟩

end Segment

theorem Volume.Covers.mem_dropLast {v : Volume} {first index newer : ℕ}
    {segments : List (ℕ × Bytes)} {bs : Bytes} (h : v.Covers first segments) (le : first ≤ index)
    (stored : v.segment? index = some bs) (older : index < newer)
    (present : v.segment? newer ≠ none) : (index, bs) ∈ segments.dropLast := by
  have within : newer < first + segments.length := by
    by_contra past
    exact present (h.newest newer (Nat.le_of_not_lt past))
  have lt : index - first < segments.dropLast.length := by
    rw [List.length_dropLast]
    omega
  have at_index : segments.dropLast[index - first].1 = index := by
    have listed : index - first < (segments.map (·.1)).length := by
      rw [List.length_map]
      omega
    have : (segments.map (·.1))[index - first] = first + 1 * (index - first) := by
      simp only [h.consecutive, List.getElem_range']
    rw [List.getElem_map] at this
    rw [List.getElem_dropLast, this]
    omega
  have mem := List.getElem_mem lt
  have bytes := h.stored _ ((List.dropLast_sublist segments).subset mem)
  rw [at_index, stored] at bytes
  have same : segments.dropLast[index - first] = (index, bs) :=
    Prod.ext at_index (Option.some.inj bytes).symm
  rwa [same] at mem

namespace Session
variable {d : Directory} {v : Volume}

/-- Where a session over all segments ends without an error, every segment that is not the newest
one was read up to its end, or up to a zero behind its frames. -/
theorem transcript_accounts (place : d.place = .memory) (sorted : v.segments.Sorted)
    {bufferSize index newer : ℕ} {bs : Bytes} {items : List (Pointer × Record)}
    (quiet : transcript d v bufferSize = .ok (items, none)) (stored : v.segment? index = some bs)
    (older : index < newer) (present : v.segment? newer ≠ none) :
    ∃ f stop, Segment.ReadTo f index bs items stop := by
  obtain ⟨answer, replays⟩ := exists_replays sorted none
  rw [transcript_of_replays place sorted replays] at quiet
  cases replays with
  | empty no_start no_segment =>
      rw [no_segment] at stored
      cases stored
  | missing starts lacks => cases quiet
  | badHeader starts covers header => cases quiet
  | pastEnd starts covers header past => cases quiet
  | reads starts covers header within parses =>
      have found := Prod.mk.inj (Except.ok.inj quiet)
      have le := starts.2 index (by rw [stored]; exact Option.some_ne_none bs)
      rw [← found.1]
      exact parses.readTo (Nat.zero_max _) header found.2 _
        (covers.mem_dropLast le stored older present)

/-- Two frames behind the header of a segment. The type of the first one was wiped out. -/
def wipedBytes : Bytes :=
  Header.encode .unchecked ++
    [0, 14, 0, 0, 0, 1, 0, 0, 0, 2, 0, 0, 0, 0, 0, 0, 0, 7, 0,
     5, 14, 0, 0, 0, 1, 0, 0, 0, 2, 0, 0, 0, 0, 0, 0, 0, 8, 0]

/-- The segment with a newer one. -/
def wiped : Volume where
  contents := #[wipedBytes, Header.encode .unchecked]
  segments := [(0, 0), (1, 1)]

theorem transcript_accounts_wiped : wiped.segments.Sorted ∧
    transcript { place := .memory } wiped 64 = .ok ([], none) ∧
    wiped.segment? 0 = some wipedBytes ∧ 0 < 1 ∧ wiped.segment? 1 ≠ none ∧
    ∃ f stop, Segment.ReadTo f 0 wipedBytes [] stop := by
  have sorted : wiped.segments.Sorted := by
    unfold Table.Sorted
    decide
  have quiet : transcript { place := .memory } wiped 64 = .ok ([], none) := by decide +kernel
  exact ⟨sorted, quiet, rfl, Nat.one_pos, nofun,
    transcript_accounts rfl sorted quiet rfl Nat.one_pos nofun⟩

/-- The session does not fail, and yet there are bytes that are neither in a header, nor in the
frame of a record that was given, nor in a run of zeros up to the end of their segment. -/
theorem wiped_passed_over : transcript { place := .memory } wiped 64 = .ok ([], none) ∧
    wiped.segment? 0 = some wipedBytes ∧ wiped.segment? 1 ≠ none ∧
    ¬∃ f, ∀ position < wipedBytes.length,
      Segment.Accounted f 0 wipedBytes [] position ∨ ∀ b ∈ wipedBytes.drop position, b = 0 := by
  refine ⟨by decide +kernel, rfl, nofun, ?_⟩
  rintro ⟨f, accounted⟩
  rcases accounted Header.size (by decide) with here | zeros
  · cases here with
    | header opens inside => exact absurd inside (Nat.lt_irrefl _)
    | frame there given => cases given
  · exact absurd (zeros 14 (by decide)) (by decide)

end Session
end SegmentLog
