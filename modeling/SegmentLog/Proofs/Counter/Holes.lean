import SegmentLog.Proofs.Counter.Reached

/-!
# Giving up what is missing

Below its highest complete number a counter misses the numbers between its gaps. Giving up on them
reports each maximal run of them once, in ascending order, and leaves everything up to the highest
number applied: main statement `Reached.finalize_exact`.

The numbers handed out have no part in it. They stay at or above what is applied as long as they
do not wrap; once they have, they may be below it, and giving up changes nothing about that:
`finalize_above_wrapped`.
-/
namespace SegmentLog.Counter

/-- Runs with a number left out between them are the maximal runs of their numbers. -/
theorem mem_iff_maximalRun {rs : Runs} (h : rs.Separated) (r : Run) :
    r ∈ rs ↔ MaximalRun {n | Runs.contains rs n = true} r := by
  have maximal {r : Run} (hr : r ∈ rs) : MaximalRun {n | Runs.contains rs n = true} r := by
    obtain ⟨after, before⟩ := notMem_of_separated h hr
    constructor
    case full => exact h.1 r hr
    case within => exact fun n hn => Runs.contains_iff.mpr ⟨r, hr, hn⟩
    case before => exact fun n hn known => Bool.false_ne_true ((before n hn).symm.trans known)
    case after => exact fun known => Bool.false_ne_true (after.symm.trans known)
  refine ⟨maximal, fun alone => ?_⟩
  have first := alone.within ⟨le_rfl, alone.full⟩
  obtain ⟨s, hs, around⟩ := Runs.contains_iff.mp first
  have same := alone.eq_of_mem (maximal hs) ⟨le_rfl, alone.full⟩ around
  exact same ▸ hs

variable {c : Counter} {C : Set ℕ}

/-- The highest complete number, or 0 if there is none. -/
theorem Ordered.highest_spec (h : c.Ordered) :
    c.completed = ∅ ∧ c.gaps.highest c.applied = 0 ∨
      IsGreatest c.completed (c.gaps.highest c.applied) := by
  have top {n : ℕ} (hn : n ∈ c.completed) : n ≤ c.gaps.highest c.applied :=
    Runs.le_highest h.separated h.above (mem_completed.mp hn).2
  by_cases none : c.gaps.highest c.applied = 0
  · left
    refine ⟨Set.eq_empty_iff_forall_notMem.mpr fun n hn => ?_, none⟩
    have := top hn
    have := (mem_completed.mp hn).1
    omega
  · right
    have covered := (Runs.highest_covers h.separated c.applied).imp_left Eq.le
    exact ⟨mem_completed.mpr ⟨none, covered⟩, fun n hn => top hn⟩

/-- No hole starts at the last number of all or beyond it. -/
theorem Ordered.missing_eq (h : c.Ordered) (words : c.InWords) :
    c.missing = c.gaps.holes c.applied := by
  have small : ∀ r ∈ c.gaps.holes c.applied, r.start < limit := by
    intro r hr
    obtain ⟨s, hs, next⟩ := Runs.exists_of_mem_holes hr
    have full := (h.separated.holes h.above).1 r hr
    have full' := h.separated.1 s hs
    have := words.stop_le s hs
    omega
  unfold missing
  conv_rhs => rw [← List.map_id (c.gaps.holes c.applied)]
  refine List.map_congr_left fun r hr => ?_
  rw [Nat.mod_eq_of_lt (small r hr)]
  rfl

/-- What is reported missing is missing, with nothing between that is. -/
theorem Ordered.mem_missing_iff (h : c.Ordered) (words : c.InWords) (r : Run) :
    r ∈ c.missing ↔
      MaximalRun {n | c.applied < n ∧ n ≤ c.gaps.highest c.applied ∧ n ∉ c.completed} r := by
  have numbers : {n | Runs.contains (c.gaps.holes c.applied) n = true} =
      {n | c.applied < n ∧ n ≤ c.gaps.highest c.applied ∧ n ∉ c.completed} := by
    ext n
    have holes := Runs.contains_holes h.separated h.above n
    simp only [Set.mem_ofPred_eq, holes, mem_completed]
    refine and_congr_right fun above => and_congr_right fun _ => not_congr ?_
    constructor
    · exact fun known => ⟨by omega, Or.inr known⟩
    · exact fun known => known.2.resolve_left (by omega)
  rw [h.missing_eq words, ← numbers]
  exact mem_iff_maximalRun (h.separated.holes h.above) r

variable {allowed : Counter → Call → Prop} {config : Config}

/-- Giving up reports the maximal runs of missing numbers, in ascending order, and leaves all up to
the highest complete number applied and no gaps. It changes nothing else, so that a second time
there is nothing to give up; and while the numbers handed out do not wrap, they stay at or above
what is applied. -/
theorem Reached.finalize_exact (h : Reached allowed config c C) :
    ∃ M, (C = ∅ ∧ M = 0 ∨ IsGreatest C M) ∧
      (∀ r, r ∈ c.finalize.1 ↔ MaximalRun {n | c.applied < n ∧ n ≤ M ∧ n ∉ C} r) ∧
      c.finalize.1.Pairwise (·.stop < ·.start) ∧
      c.finalize.2.1 = { c with applied := M, gaps := [] } ∧
      c.finalize.2.1.finalize = ([], c.finalize.2.1, none) ∧
      ((∀ d call, allowed d call → d.Unwrapped call) →
        c.finalize.2.1.applied ≤ c.finalize.2.1.reserved) := by
  obtain ⟨ordered, rfl, -⟩ := h.spec
  have words := h.inWords
  have ascending : c.missing.Pairwise (·.stop < ·.start) := by
    rw [ordered.missing_eq words]
    exact (ordered.separated.holes ordered.above).2
  refine ⟨c.gaps.highest c.applied, ordered.highest_spec, ordered.mem_missing_iff words, ascending,
    rfl, finalize_of_no_gaps rfl, fun unwrapped => ?_⟩
  have sound := (h.mono unwrapped).sound
  exact (Counter.finalize_spec sound).1.applied_le

/-- With 3, 4 and 8 complete, 1 and 2 are given up as one run and 5 to 7 as another. -/
theorem finalize_exact_two_holes :
    let c := (Call.complete 8 1).perform ((Call.complete 3 2).perform {})
    Reached Unwrapped {} c (Set.Ico 3 5 ∪ Set.Ico 8 9) ∧
      (∀ r, r ∈ [⟨1, 3⟩, ⟨5, 8⟩] ↔
        MaximalRun {n | 0 < n ∧ n ≤ 8 ∧ n ∉ Set.Ico 3 5 ∪ Set.Ico 8 9} r) ∧
      c.finalize = ([⟨1, 3⟩, ⟨5, 8⟩], { applied := 8, reserved := 8 }, some (.applied 0 8)) := by
  intro c
  have reached : Reached Unwrapped {} c (∅ ∪ Set.Ico 3 5 ∪ Set.Ico 8 9) :=
    (Reached.empty.succeed (.complete 3 2) trivial trivial (by decide)).succeed
      (.complete 8 1) trivial trivial (by decide)
  rw [Set.empty_union] at reached
  obtain ⟨M, -, holes, -, left, -⟩ := reached.finalize_exact
  obtain rfl : 8 = M := congrArg Counter.applied left
  exact ⟨reached, holes, rfl⟩

/-- After the counter is moved to 2, handing out one number less than there are words wraps to 1,
and stays there below what is applied. -/
theorem finalize_above_wrapped :
    let c := (Call.reserve (limit - 1)).perform ((Call.moveTo 2).perform {})
    Reached (fun _ _ => True) {} c (Set.Icc 1 2) ∧
      c.finalize.2.1.reserved < c.finalize.2.1.applied := by
  intro c
  have moved : Reached (fun _ _ => True) {} ((Call.moveTo 2).perform {}) (Set.Icc 1 2) :=
    .moved 2 (by decide) trivial
  exact ⟨moved.succeed (.reserve (limit - 1)) trivial trivial rfl, by decide⟩

end SegmentLog.Counter
