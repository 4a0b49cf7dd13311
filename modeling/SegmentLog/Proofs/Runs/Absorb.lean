import Mathlib.Order.Interval.Set.Basic
import SegmentLog.Runs

/-!
# Runs above a level

A level stands for all numbers up to it, and runs for what is known above it. Absorbing moves the
level through the runs that it reaches, and loses and invents nothing: `absorb_covers`. What is
left stands above the new level with a number in between: `absorb_above`. The last number known
is `highest`, in which `highest_covers` and `le_highest` say that nothing lies beyond it. Up to there
the `holes` have what neither the level nor the runs have: `contains_holes`.
-/
namespace SegmentLog.Runs

theorem contains_iff {rs : Runs} {n : ℕ} :
    rs.contains n = true ↔ ∃ r ∈ rs, r.start ≤ n ∧ n < r.stop := by
  simp [contains, Run.contains]

/-- A number is left out between the level and every run. -/
def Above (level : ℕ) (rs : Runs) : Prop := ∀ r ∈ rs, level + 1 < r.start

theorem separated_cons {r : Run} {rs : Runs} :
    Separated (r :: rs) ↔ r.start < r.stop ∧ (∀ s ∈ rs, r.stop < s.start) ∧ Separated rs := by
  simp only [Separated, List.forall_mem_cons, List.pairwise_cons]
  tauto

theorem Separated.absorb {rs : Runs} (h : rs.Separated) (level : ℕ) :
    (rs.absorb level).2.Separated := by
  induction rs generalizing level with
  | nil => exact h
  | cons r rs ih =>
      unfold Runs.absorb
      split
      · exact ih (separated_cons.mp h).2.2 _
      · exact h

theorem mem_of_mem_absorb {level : ℕ} {rs : Runs} {r : Run} (h : r ∈ (rs.absorb level).2) :
    r ∈ rs := by
  induction rs generalizing level with
  | nil => exact h
  | cons s rs ih =>
      unfold absorb at h
      split at h
      · exact List.mem_cons_of_mem _ (ih h)
      · exact h

theorem absorb_above {rs : Runs} (h : rs.Separated) (level : ℕ) :
    Above (rs.absorb level).1 (rs.absorb level).2 := by
  induction rs generalizing level with
  | nil => simp [absorb, Above]
  | cons r rs ih =>
      obtain ⟨full, below, rest⟩ := separated_cons.mp h
      unfold absorb
      split
      · exact ih rest _
      · rename_i hr
        intro s hs
        rcases List.mem_cons.mp hs with rfl | hs
        · omega
        · have := below s hs
          omega

theorem le_absorb (level : ℕ) (rs : Runs) : level ≤ (rs.absorb level).1 := by
  induction rs generalizing level with
  | nil => exact le_rfl
  | cons r rs ih =>
      unfold absorb
      split
      · exact (Nat.le_max_left _ _).trans (ih _)
      · exact le_rfl

/-- Absorbing neither loses nor invents a number. -/
theorem absorb_covers {rs : Runs} (h : rs.Separated) (level n : ℕ) :
    n ≤ (rs.absorb level).1 ∨ (rs.absorb level).2.contains n = true ↔
      n ≤ level ∨ rs.contains n = true := by
  induction rs generalizing level with
  | nil => rfl
  | cons r rs ih =>
      obtain ⟨full, -, rest⟩ := separated_cons.mp h
      unfold absorb
      split
      · rename_i hr
        have reached : n ≤ max level (r.stop - 1) ↔ n ≤ level ∨ r.contains n = true := by
          simp only [Run.contains, decide_eq_true_eq]
          omega
        rw [ih rest, reached, contains_cons, Bool.or_eq_true, or_assoc]
      · rfl

theorem highest_cons (level : ℕ) (r : Run) (rs : Runs) :
    highest level (r :: rs) = highest (r.stop - 1) rs := by
  simp only [highest, List.getLast?_cons, Option.elim]
  cases rs.getLast? <;> rfl

/-- Separated runs stand above the last number of the run before them. -/
theorem Separated.tail_above {r : Run} {rs : Runs} (h : Separated (r :: rs)) :
    Above (r.stop - 1) rs := by
  obtain ⟨full, below, -⟩ := separated_cons.mp h
  intro s hs
  have := below s hs
  omega

theorem le_highest {rs : Runs} {level n : ℕ} (h : rs.Separated) (above : Above level rs)
    (hn : n ≤ level ∨ rs.contains n = true) : n ≤ highest level rs := by
  induction rs generalizing level with
  | nil => simpa [highest] using hn
  | cons r rs ih =>
      have hr := above r List.mem_cons_self
      have full := (separated_cons.mp h).1
      rw [highest_cons]
      apply ih (separated_cons.mp h).2.2 h.tail_above
      simp only [contains_cons, Run.contains, Bool.or_eq_true, decide_eq_true_eq] at hn
      rcases hn with hn | hn | hn
      · left
        omega
      · left
        omega
      · exact Or.inr hn

theorem highest_covers {rs : Runs} (h : rs.Separated) (level : ℕ) :
    highest level rs = level ∨ rs.contains (highest level rs) = true := by
  induction rs generalizing level with
  | nil => exact Or.inl rfl
  | cons r rs ih =>
      obtain ⟨full, -, rest⟩ := separated_cons.mp h
      rw [highest_cons, contains_cons, Bool.or_eq_true]
      right
      rcases ih rest (r.stop - 1) with hr | hr
      · left
        simp only [Run.contains, decide_eq_true_eq, hr]
        omega
      · exact Or.inr hr

/-! ## What is missing -/

theorem lt_start_of_mem_holes {rs : Runs} {level : ℕ} (h : rs.Separated) (above : Above level rs)
    {r : Run} (hr : r ∈ rs.holes level) : level < r.start := by
  induction rs generalizing level with
  | nil => cases hr
  | cons s rs ih =>
      have first := above s List.mem_cons_self
      have full := (separated_cons.mp h).1
      rcases List.mem_cons.mp hr with rfl | later
      · exact Nat.lt_succ_self level
      · have beyond := ih (separated_cons.mp h).2.2 h.tail_above later
        omega

/-- A hole ends where a run starts. -/
theorem exists_of_mem_holes {rs : Runs} {level : ℕ} {r : Run} (hr : r ∈ rs.holes level) :
    ∃ s ∈ rs, s.start = r.stop := by
  induction rs generalizing level with
  | nil => cases hr
  | cons s rs ih =>
      rcases List.mem_cons.mp hr with rfl | later
      · exact ⟨s, List.mem_cons_self, rfl⟩
      · obtain ⟨t, ht, same⟩ := ih later
        exact ⟨t, List.mem_cons_of_mem s ht, same⟩

/-- The runs stand between the holes. -/
theorem Separated.holes {rs : Runs} {level : ℕ} (h : rs.Separated) (above : Above level rs) :
    Separated (rs.holes level) := by
  induction rs generalizing level with
  | nil => simp [Runs.holes, Separated]
  | cons s rs ih =>
      obtain ⟨full, -, rest⟩ := separated_cons.mp h
      refine separated_cons.mpr ⟨above s List.mem_cons_self, fun r hr => ?_, ih rest h.tail_above⟩
      have beyond := lt_start_of_mem_holes rest h.tail_above hr
      dsimp only
      omega

/-- The holes have every number that is missing between the level and the highest, and no other. -/
theorem contains_holes {rs : Runs} {level : ℕ} (h : rs.Separated) (above : Above level rs)
    (n : ℕ) : contains (rs.holes level) n = true ↔
      level < n ∧ n ≤ highest level rs ∧ ¬rs.contains n = true := by
  induction rs generalizing level with
  | nil =>
      simp only [holes, contains_nil, highest, List.getLast?_nil, Option.elim, Bool.false_eq_true,
        not_false_eq_true, and_true, false_iff]
      omega
  | cons s rs ih =>
      have first := above s List.mem_cons_self
      obtain ⟨full, below, rest⟩ := separated_cons.mp h
      have reaches : s.stop - 1 ≤ highest (s.stop - 1) rs :=
        le_highest rest h.tail_above (Or.inl le_rfl)
      rw [holes, contains_cons, Bool.or_eq_true, ih rest h.tail_above, highest_cons, contains_cons,
        Bool.or_eq_true, not_or]
      simp only [Run.contains, decide_eq_true_eq]
      by_cases known : contains rs n = true
      · -- every later run is beyond the first, so the number is in no hole
        obtain ⟨r, hr, le, -⟩ := contains_iff.mp known
        have later := below r hr
        simp only [known, not_true_eq_false, and_false, or_false, iff_false]
        omega
      · simp only [known, Bool.false_eq_true, not_false_eq_true, and_true]
        omega

theorem separated_ofList {rs : List Run} (full : ∀ r ∈ rs, r.start < r.stop) :
    Separated (ofList rs) := by
  induction rs with
  | nil => simp [ofList, Separated]
  | cons r rs ih =>
      simp only [List.forall_mem_cons] at full
      exact (ih full.2).add full.1

/-- Joining the runs of a list keeps their numbers. -/
theorem contains_ofList {rs : List Run} (full : ∀ r ∈ rs, r.start < r.stop) (n : ℕ) :
    (ofList rs).contains n = contains rs n := by
  induction rs with
  | nil => rfl
  | cons r rs ih =>
      simp only [List.forall_mem_cons] at full
      calc
        (ofList (r :: rs)).contains n = ((ofList rs).add r).contains n := rfl
        _ = (r.contains n || (ofList rs).contains n) :=
          contains_add full.1 (separated_ofList full.2).1 n
        _ = (r.contains n || contains rs n) := by rw [ih full.2]

end SegmentLog.Runs
