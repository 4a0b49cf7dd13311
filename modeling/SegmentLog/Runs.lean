/-!
# Runs of numbers

A set of numbers as an ascending list of half-open runs. Adding a run joins it with every run
that it overlaps or touches: `contains_add` says which numbers are in the list afterwards, and
`Separated.add` that a number is still left out between one run and the next.
-/

namespace SegmentLog

/-- The numbers from `start` up to, but not including, `stop`. -/
structure Run where
  start : Nat
  stop : Nat
deriving DecidableEq, Repr, Inhabited

namespace Run

def len (r : Run) : Nat := r.stop - r.start

def contains (r : Run) (n : Nat) : Bool := r.start ≤ n ∧ n < r.stop

/-- The two runs have a number in common, when neither is empty. -/
def overlaps (r s : Run) : Bool := r.start < s.stop ∧ s.start < r.stop

/-- One run ends where the other starts. -/
def touches (r s : Run) : Bool := r.stop = s.start ∨ s.stop = r.start

def join (r s : Run) : Run := ⟨min r.start s.start, max r.stop s.stop⟩

end Run

abbrev Runs := List Run

namespace Runs

def contains (rs : Runs) (n : Nat) : Bool := rs.any (·.contains n)

/-- Runs are not empty, ascend, and leave a number out between one and the next. -/
def Separated (rs : Runs) : Prop :=
  (∀ r ∈ rs, r.start < r.stop) ∧ rs.Pairwise (·.stop < ·.start)

/-- Add a run, joining it with the runs it reaches. -/
def add (r : Run) : Runs → Runs
  | [] => [r]
  | s :: rs =>
    if r.stop < s.start then r :: s :: rs
    else if s.stop < r.start then s :: add r rs
    else add (r.join s) rs

def ofList (rs : List Run) : Runs := rs.foldr add []

/-- Advance `level`, the number below which nothing is missing, through every run that starts at
or below the number after it. -/
def absorb (level : Nat) : Runs → Nat × Runs
  | [] => (level, [])
  | r :: rs => if r.start ≤ level + 1 then absorb (max level (r.stop - 1)) rs else (level, r :: rs)

/-- What is missing between `level` and the last run, as runs. -/
def holes (level : Nat) : Runs → List Run
  | [] => []
  | r :: rs => ⟨level + 1, r.start⟩ :: holes (r.stop - 1) rs

/-- The last number of the last run, or `level` if there is none. -/
def highest (level : Nat) (rs : Runs) : Nat :=
  rs.getLast?.elim level (·.stop - 1)

@[simp] theorem contains_nil (n : Nat) : contains [] n = false := rfl

@[simp] theorem contains_cons (r : Run) (rs : Runs) (n : Nat) :
    contains (r :: rs) n = (r.contains n || rs.contains n) := rfl

/-- A run that is added brings exactly its numbers. -/
theorem contains_add {r : Run} {rs : Runs} (hr : r.start < r.stop)
    (hrs : ∀ s ∈ rs, s.start < s.stop) (n : Nat) :
    (rs.add r).contains n = (r.contains n || rs.contains n) := by
  induction rs generalizing r with
  | nil => simp [add]
  | cons s rs ih =>
    have hs := hrs s (by simp)
    have hrs' : ∀ t ∈ rs, t.start < t.stop := fun t ht => hrs t (by simp [ht])
    unfold add
    split
    · simp
    · split
      · simp only [contains_cons, ih hr hrs']
        exact Bool.or_left_comm ..
      · rename_i h₁ h₂
        have hj : (r.join s).start < (r.join s).stop := by simp only [Run.join]; omega
        rw [ih hj hrs', contains_cons, ← Bool.or_assoc]
        congr 1
        rw [Bool.eq_iff_iff]
        simp only [Run.contains, Bool.or_eq_true, decide_eq_true_eq]
        simp only [Run.join]
        omega

/-- Adding a run does not reach below its start and the starts of the others. -/
theorem lt_start_of_mem_add {r s : Run} {rs : Runs} {n : Nat} (hr : n < r.start)
    (hrs : ∀ t ∈ rs, n < t.start) (hs : s ∈ rs.add r) : n < s.start := by
  induction rs generalizing r with
  | nil => simp_all [add]
  | cons t rs ih =>
    have ht := hrs t (by simp)
    have hrs' : ∀ u ∈ rs, n < u.start := fun u hu => hrs u (by simp [hu])
    unfold add at hs
    split at hs
    · rcases List.mem_cons.mp hs with rfl | hs
      · exact hr
      · exact hrs s hs
    · split at hs
      · rcases List.mem_cons.mp hs with rfl | hs
        · exact ht
        · exact ih hr hrs' hs
      · exact ih (by simp only [Run.join]; omega) hrs' hs

/-- Adding a run leaves no two runs that overlap or touch. -/
theorem Separated.add {r : Run} {rs : Runs} (hr : r.start < r.stop) (h : rs.Separated) :
    (rs.add r).Separated := by
  induction rs generalizing r with
  | nil => simp [Runs.add, Separated, hr]
  | cons s rs ih =>
    obtain ⟨full, apart⟩ := h
    obtain ⟨below, apart'⟩ := List.pairwise_cons.mp apart
    have hs := full s (by simp)
    have rest : Separated rs := ⟨fun t ht => full t (by simp [ht]), apart'⟩
    unfold Runs.add
    split
    · rename_i hrs
      refine ⟨fun t ht => ?_, List.pairwise_cons.mpr ⟨fun t ht => ?_, apart⟩⟩
      · rcases List.mem_cons.mp ht with rfl | ht
        · exact hr
        · exact full t ht
      · rcases List.mem_cons.mp ht with rfl | ht
        · exact hrs
        · have := below t ht
          omega
    · split
      · rename_i hsr
        have tail := ih hr rest
        refine ⟨fun t ht => ?_, List.pairwise_cons.mpr ⟨fun t ht => ?_, tail.2⟩⟩
        · rcases List.mem_cons.mp ht with rfl | ht
          · exact hs
          · exact tail.1 t ht
        · exact lt_start_of_mem_add hsr below ht
      · exact ih (by simp only [Run.join]; omega) rest

/-- Adding a run makes at most one run more. -/
theorem length_add_le (r : Run) (rs : Runs) : (rs.add r).length ≤ rs.length + 1 := by
  induction rs generalizing r with
  | nil => simp [add]
  | cons s rs ih =>
    unfold add
    split
    · simp
    · split
      · simpa using ih r
      · have := ih (r.join s)
        simp only [List.length_cons]
        omega

/-- Adding a run that touches another makes no more runs. -/
theorem length_add_le_of_touches {r : Run} {rs : Runs} (hr : r.start < r.stop)
    (h : rs.Separated) (touching : rs.any r.touches = true) :
    (rs.add r).length ≤ rs.length := by
  induction rs with
  | nil => simp at touching
  | cons s rs ih =>
    obtain ⟨full, apart⟩ := h
    obtain ⟨below, apart'⟩ := List.pairwise_cons.mp apart
    have hs := full s (by simp)
    have rest : Separated rs := ⟨fun t ht => full t (by simp [ht]), apart'⟩
    obtain ⟨t, ht, meets⟩ := List.any_eq_true.mp touching
    have far : t = s ∨ s.stop < t.start := (List.mem_cons.mp ht).imp_right (below t)
    have hfull := full t ht
    simp only [Run.touches, Bool.decide_or, Bool.or_eq_true, decide_eq_true_eq] at meets
    unfold add
    split
    · rcases far with rfl | far <;> omega
    · split
      · -- the first run ends below the new one, so a later run is touched
        have later : t ∈ rs := by
          rcases List.mem_cons.mp ht with rfl | ht
          · omega
          · exact ht
        have touching' : rs.any r.touches = true :=
          List.any_eq_true.mpr ⟨t, later, by simpa [Run.touches] using meets⟩
        simpa using ih rest touching'
      · exact length_add_le (r.join s) rs

end Runs

end SegmentLog
