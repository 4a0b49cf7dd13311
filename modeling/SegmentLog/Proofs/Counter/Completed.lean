import SegmentLog.Counter
import SegmentLog.Proofs.Runs.Absorb
import SegmentLog.Proofs.Snapshot.InOrder

/-!
# The completed numbers of a counter

A counter stands for the set of numbers that it knows complete. Every operation keeps the counter
`Sound` and changes that set in one way, said by one lemma for each operation; what an operation
does to its runs of numbers is not needed again after this module.
-/
namespace SegmentLog

/-- The gaps ascend, with a number left out before each of them, and none reaches beyond the
highest number handed out. -/
structure Counter.Sound (c : Counter) : Prop where
  separated : c.gaps.Separated
  above : c.gaps.Above c.applied
  applied_le : c.applied ≤ c.reserved
  stop_le : ∀ r ∈ c.gaps, r.stop ≤ c.reserved + 1

/-- The gaps ascend, with a number left out before each of them. -/
structure Counter.Ordered (c : Counter) : Prop where
  separated : c.gaps.Separated
  above : c.gaps.Above c.applied

theorem Counter.Sound.ordered {c : Counter} (h : c.Sound) : c.Ordered := ⟨h.separated, h.above⟩

/-- The numbers that a counter knows complete. -/
def Counter.completed (c : Counter) : Set ℕ := {n | c.isCompleted n = true}

/-- The numbers that a snapshot has complete. There is no update 0. -/
def Snapshot.covered (s : Snapshot) : Set ℕ :=
  {n | n ≠ 0 ∧ (n ≤ s.applied.toNat ∨
    ∃ g ∈ s.gaps, g.start.toNat ≤ n ∧ n < g.start.toNat + g.len.toNat)}

/-- No gap has the last number of all, so that a number comes after each of them. -/
def Snapshot.Bounded (s : Snapshot) : Prop :=
  ∀ g ∈ s.gaps, g.start.toNat + g.len.toNat < Counter.limit

instance (s : Snapshot) : Decidable s.Bounded := inferInstanceAs (Decidable (∀ g ∈ s.gaps, _))

/-- The gaps as runs of numbers. -/
def Snapshot.runs (s : Snapshot) : List Run :=
  s.gaps.map fun g => ⟨g.start.toNat, g.start.toNat + g.len.toNat⟩

theorem Snapshot.mem_covered {s : Snapshot} {n : ℕ} :
    n ∈ s.covered ↔ n ≠ 0 ∧ (n ≤ s.applied.toNat ∨ Runs.contains s.runs n = true) := by
  simp [covered, Runs.contains_iff, runs]

namespace Counter

/-- An empty counter. -/
theorem sound_empty (config : Config) : Sound { config } :=
  ⟨by simp [Runs.Separated], by simp [Runs.Above], le_rfl, by simp⟩

theorem mem_completed {c : Counter} {n : ℕ} :
    n ∈ c.completed ↔ n ≠ 0 ∧ (n ≤ c.applied ∨ c.gaps.contains n = true) := by
  simp only [completed, isCompleted, Set.mem_ofPred_eq, decide_eq_true_eq]

theorem Sound.le_reserved {c : Counter} (h : c.Sound) {n : ℕ} (hn : n ∈ c.completed) :
    n ≤ c.reserved := by
  rcases (mem_completed.mp hn).2 with hn | hn
  · exact hn.trans h.applied_le
  · obtain ⟨r, hr, -, hlt⟩ := Runs.contains_iff.mp hn
    have := h.stop_le r hr
    omega

/-! ## One lemma for each operation -/

theorem reserve_spec {c : Counter} (h : c.Sound) {len : ℕ} (fits : c.reserved + len < limit) :
    (c.reserve len).2.Sound ∧ (c.reserve len).2.completed = c.completed := by
  have e : (c.reserve len).2 = { c with reserved := c.reserved + len } := by
    simp only [reserve, Nat.mod_eq_of_lt fits]
  rw [e]
  refine ⟨⟨h.separated, h.above, Nat.le_add_right_of_le h.applied_le, ?_⟩, rfl⟩
  intro r hr
  have := h.stop_le r hr
  dsimp only
  omega

/-- What is handed out comes right after what was handed out before. After the last number of all
an empty block starts at 0, but it has no number. -/
theorem mem_reserve {c : Counter} {len : ℕ} (fits : c.reserved + len < limit) (n : ℕ) :
    (c.reserve len).1 ≤ n ∧ n < (c.reserve len).1 + len ↔
      c.reserved < n ∧ n ≤ c.reserved + len := by
  simp only [reserve]
  by_cases none : len = 0
  · omega
  · rw [Nat.mod_eq_of_lt (by omega)]
    omega

/-- Moving `applied` up completes every number up to the level, and keeps what was complete. -/
theorem advance_completed {c : Counter} (h : c.Ordered) {level : ℕ} (hl : c.applied ≤ level) :
    (c.advance level).1.completed = c.completed ∪ Set.Icc 1 level := by
  ext n
  have covers := Runs.absorb_covers h.separated level n
  simp only [Set.mem_union, mem_completed, Set.mem_Icc, advance, covers]
  by_cases hn : n ≤ level
  · simp [hn]
    omega
  · have : ¬n ≤ c.applied := fun hc => hn (hc.trans hl)
    simp [hn, this]

theorem advance_sound {c : Counter} (h : c.Sound) {level reserved : ℕ}
    (hr : (c.advance level).1.applied ≤ reserved) (hc : c.reserved ≤ reserved) :
    Sound { (c.advance level).1 with reserved } := by
  refine ⟨h.separated.absorb level, Runs.absorb_above h.separated level, hr, ?_⟩
  intro r hr
  exact (h.stop_le r (Runs.mem_of_mem_absorb hr)).trans (Nat.succ_le_succ hc)

/-- Advancing stops at a level that was given or at a number that was complete. -/
theorem advance_applied_le {c : Counter} (h : c.Sound) {level : ℕ} (hl : c.applied ≤ level) :
    (c.advance level).1.applied ≤ max c.reserved level := by
  by_cases hz : (c.advance level).1.applied = 0
  · omega
  · have mem : (c.advance level).1.applied ∈ (c.advance level).1.completed :=
      mem_completed.mpr ⟨hz, Or.inl le_rfl⟩
    rw [advance_completed h.ordered hl] at mem
    rcases mem with mem | mem
    · exact (h.le_reserved mem).trans (Nat.le_max_left _ _)
    · exact mem.2.trans (Nat.le_max_right _ _)

theorem reserved_of_keepGap {c c' : Counter} {block : Run} {event : Event}
    (ok : c.keepGap block = .ok (c', event)) : c'.reserved = max c.reserved (block.stop - 1) := by
  unfold keepGap at ok
  split_ifs at ok
  cases ok
  rfl

theorem keepGap_spec {c c' : Counter} {block : Run} {event : Event} (h : c.Sound)
    (full : block.start < block.stop) (above : c.applied + 1 < block.start)
    (ok : c.keepGap block = .ok (c', event)) :
    c'.Sound ∧ c'.completed = c.completed ∪ Set.Ico block.start block.stop ∧
      c'.reserved = max c.reserved (block.stop - 1) := by
  unfold keepGap at ok
  split_ifs at ok
  simp only [Except.ok.injEq, Prod.mk.injEq] at ok
  obtain ⟨rfl, -⟩ := ok
  have covers := Runs.contains_add full h.separated.1
  refine ⟨⟨h.separated.add full, ?_, ?_, ?_⟩, ?_, rfl⟩
  · exact fun r hr => Runs.lt_start_of_mem_add above h.above hr
  · exact h.applied_le.trans (Nat.le_max_left _ _)
  · intro r hr
    -- the last number of a run is one of the block's or was complete before
    have hfull := (h.separated.add full).1 r hr
    have last : (c.gaps.add block).contains (r.stop - 1) = true :=
      Runs.contains_iff.mpr ⟨r, hr, by omega, by omega⟩
    rw [covers, Bool.or_eq_true] at last
    rcases last with last | last
    · simp only [Run.contains, decide_eq_true_eq] at last
      dsimp only
      omega
    · obtain ⟨s, hs, -, hlt⟩ := Runs.contains_iff.mp last
      have := h.stop_le s hs
      dsimp only
      omega
  · ext n
    simp only [mem_completed, Set.mem_union, Set.mem_Ico, covers, Bool.or_eq_true, Run.contains,
      decide_eq_true_eq]
    have : block.start ≤ n → n ≠ 0 := by omega
    tauto

/-- What a successful completion was: of numbers that were complete already, of the numbers right
after `applied`, or of a block that is kept as a gap. -/
theorem complete_cases {c c' : Counter} {start len : ℕ} {event : Option Event}
    (ok : c.complete start len = .ok (c', event)) :
    (0 < len ∧ 0 < start ∧ start + len < limit) ∧
      ((start + len ≤ c.applied + 1 ∧ c' = c ∧ event = none) ∨
        c.gaps.filter (Run.overlaps ⟨start, start + len⟩) = [] ∧
          ((start = c.applied + 1 ∧ event = some (c.advance (start + len - 1)).2 ∧
              c' = { (c.advance (start + len - 1)).1 with
                reserved := max c.reserved (start + len - 1) }) ∨
            c.applied + 1 < start ∧
              ∃ e, event = some e ∧ c.keepGap ⟨start, start + len⟩ = .ok (c', e))) := by
  simp only [complete] at ok
  split at ok
  · cases ok
  split at ok
  · cases ok
  split at ok
  · cases ok
  refine ⟨by omega, ?_⟩
  split at ok
  · cases ok
    exact Or.inl ⟨‹_›, rfl, rfl⟩
  split at ok
  · cases ok
  split at ok
  · cases ok
  rename_i overlapping
  refine Or.inr ⟨List.getLast?_eq_none_iff.mp overlapping, ?_⟩
  split at ok
  · cases ok
    exact Or.inl ⟨‹_›, rfl, rfl⟩
  · cases hk : c.keepGap ⟨start, start + len⟩ with
    | error fault =>
        rw [hk] at ok
        cases ok
    | ok result =>
        rw [hk] at ok
        cases ok
        exact Or.inr ⟨by omega, _, rfl, rfl⟩

theorem lt_of_complete {c c' : Counter} {start len : ℕ} {event : Option Event}
    (ok : c.complete start len = .ok (c', event)) : ∀ n ∈ Set.Ico start (start + len), n < limit :=
  fun _ hn => hn.2.trans (complete_cases ok).1.2.2

theorem complete_spec {c c' : Counter} {start len : ℕ} {event : Option Event} (h : c.Sound)
    (ok : c.complete start len = .ok (c', event)) :
    c'.Sound ∧ c'.completed = c.completed ∪ Set.Ico start (start + len) ∧
      c'.reserved = max c.reserved (start + len - 1) := by
  obtain ⟨bounds, ⟨known, rfl, -⟩ | ⟨-, ⟨next, -, rfl⟩ | ⟨later, e, -, hk⟩⟩⟩ := complete_cases ok
  · refine ⟨h, ?_, by have := h.applied_le; omega⟩
    symm
    apply Set.union_eq_self_of_subset_right
    intro n hn
    simp only [Set.mem_Ico] at hn
    exact mem_completed.mpr ⟨by omega, Or.inl (by omega)⟩
  · have hl : c.applied ≤ start + len - 1 := by omega
    refine ⟨advance_sound h (advance_applied_le h hl) (Nat.le_max_left _ _), ?_, rfl⟩
    change (c.advance (start + len - 1)).1.completed = _
    rw [advance_completed h.ordered hl]
    ext n
    simp only [Set.mem_union, mem_completed, Set.mem_Icc, Set.mem_Ico]
    by_cases hn : n ≤ c.applied
    · simp only [hn, true_or, and_true]
      omega
    · have : 1 ≤ n ∧ n ≤ start + len - 1 ↔ start ≤ n ∧ n < start + len := by omega
      rw [this]
  · exact keepGap_spec h (by dsimp only; omega) later hk

theorem next_spec {c : Counter} (h : c.Sound) {len : ℕ} (fits : c.reserved + len < limit) :
    (c.next len).2.1.Sound ∧
      ((∃ fault, (c.next len).1 = .error fault ∧ (c.next len).2.1.completed = c.completed) ∨
        (c.next len).1 = .ok (c.reserve len).1 ∧ (c.next len).2.1.completed =
          c.completed ∪ Set.Ico (c.reserve len).1 ((c.reserve len).1 + len)) := by
  obtain ⟨sound, same⟩ := reserve_spec h fits
  unfold next
  dsimp only
  cases hc : (c.reserve len).2.complete (c.reserve len).1 len with
  | error fault => exact ⟨sound, Or.inl ⟨fault, rfl, same⟩⟩
  | ok result =>
      obtain ⟨sound', completed, -⟩ := complete_spec sound hc
      exact ⟨sound', Or.inr ⟨rfl, by rw [completed, same]⟩⟩

/-- A number comes after the one to move to, or there is no gap to compare with it. -/
def HasNext (c : Counter) (value : ℕ) : Prop := value + 1 < limit ∨ value + 1 = limit ∧ c.gaps = []

instance (c : Counter) (value : ℕ) : Decidable (c.HasNext value) :=
  inferInstanceAs (Decidable (_ ∨ _))

theorem jump_eq_advance {c : Counter} {value : ℕ} (next : c.HasNext value) :
    c.jump value = c.advance value := by
  rcases next with small | ⟨-, none⟩
  · rw [jump, if_neg small.ne]
  · simp only [jump, advance, none, Runs.absorb, ite_self]

theorem moveTo_spec {c c' : Counter} {value : ℕ} {event : Option Event} (h : c.Sound)
    (next : c.HasNext value) (ok : c.moveTo value = .ok (c', event)) :
    c'.Sound ∧ c'.completed = c.completed ∪ Set.Icc 1 value := by
  simp only [moveTo, jump_eq_advance next] at ok
  split_ifs at ok with backwards here
  · simp only [Except.ok.injEq, Prod.mk.injEq] at ok
    obtain ⟨rfl, -⟩ := ok
    refine ⟨h, (Set.union_eq_self_of_subset_right ?_).symm⟩
    intro n hn
    simp only [Set.mem_Icc] at hn
    exact mem_completed.mpr ⟨by omega, Or.inl (by omega)⟩
  · simp only [Except.ok.injEq, Prod.mk.injEq] at ok
    obtain ⟨rfl, -⟩ := ok
    refine ⟨advance_sound h (Nat.le_max_right _ _) (Nat.le_max_left _ _), ?_⟩
    exact advance_completed h.ordered (Nat.le_of_not_lt backwards)

theorem finalize_spec {c : Counter} (h : c.Sound) :
    c.finalize.2.1.Sound ∧
      c.finalize.2.1.completed = {n | 1 ≤ n ∧ ∃ m ∈ c.completed, n ≤ m} := by
  have highest := Runs.highest_covers h.separated c.applied
  have top : Runs.highest c.applied c.gaps ≤ c.reserved := by
    by_cases hz : Runs.highest c.applied c.gaps = 0
    · omega
    · apply h.le_reserved
      apply mem_completed.mpr ⟨hz, ?_⟩
      exact highest.imp (fun e => e.le) id
  refine ⟨⟨by simp [finalize, Runs.Separated], by simp [finalize, Runs.Above], top,
    by simp [finalize]⟩, ?_⟩
  ext n
  simp only [finalize, mem_completed, Runs.contains_nil, Bool.false_eq_true, or_false,
    Set.mem_ofPred_eq]
  constructor
  · rintro ⟨hn, hle⟩
    refine ⟨Nat.pos_of_ne_zero hn, _, ⟨?_, highest.imp (fun e => e.le) id⟩, hle⟩
    omega
  · rintro ⟨hn, m, ⟨-, hm⟩, hle⟩
    exact ⟨by omega, hle.trans (Runs.le_highest h.separated h.above hm)⟩

/-- With no gaps there is nothing to give up. -/
theorem finalize_of_no_gaps {c : Counter} (h : c.gaps = []) : c.finalize = ([], c, none) := by
  cases c
  cases h
  rfl

/-- A snapshot that is taken over has no empty gap; its gaps, joined, are absorbed from its level. -/
theorem restore_cases {c c' : Counter} {s : Snapshot} (ok : c.restore s = .ok c') :
    (∀ r ∈ s.runs, r.start < r.stop) ∧ ∃ level gaps,
      (Runs.ofList s.runs).absorb s.applied.toNat = (level, gaps) ∧
        c' = { c with applied := level, gaps, reserved := gaps.highest level, initial := level } := by
  unfold restore at ok
  cases hv : s.validate with
  | error fault =>
      rw [hv] at ok
      cases ok
  | ok _ =>
      rw [hv] at ok
      cases ok
      refine ⟨?_, _, _, rfl, rfl⟩
      intro r hr
      obtain ⟨g, hg, rfl⟩ := List.mem_map.mp hr
      have := (Snapshot.validateGaps_mem hv g hg).1
      dsimp only
      omega

theorem restore_spec {c c' : Counter} {s : Snapshot} (ok : c.restore s = .ok c') :
    c'.Sound ∧ c'.completed = s.covered ∧ (c'.reserved = 0 ∨ c'.reserved ∈ c'.completed) := by
  obtain ⟨full, level, gaps, he, rfl⟩ := restore_cases ok
  have separated := Runs.separated_ofList full
  have left : gaps.Separated := by simpa only [he] using separated.absorb s.applied.toNat
  have above : gaps.Above level := by
    simpa only [he] using Runs.absorb_above separated s.applied.toNat
  have covers (n : ℕ) : n ≤ level ∨ gaps.contains n = true ↔
      n ≤ s.applied.toNat ∨ Runs.contains s.runs n = true := by
    simpa only [he, Runs.contains_ofList full] using Runs.absorb_covers separated s.applied.toNat n
  have highest := (Runs.highest_covers left level).imp_left Eq.le
  refine ⟨⟨left, above, Runs.le_highest left above (Or.inl le_rfl), ?_⟩, ?_, ?_⟩
  · intro r hr
    have last := left.1 r hr
    have : r.stop - 1 ≤ Runs.highest level gaps := by
      apply Runs.le_highest left above
      exact Or.inr (Runs.contains_iff.mpr ⟨r, hr, by omega, by omega⟩)
    dsimp only
    omega
  · ext n
    simp only [mem_completed, Snapshot.mem_covered, covers]
  · rw [mem_completed]
    exact or_iff_not_imp_left.mpr fun hz => ⟨hz, highest⟩

end Counter
end SegmentLog
