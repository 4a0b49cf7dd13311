import Mathlib.Data.List.Perm.Subperm
import SegmentLog.Proofs.Counter.Completed

/-!
# Counters that are kept and counters that go on

The snapshot of a counter whose numbers are words is valid and says what the counter has complete:
`snapshot_validate`, `snapshot_covered`. A number that a counter does not have complete can be
completed, unless it holds as many gaps as it may (`Sound.complete_of_fresh`); and it holds no more
of them than it has numbers complete (`Sound.gapCount_le`).
-/
namespace SegmentLog.Counter

/-! ## Snapshots -/

/-- A run of words as a gap. -/
def gapOf (r : Run) : Gap := ⟨.ofNat r.start, .ofNat r.len⟩

theorem toNat_ofNat {n : ℕ} (h : n < limit) : (UInt64.ofNat n).toNat = n :=
  UInt64.toNat_ofNat_of_lt' h

/-- A gap has the bounds of its run. -/
theorem gapOf_toNat {r : Run} (full : r.start < r.stop) (small : r.stop ≤ limit)
    (positive : 0 < r.start) : (gapOf r).start.toNat = r.start ∧
      (gapOf r).start.toNat + (gapOf r).len.toNat = r.stop := by
  have start : (gapOf r).start.toNat = r.start := toNat_ofNat (by omega)
  have len : (gapOf r).len.toNat = r.stop - r.start := toNat_ofNat (by unfold Run.len; omega)
  omega

theorem inOrder_of_separated {gaps : Runs} {level : ℕ} (separated : gaps.Separated)
    (above : ∀ r ∈ gaps, level < r.start) (small : ∀ r ∈ gaps, r.stop ≤ limit)
    (hl : level < limit) : Gap.InOrder (.ofNat level) (gaps.map gapOf) := by
  have bounds (r : Run) (hr : r ∈ gaps) :=
    gapOf_toNat (separated.1 r hr) (small r hr) (Nat.zero_lt_of_lt (above r hr))
  have numbers (r : Run) (hr : r ∈ gaps) : (gapOf r).numbers = Set.Ico r.start r.stop := by
    rw [Gap.numbers, (bounds r hr).2, (bounds r hr).1]
  constructor
  case full =>
    refine List.forall_mem_map.mpr fun r hr => ?_
    rw [numbers r hr]
    exact Set.nonempty_Ico.mpr (separated.1 r hr)
  case words =>
    refine List.forall_mem_map.mpr fun r hr n hn => ?_
    rw [numbers r hr] at hn
    exact hn.2.trans_le (small r hr)
  case above =>
    refine List.forall_mem_map.mpr fun r hr n hn => ?_
    rw [numbers r hr] at hn
    rw [toNat_ofNat hl]
    exact (above r hr).trans_le hn.1
  case ascending =>
    refine List.pairwise_map.mpr (separated.2.imp_of_mem fun {r s} hr hs lt => ?_)
    have := separated.1 r hr
    rw [UInt64.lt_iff_toNat_lt, (bounds r hr).1, (bounds s hs).1]
    omega
  case disjoint =>
    refine List.pairwise_map.mpr (separated.2.imp_of_mem fun {r s} hr hs lt => ?_)
    rw [numbers r hr, numbers s hs]
    refine Set.eq_empty_of_forall_notMem ?_
    rintro n ⟨hn, hn'⟩
    rw [Set.mem_Ico] at hn hn'
    omega

/-- `applied` and the numbers of the gaps are words. -/
structure InWords (c : Counter) : Prop where
  applied : c.applied < limit
  stop_le : ∀ r ∈ c.gaps, r.stop ≤ limit

theorem Sound.inWords {c : Counter} (h : c.Sound) (small : c.reserved + 1 < limit) :
    c.InWords := by
  refine ⟨h.applied_le.trans_lt (by omega), fun r hr => ?_⟩
  exact (h.stop_le r hr).trans small.le

theorem Ordered.snapshot_validate {c : Counter} (h : c.Ordered) (words : c.InWords) :
    c.snapshot.validate = .ok () := by
  refine Snapshot.validateGaps_eq_ok.mpr ?_
  refine inOrder_of_separated h.separated (fun r hr => ?_) words.stop_le words.applied
  have := h.above r hr
  omega

/-- The gaps of the snapshot are those of the counter. -/
theorem Ordered.snapshot_runs {c : Counter} (h : c.Ordered) (words : c.InWords) :
    c.snapshot.runs = c.gaps := by
  rw [Snapshot.runs, snapshot, List.map_map]
  conv_rhs => rw [← List.map_id c.gaps]
  refine List.map_congr_left fun r hr => ?_
  obtain ⟨start, stop⟩ := gapOf_toNat (h.separated.1 r hr) (words.stop_le r hr)
    (Nat.zero_lt_of_lt (h.above r hr))
  change Run.mk (gapOf r).start.toNat ((gapOf r).start.toNat + (gapOf r).len.toNat) = r
  rw [stop, start]

theorem Ordered.snapshot_covered {c : Counter} (h : c.Ordered) (words : c.InWords) :
    c.snapshot.covered = c.completed := by
  have applied : (UInt64.ofNat c.applied).toNat = c.applied := toNat_ofNat words.applied
  ext n
  rw [Snapshot.mem_covered, mem_completed, h.snapshot_runs words, snapshot, applied]

theorem Sound.snapshot_validate {c : Counter} (h : c.Sound) (small : c.reserved + 1 < limit) :
    c.snapshot.validate = .ok () :=
  h.ordered.snapshot_validate (h.inWords small)

theorem Sound.snapshot_covered {c : Counter} (h : c.Sound) (small : c.reserved + 1 < limit) :
    c.snapshot.covered = c.completed :=
  h.ordered.snapshot_covered (h.inWords small)

/-- Whoever has only words complete is in words. -/
theorem Ordered.inWords {c : Counter} (h : c.Ordered) (small : ∀ n ∈ c.completed, n < limit) :
    c.InWords := by
  constructor
  · by_cases hz : c.applied = 0
    · rw [hz]
      decide
    · exact small _ (mem_completed.mpr ⟨hz, Or.inl le_rfl⟩)
  · intro r hr
    have above := h.above r hr
    have full := h.separated.1 r hr
    have last : r.stop - 1 ∈ c.completed :=
      mem_completed.mpr ⟨by omega, Or.inr (Runs.contains_iff.mpr ⟨r, hr, by omega, by omega⟩)⟩
    have := small _ last
    omega

/-- What was taken over is in words. -/
theorem covered_lt_of_restore {c c' : Counter} {s : Snapshot} (ok : c.restore s = .ok c') :
    ∀ n ∈ s.covered, n < limit := by
  unfold restore at ok
  cases valid : s.validate with
  | error fault =>
      rw [valid] at ok
      cases ok
  | ok _ =>
      rintro n ⟨-, le | ⟨g, hg, -, lt⟩⟩
      · exact le.trans_lt s.applied.toNat_lt
      · exact lt.trans_le (Snapshot.validateGaps_mem valid g hg).2

theorem restore_of_valid (c : Counter) {s : Snapshot} (valid : s.validate = .ok ()) :
    ∃ c', c.restore s = .ok c' := by
  unfold restore
  rw [valid]
  exact ⟨_, rfl⟩

/-! ## Completing a number -/

theorem Ordered.mem_completed_of_gap {c : Counter} (h : c.Ordered) {r : Run} (hr : r ∈ c.gaps)
    {n : ℕ} (hn : n ∈ Set.Ico r.start r.stop) : n ∈ c.completed := by
  have above := h.above r hr
  rw [Set.mem_Ico] at hn
  exact mem_completed.mpr ⟨by omega, Or.inr (Runs.contains_iff.mpr ⟨r, hr, hn⟩)⟩

theorem Sound.start_mem_completed {c : Counter} (h : c.Sound) {r : Run} (hr : r ∈ c.gaps) :
    r.start ∈ c.completed :=
  h.ordered.mem_completed_of_gap hr ⟨le_rfl, h.separated.1 r hr⟩

/-- A block with no complete number can be completed as long as there may be another gap. -/
theorem Sound.complete_of_fresh_block {c : Counter} (h : c.Sound) {start len : ℕ}
    (positive : start ≠ 0) (full : len ≠ 0) (small : start + len < limit)
    (fresh : ∀ n, start ≤ n → n < start + len → n ∉ c.completed) :
    (∃ c' event, c.complete start len = .ok (c', some event)) ∨
      c.complete start len = .error (.tooManyGaps c.config.maxGaps start) ∧
        c.config.maxGaps ≤ c.gapCount := by
  have above : c.applied < start := by
    by_contra le
    exact fresh start le_rfl (by omega) (mem_completed.mpr ⟨positive, Or.inl (by omega)⟩)
  have apart : c.gaps.filter (Run.overlaps ⟨start, start + len⟩) = [] := by
    rw [List.filter_eq_nil_iff]
    intro r hr overlap
    simp only [Run.overlaps, decide_eq_true_eq] at overlap
    -- if the block starts below the gap, the gap's first number is in both
    by_cases le : r.start ≤ start
    · apply fresh start le_rfl (by omega)
      exact mem_completed.mpr ⟨positive, Or.inr (Runs.contains_iff.mpr ⟨r, hr, le, overlap.1⟩)⟩
    · exact fresh r.start (by omega) overlap.2 (h.start_mem_completed hr)
  simp only [complete, apart, List.getLast?_nil]
  rw [if_neg full, if_neg positive, if_neg (by omega), if_neg (by omega), if_neg (by omega)]
  by_cases next : start = c.applied + 1
  · rw [if_pos next]
    exact .inl ⟨_, _, rfl⟩
  · rw [if_neg next]
    unfold keepGap
    split
    · exact .inl ⟨_, _, rfl⟩
    · rename_i full
      exact .inr ⟨rfl, Nat.le_of_not_lt fun room => full (.inr room)⟩

/-- A number that is not complete can be completed as long as there may be another gap. -/
theorem Sound.complete_of_fresh {c : Counter} (h : c.Sound) {n : ℕ} (positive : n ≠ 0)
    (small : n + 1 < limit) (fresh : n ∉ c.completed) :
    (∃ c' event, c.complete n 1 = .ok (c', event)) ∨
      c.complete n 1 = .error (.tooManyGaps c.config.maxGaps n) ∧
        c.config.maxGaps ≤ c.gapCount := by
  have fresh_block : ∀ m, n ≤ m → m < n + 1 → m ∉ c.completed := by
    intro m le lt
    obtain rfl : m = n := by omega
    exact fresh
  refine (h.complete_of_fresh_block positive Nat.one_ne_zero small fresh_block).imp_left ?_
  rintro ⟨c', event, ok⟩
  exact ⟨c', some event, ok⟩

/-- A number that is complete can be reported complete again up to `applied`, and not above. -/
theorem complete_of_known {c : Counter} {n : ℕ} (known : c.isCompleted n = true) :
    (n ≤ c.applied → n + 1 < limit → c.complete n 1 = .ok (c, none)) ∧
      ∀ d event, c.complete n 1 = .ok (d, event) → d = c := by
  obtain ⟨positive, within⟩ := mem_completed.mp (show n ∈ c.completed from known)
  constructor
  · intro le small
    simp only [Counter.complete]
    rw [if_neg Nat.one_ne_zero, if_neg positive, if_neg (by omega), if_pos (by omega)]
  · intro d event ok
    obtain ⟨-, ⟨-, rfl, -⟩ | ⟨apart, above⟩⟩ := complete_cases ok
    · rfl
    -- above `applied` the number is in a gap, which the block would overlap
    have later : c.applied < n := by omega
    obtain ⟨r, hr, le, lt⟩ := Runs.contains_iff.mp (within.resolve_left (by omega))
    have overlaps : Run.overlaps ⟨n, n + 1⟩ r = true := by
      simp only [Run.overlaps, decide_eq_true_eq]
      omega
    exact absurd overlaps (List.filter_eq_nil_iff.mp apart r hr)

theorem config_of_complete {c c' : Counter} {start len : ℕ} {event : Option Event}
    (ok : c.complete start len = .ok (c', event)) : c'.config = c.config := by
  obtain ⟨-, ⟨-, rfl, -⟩ | ⟨-, ⟨-, -, rfl⟩ | ⟨-, e, -, kept⟩⟩⟩ := complete_cases ok
  · rfl
  · rfl
  · unfold keepGap at kept
    split at kept
    · cases kept
      rfl
    · cases kept

/-- No two gaps start at one number. -/
theorem Sound.gapCount_le_of_starts {c : Counter} (h : c.Sound) {numbers : List ℕ}
    (starts : ∀ r ∈ c.gaps, r.start ∈ numbers) : c.gapCount ≤ numbers.length := by
  have distinct : (c.gaps.map (·.start)).Nodup := by
    rw [List.nodup_iff_pairwise_ne, List.pairwise_map]
    refine h.separated.2.imp_of_mem fun {r s} hr hs lt => ?_
    have := h.separated.1 r hr
    omega
  have among : c.gaps.map (·.start) ⊆ numbers := by
    intro n hn
    obtain ⟨r, hr, rfl⟩ := List.mem_map.mp hn
    exact starts r hr
  have := (distinct.subperm among).length_le
  rwa [List.length_map] at this

/-- Every gap is of at least one number. -/
theorem Sound.gapCount_le {c : Counter} (h : c.Sound) {numbers : List ℕ}
    (known : ∀ n ∈ c.completed, n ∈ numbers) : c.gapCount ≤ numbers.length :=
  h.gapCount_le_of_starts fun _ hr => known _ (h.start_mem_completed hr)

end SegmentLog.Counter
