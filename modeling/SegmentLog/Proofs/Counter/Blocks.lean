import SegmentLog.Proofs.Counter.Canonical
import SegmentLog.Proofs.Counter.Snapshot

/-!
# Blocks that complete in any order

Callers of a counter reserve blocks of numbers and report each of them complete once, in whatever
order they get done. What the counter comes to depends on the blocks alone: main statement
`served_in_any_order`.

A counter does not refuse to hand out the last number of all, but it does refuse to have it
completed, since the number after it is not a word: `last_number_refused`.
-/
namespace SegmentLog.Counter

/-- What callers do. -/
inductive Turn
  | reserve (len : ℕ)
  | report (block : Run)
deriving DecidableEq, Repr

/-- A counter and its dealings with its callers, the latest first. -/
structure Desk where
  counter : Counter
  /-- The blocks handed out. -/
  handed : List Run := []
  /-- The blocks reported complete. -/
  reported : List Run := []
  /-- The answers to the reports: whether there was anything new in them. -/
  answers : List (Except CounterFault Bool) := []

namespace Desk

/-- A report that is refused leaves the counter as it was. -/
def take (d : Desk) : Turn → Desk
  | .reserve len =>
    let (start, counter) := d.counter.reserve len
    { d with counter, handed := ⟨start, start + len⟩ :: d.handed }
  | .report block =>
    let told := { d with reported := block :: d.reported }
    match d.counter.complete block.start block.len with
    | .ok (counter, event) => { told with counter, answers := .ok event.isSome :: d.answers }
    | .error fault => { told with answers := .error fault :: d.answers }

def takeAll : List Turn → Desk → Desk
  | [], d => d
  | turn :: turns, d => takeAll turns (d.take turn)

/-- What is handed out does not wrap; what is reported was handed out, is not empty, and is
reported for the first time. -/
def Allows (d : Desk) : Turn → Prop
  | .reserve len => d.counter.reserved + len < limit
  | .report block => block ∈ d.handed ∧ block.start < block.stop ∧ block ∉ d.reported

instance (d : Desk) : (turn : Turn) → Decidable (d.Allows turn)
  | .reserve _ => inferInstanceAs (Decidable (_ < _))
  | .report _ => inferInstanceAs (Decidable (_ ∧ _ ∧ _))

def AllowsAll : List Turn → Desk → Prop
  | [], _ => True
  | turn :: turns, d => d.Allows turn ∧ AllowsAll turns (d.take turn)

instance : (turns : List Turn) → (d : Desk) → Decidable (AllowsAll turns d)
  | [], _ => inferInstanceAs (Decidable True)
  | turn :: turns, d =>
    have := instDecidableAllowsAll turns (d.take turn)
    inferInstanceAs (Decidable (d.Allows turn ∧ AllowsAll turns (d.take turn)))

theorem takeAll_append (before after : List Turn) (d : Desk) :
    takeAll (before ++ after) d = takeAll after (takeAll before d) := by
  induction before generalizing d with
  | nil => rfl
  | cons turn before ih => exact ih (d.take turn)

theorem allowsAll_append {before after : List Turn} {d : Desk}
    (h : AllowsAll (before ++ after) d) : AllowsAll before d := by
  induction before generalizing d with
  | nil => trivial
  | cons turn before ih => exact ⟨h.1, ih h.2⟩

theorem reported_take_report (d : Desk) (block : Run) :
    (d.take (.report block)).reported = block :: d.reported := by
  simp only [take]
  split <;> rfl

theorem reported_length_le (turns : List Turn) (d : Desk) :
    d.reported.length ≤ (takeAll turns d).reported.length := by
  induction turns generalizing d with
  | nil => exact le_rfl
  | cons turn turns ih =>
      refine le_trans ?_ (ih (d.take turn))
      cases turn with
      | reserve len => exact le_rfl
      | report block =>
          rw [reported_take_report, List.length_cons]
          exact Nat.le_succ _

/-! ## What every turn preserves -/

/-- The blocks handed out are a partition of the numbers up to `reserved`; those reported are
what the counter has complete. -/
structure Kept (config : Config) (d : Desk) : Prop where
  sound : d.counter.Sound
  config : d.counter.config = config
  small : d.counter.reserved < limit
  handed : ∀ n, (1 ≤ n ∧ n ≤ d.counter.reserved) ↔ ∃ b ∈ d.handed, b.start ≤ n ∧ n < b.stop
  apart : ∀ b ∈ d.handed, ∀ b' ∈ d.handed, ∀ n,
    b.start ≤ n → n < b.stop → b'.start ≤ n → n < b'.stop → b = b'
  reported : ∀ b ∈ d.reported, b ∈ d.handed ∧ b.start < b.stop
  completed : ∀ n, n ∈ d.counter.completed ↔ ∃ b ∈ d.reported, b.start ≤ n ∧ n < b.stop
  answers : ∀ answer ∈ d.answers, answer = .ok true

variable {config : Config} {d : Desk}

theorem kept_empty (config : Config) : Kept config { counter := { config } } where
  sound := sound_empty config
  config := rfl
  small := show 0 < limit by decide
  handed n := by
    simp only [List.not_mem_nil, false_and, exists_false, iff_false]
    omega
  apart := by simp
  reported := by simp
  completed n := by simp [mem_completed]
  answers := by simp

theorem Kept.bounds (h : Kept config d) {b : Run} (hb : b ∈ d.handed) (full : b.start < b.stop) :
    1 ≤ b.start ∧ b.stop ≤ d.counter.reserved + 1 := by
  have first := (h.handed b.start).mpr ⟨b, hb, le_rfl, full⟩
  have last := (h.handed (b.stop - 1)).mpr ⟨b, hb, by omega, by omega⟩
  omega

/-- A block that was not reported has no number complete. -/
theorem Kept.fresh (h : Kept config d) {b : Run} (hb : b ∈ d.handed) (new : b ∉ d.reported) {n : ℕ}
    (le : b.start ≤ n) (lt : n < b.stop) : n ∉ d.counter.completed := by
  intro known
  obtain ⟨b', hb', le', lt'⟩ := (h.completed n).mp known
  have same : b = b' := h.apart b hb b' (h.reported b' hb').1 n le lt le' lt'
  exact new (same ▸ hb')

/-- A gap starts where some reported block starts. -/
theorem Kept.gapCount_le (h : Kept config d) : d.counter.gapCount ≤ d.reported.length := by
  have starts : ∀ r ∈ d.counter.gaps, r.start ∈ d.reported.map (·.start) := by
    intro r hr
    obtain ⟨b, hb, le, lt⟩ := (h.completed r.start).mp (h.sound.start_mem_completed hr)
    have bounds := h.bounds (h.reported b hb).1 (h.reported b hb).2
    apply List.mem_map.mpr
    refine ⟨b, hb, ?_⟩
    by_contra ne
    -- the number before the gap would be complete too
    apply (h.sound.gap_maximal hr).before (r.start - 1) (by omega)
    exact (h.completed _).mpr ⟨b, hb, by omega, by omega⟩
  rw [← List.length_map (·.start)]
  exact h.sound.gapCount_le_of_starts starts

theorem Kept.reserve (h : Kept config d) {len : ℕ} (fits : d.counter.reserved + len < limit) :
    Kept config (d.take (.reserve len)) := by
  obtain ⟨sound, completed⟩ := reserve_spec h.sound fits
  have reserved : (d.counter.reserve len).2.reserved = d.counter.reserved + len := by
    simp only [Counter.reserve, Nat.mod_eq_of_lt fits]
  have block (n : ℕ) : (d.counter.reserved + 1) % limit ≤ n ∧
      n < (d.counter.reserved + 1) % limit + len ↔
        d.counter.reserved < n ∧ n ≤ d.counter.reserved + len := mem_reserve fits n
  have old (b : Run) (hb : b ∈ d.handed) (n : ℕ) (le : b.start ≤ n) (lt : n < b.stop) :
      n ≤ d.counter.reserved := ((h.handed n).mpr ⟨b, hb, le, lt⟩).2
  constructor
  case sound => exact sound
  case config => exact h.config
  case small => exact reserved ▸ fits
  case handed =>
    intro n
    change (1 ≤ n ∧ n ≤ (d.counter.reserve len).2.reserved) ↔ ∃ b ∈ _ :: d.handed, _
    rw [reserved, List.exists_mem_cons_iff, ← h.handed, block]
    omega
  case apart =>
    intro b hb b' hb' n le lt le' lt'
    rcases List.mem_cons.mp hb with rfl | hb <;> rcases List.mem_cons.mp hb' with rfl | hb'
    · rfl
    · have := old b' hb' n le' lt'
      have := (block n).mp ⟨le, lt⟩
      omega
    · have := old b hb n le lt
      have := (block n).mp ⟨le', lt'⟩
      omega
    · exact h.apart b hb b' hb' n le lt le' lt'
  case reported =>
    intro b hb
    exact ⟨List.mem_cons_of_mem _ (h.reported b hb).1, (h.reported b hb).2⟩
  case completed =>
    intro n
    change n ∈ (d.counter.reserve len).2.completed ↔ _
    rw [completed]
    exact h.completed n
  case answers => exact h.answers

theorem Kept.report (h : Kept config d) {block : Run} (allowed : d.Allows (.report block))
    (short : block.stop < limit) (room : d.reported.length < config.maxGaps) :
    Kept config (d.take (.report block)) := by
  obtain ⟨hb, full, new⟩ := allowed
  have bounds := h.bounds hb full
  have stop : block.start + block.len = block.stop := by
    unfold Run.len
    omega
  have fresh : ∀ n, block.start ≤ n → n < block.start + block.len → n ∉ d.counter.completed :=
    fun n le lt => h.fresh hb new le (stop ▸ lt)
  have small : block.start + block.len < limit := stop ▸ short
  rcases h.sound.complete_of_fresh_block (by omega) (by unfold Run.len; omega) small fresh with
    ⟨c, event, ok⟩ | ⟨-, many⟩
  · obtain ⟨sound, completed, reserved⟩ := complete_spec h.sound ok
    rw [stop] at completed reserved
    have reserved : c.reserved = d.counter.reserved := by omega
    have taken : d.take (.report block) =
        ⟨c, d.handed, block :: d.reported, .ok true :: d.answers⟩ := by
      simp only [take, ok]
      rfl
    rw [taken]
    constructor
    case sound => exact sound
    case config => exact (config_of_complete ok).trans h.config
    case small => exact reserved ▸ h.small
    case handed => exact reserved ▸ h.handed
    case apart => exact h.apart
    case reported => exact List.forall_mem_cons.mpr ⟨⟨hb, full⟩, h.reported⟩
    case completed =>
      intro n
      rw [completed, Set.mem_union, h.completed, Set.mem_Ico, List.exists_mem_cons_iff]
      exact or_comm
    case answers => exact List.forall_mem_cons.mpr ⟨rfl, h.answers⟩
  · have := h.gapCount_le
    rw [h.config] at many
    omega

theorem Kept.takeAll {turns : List Turn} (h : Kept config d) (allowed : AllowsAll turns d)
    (short : ∀ block, .report block ∈ turns → block.stop < limit)
    (room : (takeAll turns d).reported.length ≤ config.maxGaps) :
    Kept config (takeAll turns d) := by
  induction turns generalizing d with
  | nil => exact h
  | cons turn turns ih =>
      refine ih ?_ allowed.2 (fun block later => short block (List.mem_cons_of_mem _ later)) room
      cases turn with
      | reserve len => exact h.reserve allowed.1
      | report block =>
          apply h.report allowed.1 (short block List.mem_cons_self)
          have := reported_length_le turns (d.take (.report block))
          rw [reported_take_report, List.length_cons] at this
          exact lt_of_lt_of_le this room

/-! ## What a run comes to -/

/-- Everything handed out is applied when everything handed out was reported. -/
theorem Kept.applied_eq_iff (h : Kept config d) :
    d.counter.applied = d.counter.reserved ↔
      ∀ b ∈ d.handed, b.start < b.stop → b ∈ d.reported := by
  constructor
  · intro all b hb full
    by_contra new
    have bounds := h.bounds hb full
    apply h.fresh hb new le_rfl full
    exact mem_completed.mpr ⟨by omega, Or.inl (by omega)⟩
  · intro all
    apply le_antisymm h.sound.applied_le
    apply h.sound.canonical.applied.2
    intro n hn
    obtain ⟨b, hb, le, lt⟩ := (h.handed n).mp hn
    exact (h.completed n).mpr ⟨b, all b hb (by omega), le, lt⟩

/-- The blocks handed out and reported determine the counter. -/
theorem Kept.unique {d' : Desk} (h : Kept config d) (h' : Kept config d')
    (handed : ∀ b, b ∈ d.handed ↔ b ∈ d'.handed)
    (reported : ∀ b, b ∈ d.reported ↔ b ∈ d'.reported) :
    d.counter.applied = d'.counter.applied ∧ d.counter.gaps = d'.counter.gaps ∧
      d.counter.reserved = d'.counter.reserved := by
  have completed : d.counter.completed = d'.counter.completed := by
    ext n
    simp only [h.completed, h'.completed, reported]
  have numbers : ∀ n, (1 ≤ n ∧ n ≤ d.counter.reserved) ↔ (1 ≤ n ∧ n ≤ d'.counter.reserved) := by
    intro n
    simp only [h.handed, h'.handed, handed]
  obtain ⟨applied, gaps⟩ := h.sound.canonical.unique (completed ▸ h'.sound.canonical)
  refine ⟨applied, gaps, ?_⟩
  have := numbers d.counter.reserved
  have := numbers d'.counter.reserved
  omega

end Desk

/-- Callers of a fresh counter take turns. -/
def deskAfter (config : Config) (turns : List Turn) : Desk :=
  Desk.takeAll turns { counter := { config } }

/-- Turns that may be taken, where as many gaps may wait as blocks are reported. -/
structure Turns (config : Config) (turns : List Turn) : Prop where
  allowed : Desk.AllowsAll turns { counter := { config } }
  room : (deskAfter config turns).reported.length ≤ config.maxGaps

theorem Turns.earlier {config : Config} {before turns : List Turn} (h : Turns config turns)
    (earlier : before <+: turns) : Turns config before := by
  obtain ⟨after, rfl⟩ := earlier
  refine ⟨Desk.allowsAll_append h.allowed, ?_⟩
  apply le_trans (Desk.reported_length_le after _)
  rw [deskAfter, ← Desk.takeAll_append]
  exact h.room

theorem Turns.kept {config : Config} {turns : List Turn} (h : Turns config turns)
    (short : ∀ block, .report block ∈ turns → block.stop < limit) :
    Desk.Kept config (deskAfter config turns) :=
  (Desk.kept_empty config).takeAll h.allowed short h.room

/-- Blocks may complete in any order: as long as none of them has the last number of all, every
report is taken, everything is applied just when everything was reported, and callers who are
handed the same blocks and report the same of them leave the same counter. -/
theorem served_in_any_order {config : Config} {turns turns' : List Turn}
    (h : Turns config turns) (short : ∀ block, .report block ∈ turns → block.stop < limit)
    (h' : Turns config turns') (short' : ∀ block, .report block ∈ turns' → block.stop < limit) :
    (∀ answer ∈ (deskAfter config turns).answers, answer = .ok true) ∧
      (∀ before, before <+: turns →
        let d := deskAfter config before
        d.counter.applied ≤ d.counter.reserved ∧
          (d.counter.applied = d.counter.reserved ↔
            ∀ block ∈ d.handed, block.start < block.stop → block ∈ d.reported)) ∧
      (let d := deskAfter config turns
       let d' := deskAfter config turns'
       (∀ block, block ∈ d.handed ↔ block ∈ d'.handed) →
        (∀ block, block ∈ d.reported ↔ block ∈ d'.reported) →
        d.counter.applied = d'.counter.applied ∧ d.counter.gaps = d'.counter.gaps ∧
          d.counter.reserved = d'.counter.reserved) := by
  refine ⟨(h.kept short).answers, ?_, (h.kept short).unique (h'.kept short')⟩
  intro before earlier
  have now := (h.earlier earlier).kept fun block hb => short block (earlier.subset hb)
  exact ⟨now.sound.applied_le, now.applied_eq_iff⟩

/-- The last block completes before the first, or the other way round, and the middle one is never
reported. -/
theorem served_in_any_order_apart :
    let config : Config := { maxGaps := 2 }
    let turns := [.reserve 2, .reserve 3, .reserve 1, .report ⟨6, 7⟩, .report ⟨1, 3⟩]
    let turns' := [.reserve 2, .report ⟨1, 3⟩, .reserve 3, .reserve 1, .report ⟨6, 7⟩]
    Turns config turns ∧ Turns config turns' ∧
      (deskAfter config turns).counter.gaps = (deskAfter config turns').counter.gaps ∧
      (deskAfter config turns).counter.gaps = [⟨6, 7⟩] := by
  intro config turns turns'
  have h : Turns config turns := ⟨by decide, by decide⟩
  have h' : Turns config turns' := ⟨by decide, by decide⟩
  have short : ∀ block, .report block ∈ turns → block.stop < limit := by
    simp [turns, limit, UInt64.size]
  have short' : ∀ block, .report block ∈ turns' → block.stop < limit := by
    simp [turns', limit, UInt64.size]
  have same := (served_in_any_order h short h' short').2.2 (fun _ => Iff.rfl)
    fun _ => (List.Perm.swap (⟨6, 7⟩ : Run) ⟨1, 3⟩ []).mem_iff
  exact ⟨h, h', same.2.1, rfl⟩

/-- One caller reserves every number there is and reports them all. -/
theorem last_number_refused :
    let turns := [.reserve (limit - 1), .report ⟨1, limit⟩]
    Turns {} turns ∧ (deskAfter {} turns).answers = [.error (.overflow 1 (limit - 1))] :=
  ⟨⟨by decide, by decide⟩, rfl⟩

end SegmentLog.Counter
