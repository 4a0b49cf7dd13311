import SegmentLog.Proofs.Counter.Reached

/-!
# Numbers are handed out once

Until it is restored or reset, a counter keeps above everything complete with what it hands out,
however the numbers came to be complete: by reports on blocks that nobody reserved, by a move, by
giving up what is missing, or with the snapshot that it started from. So whatever it hands out is
new, also where `next` fails after it. Main statement: `InUse.handed_once`.

That is so as long as the numbers handed out do not wrap. It says nothing of two uses of one
counter between which it is restored: a restore forgets what was handed out and not completed.
-/
namespace SegmentLog.Counter

/-- What is done with a counter that is neither restored nor reset. -/
inductive Use
  | reserve (len : ℕ)
  | complete (start len : ℕ)
  | next (len : ℕ)
  | isCompleted (n : ℕ)
  | finalize
  | moveTo (value : ℕ)
deriving DecidableEq, Repr

namespace Use

/-- The counter afterwards, and what the observer is told. -/
def perform (c : Counter) : Use → Counter × Option Event
  | reserve len => ((c.reserve len).2, none)
  | complete start len => (c.complete start len).toOption.getD (c, none)
  | next len => (c.next len).2
  | isCompleted _ => (c, none)
  | finalize => c.finalize.2
  | moveTo value => (c.moveTo value).toOption.getD (c, none)

/-- The call of the counter that it is, unless it is a mere question. -/
def call? : Use → Option Call
  | reserve len => some (.reserve len)
  | complete start len => some (.complete start len)
  | next len => some (.next len)
  | isCompleted _ => none
  | finalize => some .finalize
  | moveTo value => some (.moveTo value)

/-- What it does to the completed numbers. -/
def effect (c : Counter) (C : Set ℕ) (use : Use) : Set ℕ := use.call?.elim C (·.effect c C)

/-- The block that it hands out. If `next` fails, the block is lost. -/
def handed (c : Counter) : Use → Option Run
  | reserve len => some ⟨(c.reserve len).1, (c.reserve len).1 + len⟩
  | next len =>
    match (c.next len).1 with
    | .ok start => some ⟨start, start + len⟩
    | .error _ => some ⟨(c.reserve len).1, (c.reserve len).1 + len⟩
  | complete .. | isCompleted _ | finalize | moveTo _ => none

/-- What it hands out does not wrap. -/
def Fits (c : Counter) : Use → Prop
  | reserve len | next len => c.reserved + len < limit
  | complete .. | isCompleted _ | finalize | moveTo _ => True

instance (c : Counter) : (use : Use) → Decidable (use.Fits c)
  | reserve _ | next _ => inferInstanceAs (Decidable (_ < _))
  | complete .. | isCompleted _ | finalize | moveTo _ => inferInstanceAs (Decidable True)

/-- No number that it compares with is beyond the words. -/
def InWords (c : Counter) : Use → Prop
  | moveTo value => c.HasNext value
  | reserve _ | complete .. | next _ | isCompleted _ | finalize => True

instance (c : Counter) : (use : Use) → Decidable (use.InWords c)
  | moveTo value => inferInstanceAs (Decidable (c.HasNext value))
  | reserve _ | complete .. | next _ | isCompleted _ | finalize => inferInstanceAs (Decidable True)

variable {c : Counter} {C : Set ℕ} {use : Use}

theorem perform_of_call {call : Call} (h : use.call? = some call) :
    (use.perform c).1 = call.perform c := by
  cases use with
  | complete start len =>
      cases h
      simp only [perform, Call.perform]
      cases c.complete start len with
      | error fault => rfl
      | ok result => rfl
  | moveTo value =>
      cases h
      simp only [perform, Call.perform]
      cases c.moveTo value with
      | error fault => rfl
      | ok result => rfl
  | isCompleted n => cases h
  | reserve _ | next _ | finalize =>
      cases h
      rfl

/-- A question changes nothing and is not told. -/
theorem perform_of_question (h : use.call? = none) : use.perform c = (c, none) := by
  cases use with
  | isCompleted n => rfl
  | reserve _ | complete _ _ | next _ | finalize | moveTo _ => cases h

theorem Fits.unwrapped {call : Call} (fits : use.Fits c) (h : use.call? = some call) :
    c.Unwrapped call := by
  cases use with
  | isCompleted n => cases h
  | reserve _ | complete _ _ | next _ | finalize | moveTo _ =>
      cases h
      exact fits

theorem InWords.call {call : Call} (words : use.InWords c) (h : use.call? = some call) :
    call.InWords c := by
  cases use with
  | isCompleted n => cases h
  | reserve _ | complete _ _ | next _ | finalize | moveTo _ =>
      cases h
      exact words

theorem ordered_perform (h : c.Ordered) (words : use.InWords c) :
    (use.perform c).1.Ordered ∧ (use.perform c).1.completed = use.effect c c.completed := by
  unfold effect
  cases called : use.call? with
  | none =>
      rw [perform_of_question called]
      exact ⟨h, rfl⟩
  | some call =>
      rw [perform_of_call called]
      exact h.perform (words.call called)

theorem sound_perform (h : c.Sound) (words : use.InWords c) (fits : use.Fits c) :
    (use.perform c).1.Sound := by
  cases called : use.call? with
  | none =>
      rw [perform_of_question called]
      exact h
  | some call =>
      rw [perform_of_call called]
      exact h.perform (words.call called) (fits.unwrapped called)

theorem handed_next (c : Counter) (len : ℕ) : (next len).handed c = (reserve len).handed c := by
  simp only [handed, (c.next_eq len).1]
  cases (c.reserve len).2.complete (c.reserve len).1 len with
  | error fault => rfl
  | ok result => rfl

end Use

/-! ## What is handed out -/

variable {c : Counter} {C : Set ℕ} {blocks : List Run} {use : Use}

theorem reserved_reserve {len : ℕ} (fits : c.reserved + len < limit) :
    (c.reserve len).2.reserved = c.reserved + len :=
  Nat.mod_eq_of_lt fits

theorem reserved_le_complete (c : Counter) (start len : ℕ) :
    c.reserved ≤ (Call.perform c (.complete start len)).reserved := by
  simp only [Call.perform]
  cases ok : c.complete start len with
  | error fault => exact le_rfl
  | ok result =>
      obtain ⟨d, event⟩ := result
      obtain ⟨-, ⟨-, rfl, -⟩ | ⟨-, ⟨-, -, rfl⟩ | ⟨-, e, -, kept⟩⟩⟩ := complete_cases ok
      · exact le_rfl
      · exact Nat.le_max_left _ _
      · exact (Nat.le_max_left _ _).trans (reserved_of_keepGap kept).ge

/-- After `next` at least the numbers that it handed out count as handed out. -/
theorem reserved_le_next {len : ℕ} (fits : c.reserved + len < limit) :
    c.reserved + len ≤ (c.next len).2.1.reserved := by
  have kept := (c.reserve len).2.reserved_le_complete (c.reserve len).1 len
  rwa [reserved_reserve fits, ← (c.next_eq len).2] at kept

theorem reserved_jump (c : Counter) (level : ℕ) : (c.jump level).1.reserved = c.reserved := by
  unfold jump
  split
  · rfl
  · rfl

theorem le_applied_jump (c : Counter) (level : ℕ) : level ≤ (c.jump level).1.applied := by
  unfold jump
  split
  · exact le_rfl
  · exact Runs.le_absorb level c.gaps

theorem reserved_le_moveTo (c : Counter) (value : ℕ) :
    c.reserved ≤ (Call.perform c (.moveTo value)).reserved := by
  simp only [Call.perform, moveTo]
  split_ifs
  · exact le_rfl
  · exact le_rfl
  · exact (c.reserved_jump value).ge.trans (Nat.le_max_left _ _)

/-- What is handed out is never taken back. -/
theorem Use.reserved_le_perform (fits : use.Fits c) : c.reserved ≤ (use.perform c).1.reserved := by
  cases use with
  | reserve len =>
      have reserved := reserved_reserve fits
      exact reserved ▸ Nat.le_add_right _ _
  | complete start len =>
      rw [perform_of_call rfl]
      exact c.reserved_le_complete start len
  | next len => exact (Nat.le_add_right _ _).trans (reserved_le_next fits)
  | isCompleted n => exact le_rfl
  | finalize => exact le_rfl
  | moveTo value =>
      rw [perform_of_call rfl]
      exact c.reserved_le_moveTo value

/-- A counter that is moved to the last number of all has handed out every number. -/
theorem Use.spent (h : c.Sound) (beyond : ¬use.InWords c) :
    limit ≤ (use.perform c).1.reserved + 1 := by
  cases use with
  | moveTo value =>
      have large : limit ≤ value + 1 := Nat.le_of_not_lt fun small => beyond (Or.inl small)
      have applied := h.applied_le
      rw [perform_of_call rfl]
      simp only [Call.perform, Counter.moveTo]
      split_ifs
      · dsimp only [Except.toOption, Option.elim]
        omega
      · dsimp only [Except.toOption, Option.elim]
        omega
      · have reached := c.le_applied_jump value
        exact large.trans (Nat.succ_le_succ (reached.trans (Nat.le_max_right _ _)))
  | reserve _ | complete _ _ | next _ | isCompleted _ | finalize => exact absurd trivial beyond

/-- A block that is handed out is of the numbers after those handed out before, which are words and
count as handed out from then on. -/
theorem Use.handed_between (fits : use.Fits c) {b : Run} (hb : b ∈ use.handed c)
    {n : ℕ} (hn : n ∈ Set.Ico b.start b.stop) :
    c.reserved < n ∧ n < limit ∧ n ≤ (use.perform c).1.reserved := by
  cases use with
  | reserve len =>
      cases hb
      have within := (mem_reserve fits n).mp hn
      exact ⟨within.1, within.2.trans_lt fits, reserved_reserve fits ▸ within.2⟩
  | next len =>
      rw [handed_next] at hb
      cases hb
      have within := (mem_reserve fits n).mp hn
      exact ⟨within.1, within.2.trans_lt fits, within.2.trans (reserved_le_next fits)⟩
  | complete _ _ | isCompleted _ | finalize | moveTo _ => cases hb

/-! ## Counters in use -/

/-- A counter that is empty or has just taken over a snapshot, and what it has complete. -/
inductive Begun : Counter → Set ℕ → Prop
  | empty (config : Config) : Begun { config } ∅
  | restored {c c' : Counter} {s : Snapshot} (ok : c.restore s = .ok c') : Begun c' s.covered

/-- A counter in use since it began. It has handed out `blocks`, the latest first, and the numbers
in `C` are complete. -/
inductive InUse : Counter → Set ℕ → List Run → Prop
  | begun {c : Counter} {C : Set ℕ} (h : Begun c C) : InUse c C []
  | use {c : Counter} {C : Set ℕ} {blocks : List Run} (use : Use) (before : InUse c C blocks)
      (fits : use.Fits c) :
      InUse (use.perform c).1 (use.effect c C) ((use.handed c).toList ++ blocks)

theorem Begun.spec (h : Begun c C) : c.Sound ∧ c.completed = C := by
  cases h with
  | empty config =>
      refine ⟨sound_empty config, ?_⟩
      ext n
      simp [mem_completed]
  | restored ok =>
      have restored := restore_spec ok
      exact ⟨restored.1, restored.2.1⟩

/-- Everything handed out is at or below `reserved`, and so is everything complete, unless there is
nothing more to hand out. -/
theorem InUse.spec (h : InUse c C blocks) :
    (c.Sound ∧ c.completed = C ∨ limit ≤ c.reserved + 1) ∧
      ∀ b ∈ blocks, ∀ n ∈ Set.Ico b.start b.stop, n ≤ c.reserved := by
  induction h with
  | begun h => exact ⟨Or.inl h.spec, by simp⟩
  | @use c C blocks use before fits ih =>
      obtain ⟨state, below⟩ := ih
      have kept := Use.reserved_le_perform fits
      constructor
      · rcases state with ⟨sound, rfl⟩ | spent
        · by_cases words : use.InWords c
          · exact Or.inl ⟨Use.sound_perform sound words fits, (Use.ordered_perform sound.ordered words).2⟩
          · exact Or.inr (Use.spent sound words)
        · exact Or.inr (spent.trans (Nat.succ_le_succ kept))
      · intro b hb n hn
        rcases List.mem_append.mp hb with new | old
        · exact (Use.handed_between fits (Option.mem_toList.mp new) hn).2.2
        · exact (below b old n hn).trans kept

/-- What is handed out next lies above all that was handed out and all that is complete. -/
theorem InUse.above (h : InUse c C blocks) (fits : use.Fits c) {b : Run} (hb : b ∈ use.handed c)
    {n : ℕ} (hn : n ∈ Set.Ico b.start b.stop) :
    (∀ m ∈ C, m < n) ∧ ∀ b' ∈ blocks, ∀ m ∈ Set.Ico b'.start b'.stop, m < n := by
  obtain ⟨state, below⟩ := h.spec
  obtain ⟨above, word, -⟩ := Use.handed_between fits hb hn
  constructor
  · rcases state with ⟨sound, rfl⟩ | spent
    · intro m known
      exact (sound.le_reserved known).trans_lt above
    · omega
  · intro b' old m hm
    exact (below b' old m hm).trans_lt above

theorem InUse.disjoint (h : InUse c C blocks) :
    blocks.Pairwise fun b b' => Set.Ico b.start b.stop ∩ Set.Ico b'.start b'.stop = ∅ := by
  induction h with
  | begun h => exact List.Pairwise.nil
  | @use c C blocks use before fits ih =>
      cases handed : use.handed c with
      | none => exact ih
      | some b =>
          refine List.pairwise_cons.mpr ⟨fun b' old => ?_, ih⟩
          refine Set.eq_empty_of_forall_notMem fun n ⟨new, again⟩ => ?_
          have lt := (before.above fits handed new).2 b' old n again
          exact lt_irrefl n lt

/-- A counter in use hands out no number twice: the blocks have no number in common, and every
number of the next one, if it does not wrap, is above all that were handed out and all that are
complete. -/
theorem InUse.handed_once (h : InUse c C blocks) :
    (blocks.Pairwise fun b b' => Set.Ico b.start b.stop ∩ Set.Ico b'.start b'.stop = ∅) ∧
      ∀ use : Use, use.Fits c → ∀ b ∈ use.handed c, ∀ n ∈ Set.Ico b.start b.stop,
        (∀ m ∈ C, m < n) ∧ ∀ b' ∈ blocks, ∀ m ∈ Set.Ico b'.start b'.stop, m < n :=
  ⟨h.disjoint, fun _ fits _ hb _ hn => h.above fits hb hn⟩

/-- A snapshot is taken over; a block is reported that nobody reserved; 14 is reserved; 15 to 17 are
lost, since there would be too many gaps; what is missing is given up; and the counter is moved on.
Then 21 and 22 are handed out. -/
theorem handed_once_lost_block :
    ∃ c C, InUse c C [⟨15, 18⟩, ⟨14, 15⟩] ∧ 20 ∈ C ∧ (Use.reserve 2).handed c = some ⟨21, 23⟩ ∧
      (∀ m ∈ C, m < 21) ∧ Set.Ico 15 18 ∩ Set.Ico 14 15 = ∅ := by
  have begun : Begun _ (Snapshot.covered ⟨3, [⟨6, 2⟩]⟩) :=
    .restored (c := { config := { maxGaps := 2 } }) rfl
  have reported := (InUse.begun begun).use (.complete 12 2) trivial
  have reserved := reported.use (.reserve 1) (by decide)
  have lost := reserved.use (.next 3) (by decide)
  have moved := (lost.use .finalize trivial).use (.moveTo 20) trivial
  have once := moved.handed_once
  refine ⟨_, _, moved, ?_, rfl, ?_, ?_⟩
  · obtain ⟨-, known⟩ := moved.spec.1.resolve_right (by decide)
    rw [← known]
    exact mem_completed.mpr (by decide)
  · exact (once.2 (.reserve 2) (by decide) ⟨21, 23⟩ rfl 21 (by simp)).1
  · exact (List.pairwise_cons.mp once.1).1 ⟨14, 15⟩ (by decide)

end SegmentLog.Counter
