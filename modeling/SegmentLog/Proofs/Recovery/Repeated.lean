import SegmentLog.Proofs.Recovery.InStep

/-!
# Updates that are logged twice

A recovery that comes upon an update it has complete already confirms a gap of the last persisted
state, or else it fails, as long as a lower number is missing: main statement `run_repetitions`. Once
all lower numbers are complete it passes over the update, whose number is then covered like those of
a persisted state are. So a log can repeat an update unnoticed (`run_unnoticed`), but only after all
updates before it. Nothing is said of recoveries that take over a gap with the last number of all.
-/
namespace SegmentLog.Recovery

/-! ## The last persisted state -/

def Mention.state? : Mention → Option Snapshot
  | .state s => some s
  | .update _ => none

/-- The last state that is mentioned, if there is one. -/
def lastState (ms : List Mention) : Option Snapshot := (ms.filterMap Mention.state?).getLast?

theorem lastState_append (ms ms' : List Mention) :
    lastState (ms ++ ms') = (lastState ms').or (lastState ms) := by
  rw [lastState, List.filterMap_append, List.getLast?_append]
  rfl

theorem lastState_updates (numbers : List UInt64) : lastState (numbers.map .update) = none := by
  have none_there : (numbers.map Mention.update).filterMap Mention.state? = [] := by
    rw [List.filterMap_map]
    exact List.filterMap_eq_nil_iff.mpr fun _ _ => rfl
  rw [lastState, none_there]
  rfl

theorem Since.lastState {ms : List Mention} {s : Snapshot} {numbers : List UInt64}
    (h : Since ms s numbers) : s = (lastState ms).getD {} := by
  rcases h with ⟨rfl, rfl⟩ | ⟨before, rfl⟩
  · rw [lastState_updates]
    rfl
  · rw [List.append_cons, lastState_append, lastState_updates, lastState_append]
    rfl

namespace State
variable {config : Counter.Config} {st st' : State} {key k : PartitionKey} {s : Snapshot}

theorem persisted_restore (ok : st.restore config key s = .ok st') :
    st'.persisted.get? k =
      (lastState (if key = k then [.state s] else [])).or (st.persisted.get? k) := by
  obtain ⟨c, -, rfl⟩ := restore_eq_ok.mp ok
  rw [Table.get?_insert]
  split
  · rfl
  · rfl

theorem persisted_restoreAll {es : List (PartitionKey × Snapshot)}
    (ok : es.foldlM (fun st e => State.restore config st e.1 e.2) st = .ok st') :
    st'.persisted.get? k = (lastState (states k es)).or (st.persisted.get? k) := by
  induction es generalizing st with
  | nil =>
      cases ok
      rfl
  | cons e es ih =>
      rw [List.foldlM_cons] at ok
      obtain ⟨st₁, restored, rest⟩ := bind_eq_ok.mp ok
      rw [ih rest, persisted_restore restored, states_cons, lastState_append, Option.or_assoc]

theorem persisted_absorb {record : Record} {toStore : Bool}
    (ok : st.absorb config record = .ok (st', toStore)) :
    st'.persisted.get? k = (lastState (mentions k record)).or (st.persisted.get? k) := by
  cases record with
  | data key number payload =>
      obtain ⟨st₁, completed, ⟨⟩⟩ := bind_eq_ok.mp ok
      obtain ⟨c, rfl, -⟩ := complete_eq_ok.mp completed
      rw [mentions]
      split
      · rfl
      · rfl
  | checkpoint id partitions =>
      obtain ⟨st₁, restored, rfl, -⟩ := absorb_checkpoint_eq_ok.mp ok
      have kept := persisted_restoreAll (k := k) restored
      exact kept
  | header _ | pageInsert _ _ _ | pageUpdate _ | pageRemove _ _ _ =>
      cases ok
      rfl

section
variable {σ : Type} {receive : σ → Pointer × Record → σ} {held held' : σ}
  {read : Pointer → Except Error Record} {items : List (Pointer × Record)}

theorem persisted_step {item : Pointer × Record}
    (ok : Recovery.step read config (.accepting receive) st item held = .ok st' held') :
    st'.persisted.get? k = (lastState (mentions k item.2)).or (st.persisted.get? k) := by
  obtain ⟨record, st₁, toStore, resolved, absorbed, rfl, -⟩ := step_eq_ok.mp ok
  have kept := persisted_absorb (k := k) absorbed
  rw [(resolve_mentions resolved).2 k] at kept
  cases toStore with
  | true => exact kept
  | false => exact kept

/-- What is persisted of a partition is the last state that the records mention, or what was. -/
theorem persisted_steps
    (ok : items.foldlM (Recovery.step read config (.accepting receive)) st held = .ok st' held') :
    st'.persisted.get? k =
      (lastState (items.flatMap (mentions k ·.2))).or (st.persisted.get? k) := by
  induction items generalizing st held with
  | nil =>
      cases ok
      rfl
  | cons item items ih =>
      rw [List.foldlM_cons] at ok
      obtain ⟨st₁, held₁, stepped, rest⟩ := run_bind_eq_ok.mp ok
      rw [ih rest, persisted_step stepped, List.flatMap_cons, lastState_append, Option.or_assoc]

end

end State

section
variable {σ : Type} {d : Directory} {v : Volume} {plan : Plan} {store : PageStore σ}
  {held held' : σ} {before : List (Pointer × Record)} {item : Pointer × Record} {st : State}

/-- A recovery under way knows the last state that it was told of. -/
theorem Reaches.persisted (h : Reaches d v plan store held before item st held')
    (key : PartitionKey) :
    st.persisted.get? key = lastState (history plan.seeds before key) := by
  obtain ⟨seeded, s, after, seeding, opened, split, recovered⟩ := h
  obtain ⟨_, accepted⟩ := steps_of_any_store (fun (_ : Unit) _ => ()) recovered ()
  rw [State.persisted_steps accepted, State.persisted_restoreAll seeding, history,
    lastState_append]
  exact congrArg _ (Option.or_none)

end

/-! ## A number that is complete -/

section
variable {c : Counter} {n : ℕ}

theorem ico_subset_completed_iff (h : c.Sound) (mem : n ∈ c.completed) :
    Set.Ico 1 n ⊆ c.completed ↔ n ≤ c.applied := by
  have canonical := h.canonical
  refine ⟨fun lower => canonical.applied.2 fun m hm => ?_, fun le m hm => ?_⟩
  · rcases Nat.eq_or_lt_of_le hm.2 with rfl | lt
    · exact mem
    · exact lower ⟨hm.1, lt⟩
  · exact canonical.applied.1 ⟨hm.1, hm.2.le.trans le⟩

/-- A number above one that is missing is refused where it is complete, for the run that has it. -/
theorem complete_of_gap (h : c.Sound) (mem : n ∈ c.completed) (above : c.applied < n)
    (small : n + 1 < Counter.limit) :
    ∃ gap, Counter.MaximalRun c.completed gap ∧ n ∈ Set.Ico gap.start gap.stop ∧
      c.complete n 1 = .error (.overlaps n 1 gap.start gap.len) := by
  have inside := (Counter.mem_completed.mp mem).2.resolve_left (Nat.not_le.mpr above)
  obtain ⟨r, hr, le, lt⟩ := Runs.contains_iff.mp inside
  have some_gap : c.gaps.filter (Run.overlaps ⟨n, n + 1⟩) ≠ [] := by
    refine List.ne_nil_of_mem (List.mem_filter.mpr ⟨hr, ?_⟩)
    simp only [Run.overlaps, decide_eq_true_eq]
    omega
  obtain ⟨gap, last⟩ := Option.ne_none_iff_exists'.mp (mt List.getLast?_eq_none_iff.mp some_gap)
  obtain ⟨there, overlap⟩ := List.mem_filter.mp (List.mem_of_getLast? last)
  simp only [Run.overlaps, decide_eq_true_eq] at overlap
  refine ⟨gap, h.gap_maximal there, ⟨by omega, by omega⟩, ?_⟩
  unfold Counter.complete
  dsimp only
  rw [if_neg (by omega), if_neg (by omega), if_neg (by omega), if_neg (by omega),
    if_neg (by omega), last]

theorem complete_of_covered (positive : 1 ≤ n) (le : n ≤ c.applied)
    (small : n + 1 < Counter.limit) : c.complete n 1 = .ok (c, none) := by
  unfold Counter.complete
  dsimp only
  rw [if_neg (by omega), if_neg (by omega), if_neg (by omega), if_pos (by omega)]

/-- There is no number behind the last of all. -/
theorem complete_of_last (last : Counter.limit ≤ n + 1) : c.complete n 1 = .error (.overflow n 1) := by
  have some_number : 0 < n := by
    unfold Counter.limit UInt64.size at last
    omega
  unfold Counter.complete
  dsimp only
  rw [if_neg (by omega), if_neg (by omega), if_pos last]

end

namespace State
variable {config : Counter.Config} {st : State} {key : PartitionKey} {number : UInt64}

/-- Completing an update the counter has complete, without a change to it. -/
theorem complete_unchanged (known : (st.counter config key).isCompleted number.toNat = true)
    (passes : st.persistedGap key number = true ∨
      (st.counter config key).complete number.toNat 1 = .ok (st.counter config key, none)) :
    st.complete config key number =
      .ok { st with counters := st.counters.insert key (st.counter config key) } := by
  refine complete_eq_ok.mpr ⟨_, rfl, ?_⟩
  rw [confirmsGap_eq, known, Bool.and_true]
  split
  · rfl
  · rename_i unconfirmed
    exact ⟨none, passes.resolve_left unconfirmed⟩

theorem complete_error {fault : CounterFault} (unconfirmed : st.persistedGap key number = false)
    (refused : (st.counter config key).complete number.toNat 1 = .error fault) :
    st.complete config key number = .error (.counter fault) := by
  unfold complete
  dsimp only
  rw [confirmsGap_eq, unconfirmed, refused]
  rfl

end State

/-! ## Recoveries that come upon it -/

/-- What a recovery makes of an update whose number is one of the complete ones `C` already. The last
persisted state of its partition is `s`, and the run has got as far as the update. -/
structure Repeats {σ : Type} (d : Directory) (v : Volume) (plan : Plan) (store : PageStore σ)
    (start : σ) (item : Pointer × Record) (st : State) (held : σ) (s : Snapshot) (number : UInt64)
    (C : Set ℕ) : Prop where
  /-- A lower number is missing, so the number is in a gap of the counter. -/
  early : s.inGap number = false → number.toNat + 1 < Counter.limit →
    ¬Set.Ico 1 number.toNat ⊆ C →
    ∃ gap, Counter.MaximalRun C gap ∧ number.toNat ∈ Set.Ico gap.start gap.stop ∧
      run d v plan store start =
        .error (.counter (.overlaps number.toNat 1 gap.start gap.len)) held
  last : s.inGap number = false → Counter.limit ≤ number.toNat + 1 →
    run d v plan store start = .error (.counter (.overflow number.toNat 1)) held
  /-- It goes to the page store, and that is all. -/
  passes : s.inGap number = true ∨
      (number.toNat + 1 < Counter.limit ∧ Set.Ico 1 number.toNat ⊆ C) →
    ∃ st', (∀ key, st'.counter plan.config key = st.counter plan.config key) ∧
      step (d.readRecord v Session.defaultBufferSize) plan.config store st item held =
        (store item.1 item.2 >>= fun _ => pure st') held

section
variable {σ : Type} {d : Directory} {v : Volume} {plan : Plan} {store : PageStore σ}
  {start held : σ} {before after : List (Pointer × Record)} {p : Pointer} {key : PartitionKey}
  {number : UInt64} {payload : Bytes} {st : State}

theorem Reaches.persistedGap
    (h : Reaches d v plan store start before (p, .data key number payload) st held) {s : Snapshot}
    {numbers : List UInt64} (since : Since (history plan.seeds before key) s numbers) :
    st.persistedGap key number = s.inGap number := by
  rw [State.persistedGap, h.persisted, since.lastState]
  cases lastState (history plan.seeds before key) with
  | none => rfl
  | some s => rfl

/-- A recovery that comes upon an update which is complete already. -/
theorem Reaches.repeats
    (h : Reaches d v plan store start before (p, .data key number payload) st held) :
    ∃ s numbers, Since (history plan.seeds before key) s numbers ∧
      (∀ n, (st.counter plan.config key).isCompleted n = true ↔ n ∈ settled s numbers) ∧
      (number.toNat ∈ settled s numbers → Repeats d v plan store start
        (p, .data key number payload) st held s number (settled s numbers)) := by
  have reflects := h.tracks.counter plan.config key
  obtain ⟨s, numbers, since, same⟩ := reflects.stands
  refine ⟨s, numbers, since, ?_⟩
  rw [← same]
  refine ⟨fun _ => Iff.rfl, fun mem => ?_⟩
  have gap := h.persistedGap since
  have covered := ico_subset_completed_iff reflects.sound mem
  have refuses {fault : CounterFault} (unconfirmed : s.inGap number = false)
      (refused : (st.counter plan.config key).complete number.toNat 1 = .error fault) :
      run d v plan store start = .error (.counter fault) held := by
    refine h.run_error (step_of_refused rfl ?_ held)
    have failed : State.complete plan.config { st with lastPointer := some p } key number =
        .error (.counter fault) := State.complete_error (gap.trans unconfirmed) refused
    rw [State.absorb, failed]
    rfl
  refine ⟨fun unconfirmed small missing => ?_, fun unconfirmed last => ?_, fun passes => ?_⟩
  · obtain ⟨gap, maximal, inside, refused⟩ :=
      complete_of_gap reflects.sound mem (Nat.not_le.mp (mt covered.mpr missing)) small
    exact ⟨gap, maximal, inside, refuses unconfirmed refused⟩
  · exact refuses unconfirmed (complete_of_last last)
  · have unchanged : State.complete plan.config { st with lastPointer := some p } key number =
        .ok { st with
          lastPointer := some p
          counters := st.counters.insert key (st.counter plan.config key) } := by
      refine State.complete_unchanged mem (passes.imp gap.trans fun ⟨small, lower⟩ => ?_)
      exact complete_of_covered (reflects.sound.canonical.positive _ mem) (covered.mp lower) small
    have absorbed : State.absorb plan.config { st with lastPointer := some p }
        (.data key number payload) = .ok ({ st with
          lastPointer := some p
          counters := st.counters.insert key (st.counter plan.config key) }, true) :=
      bind_eq_ok.mpr ⟨_, unchanged, rfl⟩
    refine ⟨_, fun k => ?_, step_of_stored rfl absorbed held⟩
    rw [State.counter_of_insert rfl]
    split
    · rename_i same
      rw [same]
    · rfl

/-- Where neither seeds nor checkpoints tell of a partition, a recovery that succeeds has come upon
all lower numbers before it comes upon one for the second time. -/
theorem lower_of_repeated {st' : State} {held' : σ} {session : Session} {q : Pointer}
    {payload' : Bytes} (ok : run d v plan store start = .ok st' held')
    (opened : Session.openRange d v Session.defaultBufferSize plan.start none = .ok session)
    (split : (session.drain v).items = before ++ (p, .data key number payload) :: after)
    (unstated : ∀ s, .state s ∉ history plan.seeds before key)
    (twice : (q, .data key number payload') ∈ before) {n : ℕ} (lower : n ∈ Set.Ico 1 number.toNat) :
    ∃ q word payload', (q, .data key word payload') ∈ before ∧ word.toNat = n := by
  obtain ⟨st, held, -, -, reached, -⟩ := reaches_of_run ok opened split
  obtain ⟨s, numbers, since, -, repeats⟩ := reached.repeats
  rcases since with ⟨rfl, all⟩ | ⟨earlier, all⟩
  · have logged (word : UInt64) : word ∈ numbers ↔
        ∃ p payload, (p, .data key word payload) ∈ before := by
      have mentioned : .update word ∈ history plan.seeds before key ↔ _ := update_mem_history
      rw [← mentioned, all]
      simp
    have again := repeats (.inr ⟨number, (logged number).mpr ⟨q, payload', twice⟩, rfl⟩)
    have small : number.toNat + 1 < Counter.limit := by
      by_contra large
      cases ok.symm.trans (again.last rfl (Nat.not_lt.mp large))
    have complete : Set.Ico 1 number.toNat ⊆ settled {} numbers := by
      by_contra missing
      obtain ⟨gap, -, -, refused⟩ := again.early rfl small missing
      cases ok.symm.trans refused
    obtain covered | ⟨word, mem, rfl⟩ := complete lower
    · obtain ⟨positive, below | gap⟩ := Snapshot.mem_covered.mp covered
      · exact absurd (Nat.le_zero.mp below) positive
      · cases gap
    · obtain ⟨q, payload, logged⟩ := (logged word).mp mem
      exact ⟨q, word, payload, logged, rfl⟩
  · refine absurd ?_ (unstated s)
    rw [all]
    exact List.mem_append_right _ List.mem_cons_self

end

/-- Recoveries of any log, with any page store and any seeds, as long as no gap that is taken over has
the last number of all. -/
theorem run_repetitions {σ : Type} (d : Directory) (v : Volume) (plan : Plan) (store : PageStore σ)
    (start : σ) :
    (∀ before p key number payload st held,
      (∀ k s, .state s ∈ history plan.seeds before k → s.Bounded) →
      Reaches d v plan store start before (p, .data key number payload) st held →
      ∃ s numbers, Since (history plan.seeds before key) s numbers ∧
        (∀ n, (st.counter plan.config key).isCompleted n = true ↔ n ∈ settled s numbers) ∧
        (number.toNat ∈ settled s numbers → Repeats d v plan store start
          (p, .data key number payload) st held s number (settled s numbers))) ∧
    ∀ st held, run d v plan store start = .ok st held → plan.seeds = [] →
      ∃ session, Session.openRange d v Session.defaultBufferSize plan.start none = .ok session ∧
        ((∀ p id partitions, (p, .checkpoint id partitions) ∉ (session.drain v).items) →
          ∀ before p key number payload after,
            (session.drain v).items = before ++ (p, .data key number payload) :: after →
            (∃ q payload', (q, .data key number payload') ∈ before) →
            ∀ n ∈ Set.Ico 1 number.toNat, ∃ q word payload',
              (q, .data key word payload') ∈ before ∧ word.toNat = n) := by
  refine ⟨fun before p key number payload st held _ reached => reached.repeats, ?_⟩
  intro st held ok unseeded
  obtain ⟨-, session, -, opened, -⟩ := run_eq_ok.mp ok
  refine ⟨session, opened, fun unmarked before p key number payload after split twice n lower => ?_⟩
  obtain ⟨q, payload', twice⟩ := twice
  refine lower_of_repeated ok opened split (fun s stated => ?_) twice lower
  rcases state_mem_history.mp stated with seed | ⟨p', id, partitions, logged, -⟩
  · rw [unseeded] at seed
    cases seed
  · exact unmarked p' id partitions (split ▸ List.mem_append_left _ logged)

/-- A log with updates of one partition. -/
def logging (numbers : List UInt64) : Volume :=
  (Client.run (.openLog {} :: numbers.map fun n => .append (.data ⟨⟨1⟩, ⟨0⟩⟩ n []))
    (Client.inMemory, [])).1.volume

theorem run_repetitions_logged :
    (∃ gap : Run, 3 ∈ Set.Ico gap.start gap.stop ∧
      run { place := .memory } (logging [3, 3]) {} (.recording none) [] =
        .error (.counter (.overlaps 3 1 gap.start gap.len))
          [(⟨0, 15, 27⟩, .data ⟨⟨1⟩, ⟨0⟩⟩ 3 [])]) ∧
    ∀ n ∈ Set.Ico 1 2, ∃ q word payload, (q, .data ⟨⟨1⟩, ⟨0⟩⟩ word payload) ∈
      [(⟨0, 15, 27⟩, Record.data ⟨⟨1⟩, ⟨0⟩⟩ 2 []), ((⟨0, 42, 27⟩ : Pointer), .data ⟨⟨1⟩, ⟨0⟩⟩ 1 [])] ∧
      word.toNat = n := by
  constructor
  · have yields : (Session.openRange { place := .memory } (logging [3, 3])
        Session.defaultBufferSize none none).map (fun s => (s.drain (logging [3, 3])).items) =
        .ok [(⟨0, 15, 27⟩, .data ⟨⟨1⟩, ⟨0⟩⟩ 3 []), (⟨0, 42, 27⟩, .data ⟨⟨1⟩, ⟨0⟩⟩ 3 [])] := by
      decide +kernel
    obtain ⟨s, opened, found⟩ := map_eq_ok.mp yields
    have reached : Reaches { place := .memory } (logging [3, 3]) {} (.recording none) []
        [(⟨0, 15, 27⟩, .data ⟨⟨1⟩, ⟨0⟩⟩ 3 [])] (⟨0, 42, 27⟩, .data ⟨⟨1⟩, ⟨0⟩⟩ 3 [])
        { counters := [(⟨⟨1⟩, ⟨0⟩⟩, { gaps := [⟨3, 4⟩], reserved := 3 })]
          lastPointer := some ⟨0, 15, 27⟩, applied := 1 }
        [(⟨0, 15, 27⟩, .data ⟨⟨1⟩, ⟨0⟩⟩ 3 [])] :=
      ⟨{}, s, [], rfl, opened, found, outcome_eq_some.mp (by decide +kernel)⟩
    obtain ⟨s, numbers, since, complete, repeats⟩ := (run_repetitions { place := .memory }
      (logging [3, 3]) {} (.recording none) []).1 _ _ _ _ _ _ _ (fun k s stated => by
        rcases state_mem_history.mp stated with seed | ⟨p, id, partitions, logged, -⟩
        · cases seed
        · simp at logged) reached
    have unstated : s = {} := since.lastState
    obtain ⟨gap, -, inside, refused⟩ := (repeats ((complete 3).mp (by decide))).early
      (by rw [unstated]; rfl) (by decide) fun lower => by
        have := (complete 1).mpr (lower ⟨Nat.le_refl _, by decide⟩)
        cases this
    exact ⟨gap, inside, refused⟩
  · have yields : (Session.openRange { place := .memory } (logging [2, 1, 2])
        Session.defaultBufferSize none none).map (fun s => (s.drain (logging [2, 1, 2])).items) =
        .ok [(⟨0, 15, 27⟩, .data ⟨⟨1⟩, ⟨0⟩⟩ 2 []), (⟨0, 42, 27⟩, .data ⟨⟨1⟩, ⟨0⟩⟩ 1 []),
          (⟨0, 69, 27⟩, .data ⟨⟨1⟩, ⟨0⟩⟩ 2 [])] := by
      decide +kernel
    obtain ⟨s', opened', found⟩ := map_eq_ok.mp yields
    have succeeds : (outcome (run { place := .memory } (logging [2, 1, 2]) {} (.recording none))
        []).isSome = true := by
      decide +kernel
    obtain ⟨⟨st, held⟩, ok⟩ := Option.isSome_iff_exists.mp succeeds
    obtain ⟨s, opened, noticed⟩ := (run_repetitions { place := .memory } (logging [2, 1, 2]) {}
      (.recording none) []).2 st held (outcome_eq_some.mp ok) rfl
    cases opened'.symm.trans opened
    rw [found] at noticed
    exact noticed (by simp) [(⟨0, 15, 27⟩, .data ⟨⟨1⟩, ⟨0⟩⟩ 2 []),
      (⟨0, 42, 27⟩, .data ⟨⟨1⟩, ⟨0⟩⟩ 1 [])] ⟨0, 69, 27⟩ ⟨⟨1⟩, ⟨0⟩⟩ 2 [] [] rfl
      ⟨⟨0, 15, 27⟩, [], by simp⟩

/-- An update that is logged twice in a row is recovered twice if it is the first. -/
theorem run_unnoticed :
    ((outcome (run { place := .memory } (logging [1, 1]) {} (.recording none)) []).map (·.2)) =
      some [(⟨0, 15, 27⟩, .data ⟨⟨1⟩, ⟨0⟩⟩ 1 []), (⟨0, 42, 27⟩, .data ⟨⟨1⟩, ⟨0⟩⟩ 1 [])] := by
  decide +kernel

end SegmentLog.Recovery
