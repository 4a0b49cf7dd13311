import SegmentLog.Proofs.Recovery.Coherent

/-!
# Two recoveries in step

A recovery that starts from the snapshots another one has left goes on as that one would. The two
know the same partitions and their counters have one core, but what they take for the last persisted
state of a partition differs until the next checkpoint: one has the gaps of the state that was
persisted, the other those of the snapshot it was given. `State.InStep` says why that does not
matter. An update in a gap of the former was complete by then, so it is below `applied` or in a gap
of the latter.
-/
namespace SegmentLog

theorem Snapshot.inGap_eq (s : Snapshot) (n : UInt64) :
    s.inGap n = Runs.contains s.runs n.toNat := by
  have covers (g : Gap) : g.covers n =
      Run.contains ⟨g.start.toNat, g.start.toNat + g.len.toNat⟩ n.toNat := by
    rw [Bool.eq_iff_iff, Gap.covers_iff, Run.contains, decide_eq_true_eq]
  rw [Snapshot.inGap, Runs.contains, runs, List.any_map]
  exact List.any_congr rfl covers

namespace Recovery
open Counter
variable {config : Counter.Config} {c d : Counter}

namespace State
variable {st full resumed : State} {key : PartitionKey} {s : Snapshot} {number : UInt64}

/-! ## In step -/

/-- The last persisted state of the partition has the update in a gap. -/
def persistedGap (st : State) (key : PartitionKey) (number : UInt64) : Bool :=
  (st.persisted.get? key).any (·.inGap number)

/-- One recovery goes on, the other was given the snapshots that the first one has left. -/
structure InStep (config : Counter.Config) (full resumed : State) : Prop where
  counters : ∀ key,
    (resumed.counters.get? key).map Counter.core = (full.counters.get? key).map Counter.core
  persisted : ∀ key, resumed.persisted.get? key = full.persisted.get? key ∨
    ∀ n, n.toNat ≠ 0 → full.persistedGap key n = true → n.toNat + 1 < limit ∧
      (n.toNat ≤ (full.counter config key).applied ∨ resumed.persistedGap key n = true)

theorem InStep.core (h : InStep config full resumed) (key : PartitionKey) :
    (resumed.counter config key).core = (full.counter config key).core := by
  have same := h.counters key
  rw [counter, counter]
  cases found : full.counters.get? key with
  | none =>
      rw [found, Option.map_none, Option.map_eq_none_iff] at same
      rw [same]
  | some c =>
      rw [found, Option.map_some] at same
      obtain ⟨d, found', same⟩ := Option.map_eq_some_iff.mp same
      rw [found']
      exact same

/-- The counter of a partition is replaced in both, and its persisted state is, or else `applied` has
not gone down. -/
theorem InStep.insert {full' resumed' : State} (h : InStep config full resumed)
    (counters : full'.counters = full.counters.insert key c)
    (counters' : resumed'.counters = resumed.counters.insert key d) (same : d.core = c.core)
    (here : resumed'.persisted.get? key = full'.persisted.get? key ∨
      (full.counter config key).applied ≤ c.applied ∧
        full'.persisted.get? key = full.persisted.get? key ∧
        resumed'.persisted.get? key = resumed.persisted.get? key)
    (elsewhere : ∀ k, key ≠ k → full'.persisted.get? k = full.persisted.get? k ∧
      resumed'.persisted.get? k = resumed.persisted.get? k) :
    InStep config full' resumed' := by
  refine ⟨fun k => ?_, fun k => ?_⟩
  · rw [counters, counters', Table.get?_insert, Table.get?_insert]
    split
    · exact congrArg some same
    · exact h.counters k
  · rw [counter_of_insert counters]
    simp only [persistedGap]
    by_cases at_key : key = k
    · subst at_key
      rcases here with one | ⟨rises, kept, kept'⟩
      · exact .inl one
      rw [if_pos rfl, kept, kept']
      refine (h.persisted key).imp_right fun gaps n positive gap => ?_
      exact (gaps n positive gap).imp_right (.imp_left (·.trans rises))
    · obtain ⟨kept, kept'⟩ := elsewhere k at_key
      rw [if_neg at_key, kept, kept']
      exact h.persisted k

theorem InStep.restore {full' : State} (h : InStep config full resumed)
    (ok : full.restore config key s = .ok full') :
    ∃ resumed', resumed.restore config key s = .ok resumed' ∧ InStep config full' resumed' := by
  obtain ⟨c, restored, rfl⟩ := restore_eq_ok.mp ok
  have valid : s.validate = .ok () := valid_of_restore restored
  obtain ⟨d, restored'⟩ := restore_of_valid (resumed.counter config key) valid
  refine ⟨_, restore_eq_ok.mpr ⟨d, restored', rfl⟩, h.insert rfl rfl ?_ (.inl ?_) fun k other => ?_⟩
  · have same := h.core key
    simp only [Counter.core, Counter.mk.injEq] at same
    obtain ⟨-, level, gaps, absorbed, rfl⟩ := restore_cases restored
    obtain ⟨-, level', gaps', absorbed', rfl⟩ := restore_cases restored'
    cases absorbed.symm.trans absorbed'
    simp only [Counter.core, same.1]
  · rw [Table.get?_insert, if_pos rfl, Table.get?_insert, if_pos rfl]
  · rw [Table.get?_insert, if_neg other, Table.get?_insert, if_neg other]
    exact ⟨rfl, rfl⟩

theorem confirmsGap_eq (st : State) (config : Counter.Config) (key : PartitionKey)
    (number : UInt64) : st.confirmsGap config key number =
      (st.persistedGap key number && (st.counter config key).isCompleted number.toNat) := rfl

/-- What is complete in one is confirmed, or reported complete once more, in the other. -/
theorem InStep.complete_known (h : InStep config full resumed) {full' : State}
    (known : (full.counter config key).isCompleted number.toNat = true)
    (ok : full.complete config key number = .ok full') :
    full' = { full with counters := full.counters.insert key (full.counter config key) } ∧
      resumed.complete config key number = .ok
        { resumed with counters := resumed.counters.insert key (resumed.counter config key) } := by
  have cores := h.core key
  have fields : (resumed.counter config key).applied = (full.counter config key).applied ∧
      (resumed.counter config key).gaps = (full.counter config key).gaps := by
    simp only [Counter.core, Counter.mk.injEq] at cores
    exact ⟨cores.2.1, cores.2.2.1⟩
  have known' : (resumed.counter config key).isCompleted number.toNat = true := by
    rw [← known, isCompleted, isCompleted, fields.1, fields.2]
  obtain ⟨again, same⟩ := complete_of_known known
  obtain ⟨again', same'⟩ := complete_of_known known'
  obtain ⟨c, rfl, outcome⟩ := complete_eq_ok.mp ok
  rw [confirmsGap_eq, known, Bool.and_true] at outcome
  refine ⟨?_, complete_eq_ok.mpr ⟨_, rfl, ?_⟩⟩
  · split at outcome
    · rw [outcome]
    · obtain ⟨event, completed⟩ := outcome
      rw [same c event completed]
  rw [confirmsGap_eq, known', Bool.and_true]
  split
  · rfl
  rename_i unconfirmed
  by_cases confirmed : full.persistedGap key number = true
  · -- the state that was persisted has it in a gap, the snapshot has not: it is below `applied`
    rcases h.persisted key with one | gaps
    · rw [persistedGap, one] at unconfirmed
      exact absurd confirmed unconfirmed
    · obtain ⟨small, within⟩ := gaps number (mem_completed.mp known).1 confirmed
      exact ⟨none, again' (fields.1 ▸ within.resolve_right unconfirmed) small⟩
  · rw [if_neg confirmed] at outcome
    obtain ⟨event, completed⟩ := outcome
    obtain ⟨d, completed', -⟩ := coreAnswer_ok (complete_of_core cores number.toNat 1) completed
    cases same' d event completed'
    exact ⟨event, completed'⟩

theorem InStep.complete (h : InStep config full resumed) (coherent : full.Coherent config)
    {full' : State} (ok : full.complete config key number = .ok full') :
    ∃ resumed', resumed.complete config key number = .ok resumed' ∧
      InStep config full' resumed' := by
  have cores := h.core key
  cases known : (full.counter config key).isCompleted number.toNat with
  | true =>
      obtain ⟨rfl, completed⟩ := h.complete_known known ok
      exact ⟨_, completed, h.insert rfl rfl cores (.inr ⟨le_rfl, rfl, rfl⟩) fun _ _ => ⟨rfl, rfl⟩⟩
  | false =>
      have known' : (resumed.counter config key).isCompleted number.toNat = false := by
        simp only [Counter.core, Counter.mk.injEq] at cores
        rw [← known, isCompleted, isCompleted, cores.2.1, cores.2.2.1]
      obtain ⟨c, rfl, outcome⟩ := complete_eq_ok.mp ok
      rw [confirmsGap_eq, known, Bool.and_false, if_neg Bool.false_ne_true] at outcome
      obtain ⟨event, completed⟩ := outcome
      obtain ⟨d, completed', same⟩ :=
        coreAnswer_ok (complete_of_core cores number.toNat 1) completed
      obtain ⟨sound, more, -⟩ := Counter.complete_spec (coherent.regained key).sound completed
      have rises : (full.counter config key).applied ≤ c.applied := by
        refine sound.canonical.applied.2 (icc_subset_completed.trans ?_)
        rw [more]
        exact Set.subset_union_left
      refine ⟨_, complete_eq_ok.mpr ⟨d, rfl, ?_⟩,
        h.insert rfl rfl same (.inr ⟨rises, rfl, rfl⟩) fun _ _ => ⟨rfl, rfl⟩⟩
      rw [confirmsGap_eq, known', Bool.and_false, if_neg Bool.false_ne_true]
      exact ⟨event, completed'⟩

theorem InStep.restoreAll {es : List (PartitionKey × Snapshot)} (h : InStep config full resumed)
    {full' : State}
    (ok : es.foldlM (fun st e => State.restore config st e.1 e.2) full = .ok full') :
    ∃ resumed', es.foldlM (fun st e => State.restore config st e.1 e.2) resumed = .ok resumed' ∧
      InStep config full' resumed' := by
  induction es generalizing full resumed with
  | nil =>
      cases ok
      exact ⟨resumed, rfl, h⟩
  | cons e es ih =>
      rw [List.foldlM_cons] at ok
      obtain ⟨full₁, restored, rest⟩ := bind_eq_ok.mp ok
      obtain ⟨resumed₁, restored', h₁⟩ := h.restore restored
      obtain ⟨resumed', rest', h'⟩ := ih h₁ rest
      exact ⟨resumed', by rw [List.foldlM_cons, restored']; exact rest', h'⟩

theorem InStep.absorb {record : Record} {full' : State} {toStore : Bool}
    (h : InStep config full resumed) (coherent : full.Coherent config)
    (ok : full.absorb config record = .ok (full', toStore)) :
    ∃ resumed', resumed.absorb config record = .ok (resumed', toStore) ∧
      InStep config full' resumed' := by
  cases record with
  | data key number payload =>
      obtain ⟨full₁, completed, ⟨⟩⟩ := bind_eq_ok.mp ok
      obtain ⟨resumed', completed', h'⟩ := h.complete coherent completed
      exact ⟨resumed', bind_eq_ok.mpr ⟨resumed', completed', rfl⟩, h'⟩
  | checkpoint id partitions =>
      obtain ⟨full₁, restored, rfl, rfl⟩ := absorb_checkpoint_eq_ok.mp ok
      obtain ⟨resumed', restored', h'⟩ := h.restoreAll restored
      exact ⟨_, absorb_checkpoint_eq_ok.mpr ⟨resumed', restored', rfl, rfl⟩, h'.counters,
        h'.persisted⟩
  | header _ | pageInsert _ _ _ | pageUpdate _ | pageRemove _ _ _ =>
      cases ok
      exact ⟨resumed, rfl, h⟩

section
variable {read : Pointer → Except Error Record} {items : List (Pointer × Record)}
  {full' : State} {store store' : List (Pointer × Record)}

/-- A record that one recovery gets past, the other gets past, and it gives its page store what the
first one gives its own. -/
theorem InStep.step {item : Pointer × Record} (h : InStep config full resumed)
    (coherent : full.Coherent config)
    (ok : Recovery.step read config (.recording none) full item store = .ok full' store') :
    ∃ resumed' given, store' = store ++ given ∧ InStep config full' resumed' ∧
      ∀ held, Recovery.step read config (.recording none) resumed item held =
        .ok resumed' (held ++ given) := by
  rw [PageStore.recording_none] at ok ⊢
  obtain ⟨record, full₁, toStore, resolved, absorbed, rfl, rfl⟩ := step_eq_ok.mp ok
  have pointed : InStep config { full with lastPointer := some item.1 }
      { resumed with lastPointer := some item.1 } := ⟨h.counters, h.persisted⟩
  obtain ⟨resumed₁, absorbed', h'⟩ :=
    pointed.absorb ⟨coherent.sorted, coherent.regained, coherent.persisted⟩ absorbed
  cases toStore with
  | false =>
      refine ⟨resumed₁, [], (List.append_nil _).symm, h', fun held => step_eq_ok.mpr ?_⟩
      exact ⟨record, resumed₁, false, resolved, absorbed', rfl, List.append_nil held⟩
  | true =>
      refine ⟨{ resumed₁ with applied := resumed₁.applied + 1 }, [(item.1, record)], rfl,
        ⟨h'.counters, h'.persisted⟩, fun held => step_eq_ok.mpr ?_⟩
      exact ⟨record, resumed₁, true, resolved, absorbed', rfl, rfl⟩

theorem InStep.steps (h : InStep config full resumed) (coherent : full.Coherent config)
    (ok : items.foldlM (Recovery.step read config (.recording none)) full store =
      .ok full' store') :
    ∃ resumed' given, store' = store ++ given ∧ InStep config full' resumed' ∧
      ∀ held, items.foldlM (Recovery.step read config (.recording none)) resumed held =
        .ok resumed' (held ++ given) := by
  induction items generalizing full resumed store with
  | nil =>
      cases ok
      exact ⟨resumed, [], (List.append_nil _).symm, h, fun held => by rw [List.append_nil]; rfl⟩
  | cons item items ih =>
      rw [List.foldlM_cons] at ok
      obtain ⟨full₁, store₁, stepped, rest⟩ := run_bind_eq_ok.mp ok
      obtain ⟨resumed₁, given₁, rfl, h₁, stepped'⟩ := h.step coherent stepped
      rw [PageStore.recording_none] at stepped
      obtain ⟨resumed', given, rfl, h', rest'⟩ := ih h₁ (coherent.step stepped).1 rest
      refine ⟨resumed', given₁ ++ given, List.append_assoc .., h', fun held => ?_⟩
      rw [List.foldlM_cons, run_bind_of_ok (stepped' held), rest', List.append_assoc]

end

/-- Recoveries in step show the same of every partition. -/
theorem InStep.shown (h : InStep config full resumed) (coherent : full.Coherent config)
    (coherent' : resumed.Coherent config) (key : PartitionKey) :
    (resumed.counters.get? key).map (fun c => (c.snapshot, c.reserved)) =
      (full.counters.get? key).map fun c => (c.snapshot, c.reserved) := by
  have same := h.counters key
  cases found : full.counters.get? key with
  | none =>
      rw [found, Option.map_none, Option.map_eq_none_iff] at same
      rw [same]
  | some c =>
      rw [found, Option.map_some] at same
      obtain ⟨d, found', core⟩ := Option.map_eq_some_iff.mp same
      have regained := coherent.regained key
      have regained' := coherent'.regained key
      rw [counter, found] at regained
      rw [counter, found'] at regained'
      have reserved := Regained.reserved_of_core regained regained' core
      have snapshot : d.core.snapshot = c.core.snapshot := congrArg Counter.snapshot core
      rw [found', Option.map_some, Option.map_some]
      exact congrArg some (Prod.ext snapshot reserved)

/-! ## From snapshots -/

theorem get?_of_sorted_cons {e : PartitionKey × Counter} {es : Table PartitionKey Counter}
    (sorted : Table.Sorted (e :: es)) : es.get? e.1 = none := by
  refine Option.map_eq_none_iff.mpr (List.find?_eq_none.mpr fun e' he' => ?_)
  have below := (List.pairwise_cons.mp sorted).1 e' he'
  rw [decide_eq_true_eq]
  intro same
  rw [same, PartitionKey.lt_iff] at below
  simp at below

/-- Taking over the snapshots of recovered counters gives counters that have the same cores. -/
theorem exists_restoreAll {es : Table PartitionKey Counter} (sorted : es.Sorted)
    (regained : ∀ key c, es.get? key = some c → Regained config c) (st : State)
    (configured : ∀ key, (st.counter config key).config = config) :
    ∃ st', (es.map fun e => (e.1, e.2.snapshot)).foldlM
        (fun st e => State.restore config st e.1 e.2) st = .ok st' ∧
      (∀ key c, es.get? key = some c → st'.persisted.get? key = some c.snapshot ∧
        ∃ d, st'.counters.get? key = some d ∧ d.core = c.core) ∧
      ∀ key, es.get? key = none → st'.persisted.get? key = st.persisted.get? key ∧
        st'.counters.get? key = st.counters.get? key := by
  induction es generalizing st with
  | nil => exact ⟨st, rfl, nofun, fun _ _ => ⟨rfl, rfl⟩⟩
  | cons e es ih =>
      have fresh := get?_of_sorted_cons sorted
      have here := regained e.1 e.2 (by rw [Table.get?_cons, if_pos rfl])
      obtain ⟨d, restored, core, -⟩ := here.sound.ordered.restore_snapshot here.words
        ((configured e.1).trans here.config.symm)
      have config_d : d.config = config := (congrArg Counter.config core).trans here.config
      obtain ⟨st', rest, seeded, others⟩ := ih (List.pairwise_cons.mp sorted).2
        (fun key c found => regained key c (by
          rw [Table.get?_cons, if_neg, found]
          rintro rfl
          rw [fresh] at found
          cases found))
        { st with
          counters := st.counters.insert e.1 d, persisted := st.persisted.insert e.1 e.2.snapshot }
        (fun key => by
          rw [counter_of_insert rfl]
          split
          · exact config_d
          · exact configured key)
      refine ⟨st', ?_, fun key c found => ?_, fun key missing => ?_⟩
      · rw [List.map_cons, List.foldlM_cons, restore_eq_ok.mpr ⟨d, restored, rfl⟩]
        exact rest
      · rw [Table.get?_cons] at found
        split at found
        · rename_i same
          cases found
          obtain ⟨persisted, counters⟩ := others e.1 fresh
          rw [← same, persisted, counters, Table.get?_insert, if_pos rfl, Table.get?_insert,
            if_pos rfl]
          exact ⟨rfl, d, rfl, core⟩
        · exact seeded key c found
      · rw [Table.get?_cons] at missing
        split at missing
        · cases missing
        · rename_i other
          obtain ⟨persisted, counters⟩ := others key missing
          rw [persisted, counters, Table.get?_insert, if_neg other, Table.get?_insert,
            if_neg other]
          exact ⟨rfl, rfl⟩

/-- A recovery that starts from the snapshots of a state is in step with one that goes on, unless a
gap of a persisted state has the last number of all. -/
theorem Coherent.exists_inStep (h : st.Coherent config)
    (below : ∀ key s, st.persisted.get? key = some s →
      ∀ g ∈ s.gaps, g.start.toNat + g.len.toNat < limit) :
    ∃ resumed, (st.counters.map fun e => (e.1, e.2.snapshot)).foldlM
        (fun st e => State.restore config st e.1 e.2) {} = .ok resumed ∧
      InStep config st resumed := by
  have found_regained (key : PartitionKey) (c : Counter) (found : st.counters.get? key = some c) :
      Regained config c := by
    have := h.regained key
    rwa [counter, found] at this
  obtain ⟨resumed, restored, seeded, others⟩ :=
    exists_restoreAll h.sorted found_regained {} fun _ => rfl
  refine ⟨resumed, restored, fun key => ?_, fun key => .inr fun n positive gap => ?_⟩
  · cases found : st.counters.get? key with
    | none =>
        rw [(others key found).2]
        rfl
    | some c =>
        obtain ⟨-, d, found', core⟩ := seeded key c found
        rw [found', Option.map_some, Option.map_some, core]
  · obtain ⟨s, persisted, gap⟩ := (Option.any_eq_true _ _).mp gap
    have covered := h.persisted key s persisted
    rw [Snapshot.inGap_eq] at gap
    have known := covered (Snapshot.mem_covered.mpr ⟨positive, .inr gap⟩)
    obtain ⟨r, hr, -, lt⟩ := Runs.contains_iff.mp gap
    obtain ⟨g, hg, rfl⟩ := List.mem_map.mp hr
    refine ⟨Nat.lt_of_le_of_lt lt (below key s persisted g hg), ?_⟩
    refine (mem_completed.mp known).2.imp_right fun within => ?_
    cases found : st.counters.get? key with
    | none =>
        rw [counter, found] at within
        cases within
    | some c =>
        have regained := found_regained key c found
        rw [counter, found, Option.getD_some,
          ← regained.sound.ordered.snapshot_runs regained.words] at within
        rw [persistedGap, (seeded key c found).1, Option.any_some, Snapshot.inGap_eq]
        exact within

end State
end Recovery
end SegmentLog
