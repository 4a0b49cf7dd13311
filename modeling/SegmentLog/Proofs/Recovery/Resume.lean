import SegmentLog.Pointer.External
import SegmentLog.Proofs.Client.Growth
import SegmentLog.Proofs.Recovery.InStep
import SegmentLog.Proofs.Session.Restart

/-!
# Recoveries that are resumed

A recovery can be resumed once its log has grown: what it left, and what another one finds that
starts behind it from its counters, is what a recovery of the whole log finds: main statement
`run_resumed`. Two things can stand in the way, and do (`not_resumable`). A recovery that starts
amid a record can take what is reserved behind the head of an open log for part of a record, and
that is overwritten when the log goes on. And an update of the last number of all can only confirm a
gap that has it: a snapshot that was taken when the gap was closed leaves nothing to confirm.
-/
namespace SegmentLog.Recovery

/-- Go on behind what a recovery has read, from the counters that it left. -/
def Plan.after (plan : Plan) (st : State) : Except ArgumentFault Plan := do
  let start ← match st.lastPointer with
    | some p => some <$> p.next
    | none => pure plan.start
  return { plan with start, seeds := st.counters.map fun e => (e.1, e.2.snapshot) }

variable {σ : Type} {store : PageStore σ} {held held' held'' : σ} {d : Directory} {v v' : Volume}
  {plan : Plan} {st st' st'' : State} {image image' : List (ℕ × Bytes)}
  {read read' : Pointer → Except Error Record} {items : List (Pointer × Record)}
  {config : Counter.Config}

/-- What a recovery does is a matter of what its directory shows. -/
theorem run_iff_of_shows (shows : d.Shows v image) :
    run d v plan store held = .ok st held' ↔ ∃ seeded items ending,
      State.ofSeeds plan = .ok seeded ∧ Session.Replayed image plan.start items ending ∧
      (∀ e, ending ≠ .failed e) ∧
      items.foldlM (step (d.readRecord v Session.defaultBufferSize) plan.config store) seeded held =
        .ok st held' := by
  rw [run_eq_ok]
  constructor
  · rintro ⟨seeded, s, seeding, opened, sane, recovered⟩
    obtain ⟨items, ending, replayed⟩ := Session.replayed_of_openRange shows opened
    obtain ⟨s', opened', found, finished⟩ := (Session.openRange_iff shows).mpr replayed
    cases opened.symm.trans opened'
    rw [found] at recovered
    rw [finished] at sane
    exact ⟨seeded, items, ending, seeding, replayed, fun e failed => sane e (congrArg some failed),
      recovered⟩
  · rintro ⟨seeded, items, ending, seeding, replayed, sane, recovered⟩
    obtain ⟨s, opened, found, finished⟩ := (Session.openRange_iff shows).mpr replayed
    refine ⟨seeded, s, seeding, opened, fun e failed => ?_, found ▸ recovered⟩
    exact sane e (Option.some.inj (finished.symm.trans failed))

/-! ## Records that are read twice -/

theorem resolve_unique (agree : ∀ p r r', read p = .ok r → read' p = .ok r' → r' = r)
    {record found found' : Record} (ok : record.resolve read = .ok found)
    (ok' : record.resolve read' = .ok found') : found' = found := by
  rcases Record.resolve_eq_ok.mp ok with
    ⟨unneeded, rfl⟩ | ⟨u, p, payload, key, number, rfl, needed, reference, there, -, rfl⟩
  · exact Except.ok.inj (ok'.symm.trans (Record.resolve_of_unneeded read' unneeded))
  · rcases Record.resolve_eq_ok.mp ok' with
      ⟨unneeded, -⟩ | ⟨_, p', payload', key', number', ⟨⟩, -, reference', there', -, rfl⟩
    · exact absurd needed (Bool.not_eq_true _ ▸ unneeded)
    · cases reference.symm.trans reference'
      cases agree p _ _ there there'
      rfl

theorem step_unique (agree : ∀ p r r', read p = .ok r → read' p = .ok r' → r' = r)
    {item : Pointer × Record} (ok : step read config store st item held = .ok st' held')
    (ok' : step read' config store st item held = .ok st'' held'') :
    st'' = st' ∧ held'' = held' := by
  obtain ⟨record, _, resolving, afterwards⟩ := run_bind_eq_ok.mp ok
  obtain ⟨resolved, rfl⟩ := ofExcept_eq_ok.mp resolving
  obtain ⟨record', _, resolving', afterwards'⟩ := run_bind_eq_ok.mp ok'
  obtain ⟨resolved', rfl⟩ := ofExcept_eq_ok.mp resolving'
  cases resolve_unique agree resolved resolved'
  cases afterwards.symm.trans afterwards'
  exact ⟨rfl, rfl⟩

theorem steps_unique (agree : ∀ p r r', read p = .ok r → read' p = .ok r' → r' = r)
    (ok : items.foldlM (step read config store) st held = .ok st' held')
    (ok' : items.foldlM (step read' config store) st held = .ok st'' held'') :
    st'' = st' ∧ held'' = held' := by
  induction items generalizing st held with
  | nil =>
      cases ok
      cases ok'
      exact ⟨rfl, rfl⟩
  | cons item items ih =>
      rw [List.foldlM_cons] at ok ok'
      obtain ⟨st₁, held₁, stepped, rest⟩ := run_bind_eq_ok.mp ok
      obtain ⟨st₂, held₂, stepped', rest'⟩ := run_bind_eq_ok.mp ok'
      obtain ⟨rfl, rfl⟩ := step_unique agree stepped stepped'
      exact ih rest rest'

/-! ## Going on -/

/-- What is left of a log behind what a recovery has read is what its plan to go on finds. -/
theorem Plan.exists_after {later : List (Pointer × Record)} {ending : Ending}
    (pointer : st.lastPointer = items.getLast?.map (·.1))
    (replayed : Session.Replayed image plan.start (items ++ later) ending) :
    ∃ start, plan.after st = .ok
        { plan with start, seeds := st.counters.map fun e => (e.1, e.2.snapshot) } ∧
      Session.Replayed image start later ending := by
  rcases List.eq_nil_or_concat items with rfl | ⟨before, ⟨p, record⟩, rfl⟩
  · refine ⟨plan.start, ?_, replayed⟩
    rw [after, pointer]
    rfl
  · rw [List.concat_eq_append, List.getLast?_concat] at pointer
    rw [List.concat_eq_append, List.append_assoc] at replayed
    obtain ⟨-, q, next, behind⟩ := replayed.split rfl
    refine ⟨some q, ?_, behind⟩
    rw [after, pointer]
    dsimp only [Option.map_some]
    rw [next]
    rfl

/-- If a recovery has succeeded on one volume, and one succeeds on another where the log has been
extended, then so does one that goes on there: it gives the page store what is still missing, and
shows the same of every partition. -/
def Plan.Resumable (plan : Plan) (d : Directory) (v v' : Volume) : Prop :=
  ∀ st first st' full, run d v plan (.recording none) [] = .ok st first →
    run d v' plan (.recording none) [] = .ok st' full →
    ∃ next st'' rest, plan.after st = .ok next ∧
      run d v' next (.recording none) [] = .ok st'' rest ∧ full = first ++ rest ∧
      ∀ key, (st''.counters.get? key).map (fun c => (c.snapshot, c.reserved)) =
        (st'.counters.get? key).map fun c => (c.snapshot, c.reserved)

/-- A recovery of grown segments goes through what one of the earlier segments left, and what is
left of it is what a recovery finds that starts there from the counters. -/
theorem resumable_of_grown (shows : d.Shows v image) (shows' : d.Shows v' image')
    (grown : Segment.Grown image image')
    (below : ∀ st first, run d v plan (.recording none) [] = .ok st first →
      ∀ key s, st.persisted.get? key = some s →
        ∀ g ∈ s.gaps, g.start.toNat + g.len.toNat < Counter.limit) :
    plan.Resumable d v v' := by
  intro st first st' full ran ran'
  obtain ⟨seeded, items, ending, seeded_ok, replayed, sane, recovered⟩ := (run_iff_of_shows shows).mp ran
  obtain ⟨seeded', items', ending', seeded_ok', replayed', sane', recovered'⟩ :=
    (run_iff_of_shows shows').mp ran'
  cases seeded_ok.symm.trans seeded_ok'
  obtain ⟨later, rfl⟩ :=
    replayed.isPrefix sane replayed' sane' grown shows.distinct shows'.distinct
  rw [List.foldlM_append] at recovered'
  obtain ⟨st₁, first₁, again, recovered'⟩ := run_bind_eq_ok.mp recovered'
  obtain ⟨rfl, rfl⟩ := steps_unique
    (fun p r r' ok ok' => shows.readRecord_unique shows' grown ok ok') recovered again
  obtain ⟨coherent, pointer⟩ := (State.coherent_empty plan.config).restoreAll seeded_ok
  rw [PageStore.recording_none] at again
  obtain ⟨coherent, pointer'⟩ := coherent.steps again
  rw [pointer, Option.or_none] at pointer'
  obtain ⟨start, planned, replayed''⟩ := Plan.exists_after pointer' replayed'
  obtain ⟨resumed, resumed_ok, inStep⟩ := coherent.exists_inStep (below _ _ ran)
  obtain ⟨st'', rest, rfl, inStep', recovered''⟩ := inStep.steps coherent recovered'
  refine ⟨_, st'', rest, planned, (run_iff_of_shows shows').mpr
    ⟨resumed, later, ending', resumed_ok, replayed'', sane', recovered'' []⟩, rfl,
    inStep'.shown ?_ ?_⟩
  · rw [PageStore.recording_none] at recovered'
    exact (coherent.steps recovered').1
  · have := recovered'' []
    rw [PageStore.recording_none] at this
    exact (((State.coherent_empty plan.config).restoreAll resumed_ok).1.steps this).1

/-- Whatever segments a log is opened on and wherever a recovery starts, it can be resumed after
the client has been told to do more, unless what is reserved behind the head of the log has a part in
it, or the last persisted state of a partition has a gap up to the last number of all. -/
theorem run_resumed {place : Place} {removed : ℕ} {ids : List ContentId} {c₀ : Client}
    (sits : c₀.place = some place) (fused : c₀.fused = none) (unopened : c₀.log = none)
    (keeps : place.Keeps c₀.volume removed ids) {before after : List Client.Action}
    (calm : .simulate ∉ before ++ after)
    (room : Place.Room (ids.length + (before ++ after).length)) (plan : Plan) :
    let c := (Client.run before (c₀, [])).1
    let c' := (Client.run after (c, [])).1
    run { place } c.unpadded plan (.recording none) [] =
        run { place } c.volume plan (.recording none) [] →
      (∀ st first, run { place } c.volume plan (.recording none) [] = .ok st first →
        ∀ key s, st.persisted.get? key = some s →
          ∀ g ∈ s.gaps, g.start.toNat + g.len.toNat < Counter.limit) →
      plan.Resumable { place } c.volume c'.volume := by
  intro c c' unreserved below
  rw [List.mem_append, not_or] at calm
  rw [List.length_append] at room
  obtain ⟨ids₁, grows⟩ := Client.Sited.run ⟨sits, fused, keeps, by simp [unopened]⟩
    (room.mono (by omega)) calm.1 []
  have few := grows.few
  obtain ⟨ids₂, grows'⟩ := grows.sited.run (room.mono (by omega)) calm.2 []
  have resumable : plan.Resumable { place } c.unpadded c'.volume :=
    resumable_of_grown grows.sited.keeps_unpadded.shows grows'.sited.keeps.shows
      (grows'.grown.trans grows'.sited.grown_volume) (by rwa [unreserved])
  intro st first st' full ran
  exact resumable st first st' full (unreserved.trans ran)

/-- A log with a checkpoint that has a gap and an update in it, in a segment that is filled up
beforehand. -/
def suspended : Client := (Client.run [
  .openLog { segmentSize := 200, preallocate := true },
  .append (.checkpoint 7 [⟨⟨⟨1⟩, ⟨0⟩⟩, ⟨2, [⟨5, 3⟩]⟩⟩]),
  .append (.data ⟨⟨1⟩, ⟨0⟩⟩ 6 [8])] (Client.inMemory, [])).1

/-- The log with the updates that are missing, another one in the gap, and a checkpoint. -/
def proceeded : Client := (Client.run [
  .openLog {}, .append (.data ⟨⟨1⟩, ⟨0⟩⟩ 3 []), .append (.data ⟨⟨1⟩, ⟨0⟩⟩ 7 []), .rotate,
  .append (.checkpoint 8 [⟨⟨⟨1⟩, ⟨0⟩⟩, ⟨3, [⟨5, 3⟩]⟩⟩]), .append (.data ⟨⟨1⟩, ⟨0⟩⟩ 4 []),
  .append (.pageRemove ⟨1⟩ ⟨2⟩ 0)] (suspended, [])).1

theorem run_resumed_suspended : ∃ st first st' full next st'' rest,
    run { place := .memory } suspended.volume {} (.recording none) [] = .ok st first ∧
    run { place := .memory } proceeded.volume {} (.recording none) [] = .ok st' full ∧
    Plan.after {} st = .ok next ∧
    run { place := .memory } proceeded.volume next (.recording none) [] = .ok st'' rest ∧
    full = first ++ rest ∧
    ∀ key, (st''.counters.get? key).map (fun c => (c.snapshot, c.reserved)) =
      (st'.counters.get? key).map fun c => (c.snapshot, c.reserved) := by
  have now : (outcome (run { place := .memory } suspended.volume {} (.recording none)) []).any
      (fun o => outcome (run { place := .memory } suspended.unpadded {} (.recording none)) [] =
        some o ∧ ∀ e ∈ o.1.persisted, ∀ g ∈ e.2.gaps,
          g.start.toNat + g.len.toNat < Counter.limit) = true := by decide +kernel
  have later : (outcome (run { place := .memory } proceeded.volume {} (.recording none))
      []).isSome = true := by decide +kernel
  obtain ⟨⟨st, first⟩, ran, now⟩ := (Option.any_eq_true _ _).mp now
  obtain ⟨unreserved, below⟩ := of_decide_eq_true now
  obtain ⟨⟨st', full⟩, ran'⟩ := Option.isSome_iff_exists.mp later
  rw [outcome_eq_some] at ran unreserved ran'
  have keeps : Place.memory.Keeps Client.inMemory.volume 0 [] :=
    ⟨Place.stocks_memory rfl, List.nodup_nil, by simp, .inl rfl⟩
  have resumable : Plan.Resumable {} { place := .memory } suspended.volume proceeded.volume := by
    refine run_resumed rfl rfl rfl keeps (by decide) (by decide) {} (unreserved.trans ran.symm) ?_
    intro st first again key s persisted
    cases again.symm.trans ran
    obtain ⟨e, found, rfl⟩ := Option.map_eq_some_iff.mp persisted
    exact below e (List.mem_of_find?_eq_some found)
  obtain ⟨next, st'', rest, resumed⟩ := resumable _ _ _ _ ran ran'
  exact ⟨_, _, _, _, next, st'', rest, ran, ran', resumed⟩

/-- The page store receives what is still missing, unless one of the other recoveries fails. -/
def Plan.resumes (plan : Plan) (d : Directory) (v v' : Volume) : Bool :=
  match run d v plan (.recording none) [], run d v' plan (.recording none) [] with
  | .ok st first, .ok _ full =>
    match plan.after st with
    | .ok next =>
      match run d v' next (.recording none) [] with
      | .ok _ rest => full = first ++ rest
      | .error _ _ => false
    | .error _ => false
  | _, _ => true

theorem Plan.Resumable.resumes (h : plan.Resumable d v v') : plan.resumes d v v' = true := by
  unfold Plan.resumes
  split
  · rename_i st first st' full ran ran'
    obtain ⟨next, st'', rest, planned, again, same, -⟩ := h st first st' full ran ran'
    rw [planned]
    dsimp only
    rw [again]
    exact decide_eq_true same
  · rfl

/-- The payload of the update looks like the front of a record, which the reserved zeros complete
until the log goes on. In the other log the update that is missing comes below a gap that has the
last number of all, and the update of that number comes once more. -/
theorem not_resumable :
    (let c := (Client.run [.openLog { segmentSize := 200, preallocate := true, version := 1 },
        .append (.data ⟨⟨1⟩, ⟨0⟩⟩ 1 [5, 14, 0, 0, 0])] (Client.inMemory, [])).1
      let c' := (Client.run [.append (.pageRemove ⟨1⟩ ⟨2⟩ 7)] (c, [])).1
      ¬Plan.Resumable { start := some ⟨0, 38, 0⟩ } { place := .memory } c.volume c'.volume) ∧
    let c := (Client.run [.openLog {}, .append (.data ⟨⟨1⟩, ⟨0⟩⟩ 18446744073709551614 [])]
      (Client.inMemory, [])).1
    let c' := (Client.run [.append (.data ⟨⟨1⟩, ⟨0⟩⟩ 18446744073709551615 [])] (c, [])).1
    let seed : Snapshot := ⟨18446744073709551613, [⟨18446744073709551615, 1⟩]⟩
    ¬Plan.Resumable { seeds := [(⟨⟨1⟩, ⟨0⟩⟩, seed)] } { place := .memory } c.volume c'.volume :=
  ⟨fun h => absurd h.resumes (by decide +kernel), fun h => absurd h.resumes (by decide +kernel)⟩

end SegmentLog.Recovery
