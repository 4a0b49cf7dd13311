import SegmentLog.Proofs.Client.Run

/-!
# What was appended is read back

Main statement: `run_roundTrip`. A client in memory opens logs, appends to them, flushes, rotates
and closes them, in any order and with any configurations. At any moment reading the log gives
exactly what was appended, in order, and every pointer that was handed out still leads to its
record.
-/
namespace SegmentLog.Client

/-- The log of a client gives back what was appended, and goes on. -/
structure RoundTrip (c : Client) (appended : List (Pointer × Record)) : Prop where
  /-- Reading everything, through the log if there is one or past it. -/
  replays : ∀ direct, (direct = true ∨ c.log.isSome) →
    ∃ r c', readAll direct none none c = .ok r c' ∧ r.items = appended ∧ r.ending = some .finish
  /-- Reading one record through the log. -/
  reads : ∀ log ∈ c.log, ∀ p record, (p, record) ∈ appended →
    log.readRecord c.volume p = .ok record
  /-- Reading one record past the log, whatever is fetched at a time. -/
  fetches : ∀ bufferSize p record, (p, record) ∈ appended →
    Directory.readRecord { place := .memory } c.volume bufferSize p = .ok record
  /-- A record that can be pointed at can be appended, as long as there is an index for another
  segment. -/
  appends : ∀ log ∈ c.log, ∀ record frame, record.WellFormed →
    Frame.encode log.format record = .ok frame →
    Header.size + frame.length ≤ Pointer.maxOffset → ¬c.volume.Full →
    ∃ p c', onLog (Log.append record) c = .ok p c'
  /-- So long a log can be opened again. -/
  opens : ∀ config : Log.Config, config.Accepted → ¬c.volume.Full →
    ∃ segment c', openLog config c = .ok segment c'

theorem readAll_direct {c : Client} {d : Directory} {s : Session}
    (hd : getDirectory c = .ok d c)
    (opened : Session.openRange d c.volume Session.defaultBufferSize none none = .ok s) :
    readAll true none none c = .ok (s.drain c.volume) c := by
  have session : openSession true none none c = .ok s c := by
    unfold openSession
    rw [if_pos rfl, run_bind_of_ok hd,
      run_bind_of_ok (show getVolume c = .ok c.volume c from rfl), opened]
    rfl
  unfold readAll
  rw [run_bind_of_ok session]
  rfl

theorem replayRange_of_ok {v : Volume} {log : Log} {s : Session}
    (opened : Session.openRange log.directory v log.config.bufferSize none none = .ok s) :
    ∃ log', Log.replayRange none none (v, log) = .ok s (v, log') := by
  let counted : Log := { log with ledger := log.ledger.count .sessionOpened }
  have session : LogM.read (fun v log =>
      Session.openRange log.directory v log.config.bufferSize none none) (v, counted) =
        .ok s (v, counted) := by
    unfold LogM.read
    rw [run_get_bind]
    dsimp only
    rw [opened]
    rfl
  unfold Log.replayRange
  rw [run_bind_of_ok (show LogM.enter (·.count .sessionOpened) (v, log) = .ok () (v, counted)
    from rfl), run_bind_of_ok session]
  exact ⟨_, rfl⟩

theorem readAll_log {c : Client} {log : Log} {s : Session} (hl : c.log = some log)
    (opened : Session.openRange log.directory c.volume log.config.bufferSize none none = .ok s) :
    ∃ c', readAll false none none c = .ok (s.drain c.volume) c' := by
  obtain ⟨log', replayed⟩ := replayRange_of_ok opened
  unfold readAll
  rw [run_bind_of_ok (show openSession false none none c = _ from onLog_of_ok hl replayed)]
  exact ⟨_, rfl⟩

/-- Without a fuse every record that was written was also acknowledged. -/
theorem Inv.acknowledged {c : Client} {history : List Attempt} (h : Inv c history)
    (none_fused : c.fused = none) :
    history.filterMap Attempt.acknowledged = history.filterMap Attempt.entry := by
  apply List.filterMap_congr
  intro a ha
  cases hp : a.answer with
  | ok p =>
      simp only [Attempt.acknowledged, Attempt.entry, hp, h.written a ha p hp, Option.map_some]
  | error refusal =>
      have unacknowledged : a.acknowledged = none := by simp only [Attempt.acknowledged, hp]
      rw [unacknowledged]
      by_contra gained
      have := (h.stopped a ha ⟨Option.isSome_iff_ne_none.mpr (Ne.symm gained), unacknowledged⟩).fused
      rw [none_fused] at this
      cases this

theorem Inv.roundTrip {c : Client} {history : List Attempt} (h : Inv c history)
    (none_fused : c.fused = none) : RoundTrip c (history.filterMap Attempt.acknowledged) := by
  rw [h.acknowledged none_fused]
  have none_fuse : c.directory.fuse = none := by
    rw [directory, none_fused]
    rfl
  have whole : ∀ {d : Directory}, d.place = .memory → ∀ bufferSize,
      ∃ s, Session.openRange d c.volume bufferSize none none = .ok s ∧
        (s.drain c.volume).items = history.filterMap Attempt.entry ∧
        (s.drain c.volume).ending = some .finish := by
    intro d place bufferSize
    obtain ⟨s, opened, items, ending⟩ := h.shows.drain place bufferSize
    refine ⟨s, opened, items, ending.resolve_right ?_⟩
    intro torn
    rw [none_fused] at torn
    exact Bool.false_ne_true torn.1
  refine ⟨?_, ?_, fun bufferSize p record mem => h.shows.readRecord rfl mem bufferSize, ?_,
    fun config accepted => (h.openLog (Or.inl none_fused)).2 none_fused accepted⟩
  · intro direct way
    cases direct with
    | true =>
        obtain ⟨s, opened, items, ending⟩ :=
          whole (d := c.directory) rfl Session.defaultBufferSize
        exact ⟨_, _, readAll_direct h.getDirectory opened, items, ending⟩
    | false =>
        obtain ⟨log, hl⟩ := Option.isSome_iff_exists.mp (way.resolve_left Bool.false_ne_true)
        have place : log.directory.place = .memory := by rw [(h.log log hl).2, directory]
        obtain ⟨s, opened, items, ending⟩ := whole place log.config.bufferSize
        obtain ⟨c', read⟩ := readAll_log hl opened
        exact ⟨_, c', read, items, ending⟩
  · intro log hl p record mem
    have place : log.directory.place = .memory := by rw [(h.log log hl).2, directory]
    exact h.shows.readRecord place mem log.config.bufferSize
  · intro log hl record frame wf encoded fits room
    obtain ⟨shows, ours⟩ := h.log log hl
    rcases Log.append_cases shows wf with
      ⟨p, s, -, appended, -⟩ | ⟨p, e, s, -, -, -, -, -, -, -, blown⟩ | ⟨e, s, -, -, -, -, why⟩
    · exact ⟨p, _, onLog_of_ok hl appended⟩
    · exact absurd (ours ▸ none_fuse) (Directory.fuse_ne_none blown)
    · have := (why (ours ▸ none_fuse)).resolve_right room frame encoded
      omega

theorem fused_run {actions : List Action} (calm : .simulate ∉ actions) (c : Client)
    (history : List Attempt) : (run actions (c, history)).1.fused = c.fused := by
  induction actions generalizing c history with
  | nil => rfl
  | cons a actions ih =>
      obtain ⟨ha, later⟩ := not_or.mp (mt List.mem_cons.mpr calm)
      exact (ih later _ _).trans (fused_call (Ne.symm ha) c)

/-- Whatever a client in memory did, as long as no crashes are simulated. -/
theorem run_roundTrip (actions : List Action) (wf : ∀ a ∈ actions, a.WellFormed)
    (calm : .simulate ∉ actions) :
    RoundTrip (run actions (inMemory, [])).1
      ((run actions (inMemory, [])).2.filterMap Attempt.acknowledged) :=
  (inv_inMemory.run wf (Or.inl ⟨rfl, calm⟩)).roundTrip (fused_run calm inMemory [])

/-- Records in both formats, in segments that were filled with zeros and in one that was not. -/
def reopening : List Action :=
  [.openLog { segmentSize := 64, preallocate := true, syncOnWrite := true },
    .append (.pageInsert ⟨1⟩ ⟨2⟩ [3, 4]),
    .append (.checkpoint 5 [⟨⟨⟨1⟩, ⟨0⟩⟩, ⟨6, [⟨8, 2⟩]⟩⟩]), .rotate, .closeLog,
    .openLog { version := 1, bufferSize := 1 },
    .append (.pageRemove ⟨1⟩ ⟨2⟩ 0), .flush]

theorem run_roundTrip_reopening : RoundTrip (run reopening (inMemory, [])).1
    [(⟨0, 15, 27⟩, .pageInsert ⟨1⟩ ⟨2⟩ [3, 4]),
      (⟨1, 15, 59⟩, .checkpoint 5 [⟨⟨⟨1⟩, ⟨0⟩⟩, ⟨6, [⟨8, 2⟩]⟩⟩]),
      (⟨3, 15, 19⟩, .pageRemove ⟨1⟩ ⟨2⟩ 0)] := by
  have roundTrip := run_roundTrip reopening (by decide) (by decide)
  have acknowledged : (run reopening (inMemory, [])).2.filterMap Attempt.acknowledged =
      [(⟨0, 15, 27⟩, .pageInsert ⟨1⟩ ⟨2⟩ [3, 4]),
        (⟨1, 15, 59⟩, .checkpoint 5 [⟨⟨⟨1⟩, ⟨0⟩⟩, ⟨6, [⟨8, 2⟩]⟩⟩]),
        (⟨3, 15, 19⟩, .pageRemove ⟨1⟩ ⟨2⟩ 0)] := by
    decide +kernel
  rwa [acknowledged] at roundTrip

end SegmentLog.Client
