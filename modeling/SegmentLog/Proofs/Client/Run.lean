import SegmentLog.Proofs.Client.Action
import SegmentLog.Proofs.Log.Open

/-!
# Runs of a client

The invariant of a run says that the volume shows exactly the records that were written, and when a
record can have been written although its append failed: `Inv`. Every call keeps it (`Inv.perform`),
so it holds after any run in which segments are filled up beforehand or fuses blow, but not both
(`Inv.run`).
-/
namespace SegmentLog.Client

/-- The directory in memory, as writers see it. -/
def directory (c : Client) : Directory := { place := .memory, fuse := c.fused.map (·.2) }

/-- An append left its record unconfirmed because a fuse blew when it was flushed. While that fuse
is in place nothing more is written. -/
structure Attempt.Stopped (a : Attempt) (c : Client) : Prop where
  answer : ∃ e, Log.StoppedFlush e ∧ a.answer = .error (.failed e)
  fused : c.fused.isSome
  fuse : ∃ id, a.fuse = some id ∧ id < c.volume.fuses.size
  blown : a.fuse = c.directory.fuse → c.directory.hasBlown c.volume = true

/-- What holds of a client in memory and of its account at all times. -/
structure Inv (c : Client) (history : List Attempt) : Prop where
  place : c.place = some .memory
  fused : ∀ e ∈ c.fused, e.1 = .memory ∧ e.2 + 1 = c.volume.fuses.size
  shows : c.volume.Shows (c.fused.isSome = true) (history.filterMap Attempt.entry)
  log : ∀ log ∈ c.log, Log.Shows (c.volume, log) (history.filterMap Attempt.entry) ∧
    log.directory = c.directory
  written : ∀ a ∈ history, ∀ p, a.answer = .ok p → a.written = some p
  stopped : ∀ a ∈ history, a.Unconfirmed → a.Stopped c
  apart : (history.filter Attempt.Unconfirmed).Pairwise (·.fuse ≠ ·.fuse)

theorem inv_inMemory : Inv inMemory [] := by
  refine ⟨rfl, by simp [inMemory], ?_, by simp [inMemory], by simp, by simp, by simp⟩
  exact ⟨[], ⟨rfl, rfl⟩, rfl, fun older newest e => absurd e (by simp)⟩

variable {c : Client} {history : List Attempt}

theorem Inv.wired (h : Inv c history) : c.directory.Wired c.volume := by
  intro id hid
  obtain ⟨e, he, rfl⟩ := Option.map_eq_some_iff.mp hid
  exact Nat.lt_of_succ_le (Nat.le_of_eq (h.fused e he).2)

theorem need_of_some {α : Type} {f : Client → Option α} {a : α} (h : f c = some a) :
    need f c = .ok a c := by
  unfold need
  rw [run_get_bind, h]
  rfl

theorem need_of_none {α : Type} {f : Client → Option α} (h : f c = none) :
    need f c = .error .absent c := by
  unfold need
  rw [run_get_bind, h]
  rfl

theorem Inv.getDirectory (h : Inv c history) : getDirectory c = .ok c.directory c := by
  apply need_of_some
  unfold directory
  cases hf : c.fused with
  | none =>
      rw [h.place]
      rfl
  | some e =>
      obtain ⟨place, id⟩ := e
      cases (h.fused _ hf).1
      rfl

theorem fused_of_hasBlown {v : Volume} (blown : c.directory.hasBlown v = true) :
    c.fused.isSome = true := by
  by_contra none_fused
  apply Directory.fuse_ne_none blown
  rw [directory, Option.not_isSome_iff_eq_none.mp none_fused]
  rfl

theorem shows_of_log {s : Volume × Log} {items : List (Pointer × Record)}
    (ours : s.2.directory = c.directory) (shows : Log.Shows s items) :
    s.1.Shows (c.fused.isSome = true) items := by
  obtain ⟨older, image, laid, rfl⟩ := shows
  exact laid.shows.imp fun blown => fused_of_hasBlown (ours ▸ blown)

/-- A client that has the same directory, where a blown fuse has stayed blown, and an account that
has grown by what the volume gained. -/
theorem Inv.next {c' : Client} {new : List Attempt} (h : Inv c history)
    (place : c'.place = c.place) (fused : c'.fused = c.fused)
    (size : c'.volume.fuses.size = c.volume.fuses.size)
    (blown : c.directory.hasBlown c.volume = true → c.directory.hasBlown c'.volume = true)
    (shows : c'.volume.Shows (c.fused.isSome = true) ((history ++ new).filterMap Attempt.entry))
    (log : ∀ log ∈ c'.log, Log.Shows (c'.volume, log) ((history ++ new).filterMap Attempt.entry) ∧
      log.directory = c.directory)
    (written : ∀ a ∈ new, ∀ p, a.answer = .ok p → a.written = some p)
    (stopped : ∀ a ∈ new, a.Unconfirmed → a.Stopped c')
    (apart : ((history ++ new).filter Attempt.Unconfirmed).Pairwise (·.fuse ≠ ·.fuse)) :
    Inv c' (history ++ new) := by
  have same : c'.directory = c.directory := by rw [directory, directory, fused]
  refine ⟨place.trans h.place, ?_, fused ▸ shows, same ▸ log, ?_, ?_, apart⟩
  · rw [fused, size]
    exact h.fused
  · intro a ha
    rcases List.mem_append.mp ha with ha | ha
    · exact h.written a ha
    · exact written a ha
  · intro a ha hu
    rcases List.mem_append.mp ha with ha | ha
    · obtain ⟨answer, some_fuse, known, blown'⟩ := h.stopped a ha hu
      refine ⟨answer, fused ▸ some_fuse, size ▸ known, ?_⟩
      rw [same]
      exact fun e => blown (blown' e)
    · exact stopped a ha hu

/-- The account has not grown. -/
theorem Inv.same {c' : Client} (h : Inv c history) (place : c'.place = c.place)
    (fused : c'.fused = c.fused) (size : c'.volume.fuses.size = c.volume.fuses.size)
    (blown : c.directory.hasBlown c.volume = true → c.directory.hasBlown c'.volume = true)
    (shows : c'.volume.Shows (c.fused.isSome = true) (history.filterMap Attempt.entry))
    (log : ∀ log ∈ c'.log, Log.Shows (c'.volume, log) (history.filterMap Attempt.entry) ∧
      log.directory = c.directory) : Inv c' history := by
  rw [← List.append_nil history] at shows log ⊢
  refine h.next place fused size blown shows log (by simp) (by simp) ?_
  rw [List.append_nil]
  exact h.apart

/-- The log did something, and what it shows has grown. -/
theorem Inv.logged {log : Log} {s : Volume × Log} {new : List Attempt} (h : Inv c history)
    (hl : c.log = some log) (follows : Log.Follows (c.volume, log) s)
    (shows : Log.Shows s ((history ++ new).filterMap Attempt.entry))
    (written : ∀ a ∈ new, ∀ p, a.answer = .ok p → a.written = some p)
    (stopped : ∀ a ∈ new, a.Unconfirmed → a.Stopped { c with volume := s.1, log := some s.2 })
    (apart : ((history ++ new).filter Attempt.Unconfirmed).Pairwise (·.fuse ≠ ·.fuse)) :
    Inv { c with volume := s.1, log := some s.2 } (history ++ new) := by
  have kept : log.directory = c.directory := (h.log log hl).2
  have ours : s.2.directory = c.directory := follows.directory.trans kept
  refine h.next rfl rfl follows.fuses (kept ▸ follows.blown) (shows_of_log ours shows) ?_ written
    stopped apart
  rintro _ ⟨⟩
  exact ⟨shows, ours⟩

/-- The log does something that writes no record. -/
theorem Inv.onLog {α : Type} {x : LogM α} (h : Inv c history)
    (hx : ∀ {v log items}, Log.Shows (v, log) items →
      Log.Shows (final x (v, log)) items ∧ Log.Follows (v, log) (final x (v, log))) :
    Inv (final (onLog x) c) history := by
  cases hl : c.log with
  | none =>
      have absent : Client.onLog x c = .error .absent c := by rw [Client.onLog, hl]
      rw [final_of_error absent]
      exact h
  | some log =>
      obtain ⟨shows, follows⟩ := hx (h.log log hl).1
      have after : final (Client.onLog x) c = { c with
          volume := (final x (c.volume, log)).1, log := some (final x (c.volume, log)).2 } := by
        unfold final Client.onLog
        rw [hl]
        dsimp only
        cases x (c.volume, log) with
        | ok a s => rfl
        | error e s => rfl
      rw [after, ← List.append_nil history]
      refine h.logged hl follows ?_ (by simp) (by simp) ?_
      · rw [List.append_nil]
        exact shows
      · rw [List.append_nil]
        exact h.apart

/-- Only one record is left unconfirmed through one fuse: the fuse has blown then. -/
theorem Inv.apart_append (h : Inv c history) {a : Attempt}
    (ha : a.Unconfirmed → a.fuse = c.directory.fuse ∧ c.directory.hasBlown c.volume = false) :
    ((history ++ [a]).filter Attempt.Unconfirmed).Pairwise (·.fuse ≠ ·.fuse) := by
  rw [List.filter_append, List.pairwise_append]
  refine ⟨h.apart, (List.pairwise_singleton _ _).sublist List.filter_sublist, ?_⟩
  intro b hb a' ha'
  obtain ⟨mem, unconfirmed⟩ := List.mem_filter.mp ha'
  cases List.mem_singleton.mp mem
  obtain ⟨current, calm⟩ := ha (of_decide_eq_true unconfirmed)
  obtain ⟨mem, unconfirmed⟩ := List.mem_filter.mp hb
  -- an earlier one through this fuse would have left it blown
  intro same
  rw [(h.stopped b mem (of_decide_eq_true unconfirmed)).blown (same.trans current)] at calm
  cases calm

/-- An attempt that came to nothing. -/
theorem Inv.nothing (h : Inv c history) {a : Attempt} (entry : a.entry = none)
    {refusal : Refusal} (answer : a.answer = .error refusal) : Inv c (history ++ [a]) := by
  have idle : ¬a.Unconfirmed := by simp [Attempt.Unconfirmed, entry]
  have same : (history ++ [a]).filterMap Attempt.entry = history.filterMap Attempt.entry := by
    simp [entry]
  refine h.next rfl rfl rfl id (same ▸ h.shows) (same ▸ h.log) ?_ ?_
    (h.apart_append (absurd · idle))
  · intro b hb p hp
    cases List.mem_singleton.mp hb
    rw [answer] at hp
    cases hp
  · intro b hb hu
    cases List.mem_singleton.mp hb
    exact absurd hu idle

theorem onLog_of_ok {α : Type} {x : LogM α} {log : Log} {a : α} {s : Volume × Log}
    (hl : c.log = some log) (h : x (c.volume, log) = .ok a s) :
    Client.onLog x c = .ok a { c with volume := s.1, log := some s.2 } := by
  unfold Client.onLog
  rw [hl]
  dsimp only
  rw [h]

theorem onLog_of_error {α : Type} {x : LogM α} {log : Log} {e : Error} {s : Volume × Log}
    (hl : c.log = some log) (h : x (c.volume, log) = .error e s) :
    Client.onLog x c = .error (.failed e) { c with volume := s.1, log := some s.2 } := by
  unfold Client.onLog
  rw [hl]
  dsimp only
  rw [h]

theorem onLog_of_none {α : Type} {x : LogM α} (hl : c.log = none) :
    Client.onLog x c = .error .absent c := by
  rw [Client.onLog, hl]

/-- The log was to append a record. -/
theorem Inv.attempted {log : Log} {s : Volume × Log} {a : Attempt} (h : Inv c history)
    (hl : c.log = some log) (follows : Log.Follows (c.volume, log) s)
    (shows : Log.Shows s (history.filterMap Attempt.entry ++ a.entry.toList))
    (written : ∀ p, a.answer = .ok p → a.written = some p)
    (current : a.Unconfirmed → a.fuse = c.directory.fuse ∧ c.directory.hasBlown c.volume = false)
    (stopped : a.Unconfirmed → a.Stopped { c with volume := s.1, log := some s.2 }) :
    Inv { c with volume := s.1, log := some s.2 } (history ++ [a]) := by
  refine h.logged hl follows ?_ ?_ ?_ (h.apart_append current)
  · have gained : [a].filterMap Attempt.entry = a.entry.toList := by
      cases he : a.entry with
      | none => simp [he]
      | some item => simp [he]
    rw [List.filterMap_append, gained]
    exact shows
  · exact fun b hb => List.mem_singleton.mp hb ▸ written
  · exact fun b hb => List.mem_singleton.mp hb ▸ stopped

theorem Inv.append (h : Inv c history) {record : Record} (wf : record.WellFormed) :
    Inv (final (Client.onLog (Log.append record)) c) (history ++ [.make c record]) := by
  cases hl : c.log with
  | none =>
      have absent {α : Type} (x : LogM α) := onLog_of_none (x := x) hl
      rw [final_of_error (absent _)]
      have answer : (Attempt.make c record).answer = .error .absent := by
        simp only [Attempt.make, absent]
      refine h.nothing ?_ answer
      simp only [Attempt.make, Attempt.entry, absent, Option.map_none]
  | some log =>
      obtain ⟨shows, directory⟩ := h.log log hl
      rcases Log.append_cases shows wf with
        ⟨p, s, s', appended, written, shows', follows, calm⟩ |
        ⟨p, e, s, s', failed, written, why, shows', follows, calm, blown⟩ |
        ⟨e, s, failed, unwritten, shows', follows, -⟩
      · have made : Attempt.make c record = ⟨c.directory.fuse, record, some p, .ok p⟩ := by
          simp only [Attempt.make, Client.directory, onLog_of_ok hl appended,
            onLog_of_ok hl written]
        have confirmed : ¬(Attempt.make c record).Unconfirmed := by
          simp [made, Attempt.Unconfirmed, Attempt.acknowledged]
        rw [final_of_ok (onLog_of_ok hl appended)]
        exact h.attempted hl follows (by simpa [made, Attempt.entry] using shows') (by simp [made])
          (absurd · confirmed) (absurd · confirmed)
      · have made : Attempt.make c record =
            ⟨c.directory.fuse, record, some p, .error (.failed e)⟩ := by
          simp only [Attempt.make, Client.directory, onLog_of_error hl failed,
            onLog_of_ok hl written]
        rw [final_of_error (onLog_of_error hl failed)]
        rw [directory] at blown calm
        refine h.attempted hl follows (by simpa [made, Attempt.entry] using shows') (by simp [made])
          (fun _ => ⟨rfl, calm⟩) fun _ => ?_
        obtain ⟨fuse, hf⟩ := Option.isSome_iff_exists.mp (fused_of_hasBlown blown)
        have current : c.directory.fuse = some fuse.2 := by
          rw [Client.directory, hf]
          rfl
        refine ⟨⟨e, why, by rw [made]⟩, fused_of_hasBlown blown, ⟨fuse.2, ?_, ?_⟩, fun _ => blown⟩
        · rw [made]
          exact current
        · exact follows.fuses ▸ h.wired fuse.2 current
      · have made : Attempt.make c record =
            ⟨c.directory.fuse, record, none, .error (.failed e)⟩ := by
          simp only [Attempt.make, Client.directory, onLog_of_error hl failed,
            onLog_of_error hl unwritten]
        have idle : ¬(Attempt.make c record).Unconfirmed := by
          simp [made, Attempt.Unconfirmed, Attempt.entry]
        rw [final_of_error (onLog_of_error hl failed)]
        exact h.attempted hl follows (by simpa [made, Attempt.entry] using shows') (by simp [made])
          (absurd · idle) (absurd · idle)

theorem closeLog_run (c : Client) :
    ∃ c', Client.closeLog c = .ok () c' ∧ c'.volume = c.volume ∧ c'.place = c.place ∧
      c'.fused = c.fused ∧ c'.log = none :=
  ⟨_, rfl, rfl, rfl, rfl, rfl⟩

/-- Without a log the same is shown. -/
theorem Inv.closed {c' : Client} (h : Inv c history) (volume : c'.volume = c.volume)
    (place : c'.place = c.place) (fused : c'.fused = c.fused) (log : c'.log = none) :
    Inv c' history :=
  h.same place fused (by rw [volume]) (by rw [volume]; exact id) (volume ▸ h.shows) (by simp [log])

theorem run_lift_of_ok {α : Type} {x : VolumeM α} {a : α} {v : Volume}
    (h : x c.volume = .ok a v) : (liftM x : ClientM α) c = .ok a { c with volume := v } := by
  simp only [liftM, monadLift, MonadLift.monadLift, h]

theorem run_lift_of_error {α : Type} {x : VolumeM α} {e : Error} {v : Volume}
    (h : x c.volume = .error e v) :
    (liftM x : ClientM α) c = .error (.failed e) { c with volume := v } := by
  simp only [liftM, monadLift, MonadLift.monadLift, h]

/-- Opening a log loses nothing, and without a fuse it succeeds if the configuration is accepted and
there is an index for another segment. -/
theorem Inv.openLog (h : Inv c history) {config : Log.Config}
    (bare : c.fused = none ∨ config.preallocate = false) :
    Inv (final (Client.openLog config) c) history ∧
      (c.fused = none → config.Accepted → ¬c.volume.Full →
        ∃ segment c', Client.openLog config c = .ok segment c') := by
  have getDirectory := h.getDirectory
  have wired := h.wired
  obtain ⟨c₁, closed, volume, place, fused, log⟩ := closeLog_run c
  have h₁ := h.closed volume place fused log
  have bare' : c.directory.fuse = none ∨ config.preallocate = false :=
    bare.imp_left fun none_fused => by rw [directory, none_fused]; rfl
  have same : c₁.directory = c.directory := by rw [directory, directory, fused]
  have opened := Log.openIn_opens (c := config) rfl (volume ▸ wired) bare' h₁.shows
  have steps : ∀ {r}, (do
      let log ← (Log.openIn c.directory config : VolumeM Log)
      modify fun c => { c with log := some log }
      return log.active.segment : ClientM ℕ) c₁ = r → Client.openLog config c = r := by
    rintro r rfl
    unfold Client.openLog
    rw [run_bind_of_ok getDirectory, run_bind_of_ok closed]
  rcases opened with ⟨v', log', opened, shows, ours, size, blown⟩ |
    ⟨e, v', failed, shows, size, blown, refused⟩
  · have result := steps ((run_bind_of_ok (run_lift_of_ok opened)).trans rfl)
    refine ⟨?_, fun _ _ _ => ⟨_, _, result⟩⟩
    rw [final_of_ok result]
    refine h₁.same rfl rfl size (same ▸ blown) (shows_of_log (ours.trans same.symm) shows) ?_
    rintro _ ⟨⟩
    exact ⟨shows, ours.trans same.symm⟩
  · have result := steps (run_bind_of_error (run_lift_of_error failed))
    rw [final_of_error result]
    refine ⟨h₁.same rfl rfl size (same ▸ blown) shows (by simp [log]),
      fun none_fused accepted room => ?_⟩
    have none_fuse : c.directory.fuse = none := by
      rw [directory, none_fused]
      rfl
    rcases refused none_fuse with refused | full
    · exact absurd accepted refused
    · exact absurd (volume ▸ full) room

theorem Inv.simulate (h : Inv c history) : Inv (final Action.simulate.call c) history := by
  obtain ⟨c₁, closed, volume, place, fused, log⟩ := closeLog_run c
  have h₁ := h.closed volume place fused log
  have installed : installFuse c₁ = .ok () { c₁ with
      volume := c₁.volume.addFuse.2, fused := some (.memory, c₁.volume.fuses.size) } := by
    unfold installFuse getPlace
    rw [run_bind_of_ok (need_of_some h₁.place)]
    rfl
  unfold Action.call
  dsimp only
  rw [final_of_ok ((run_bind_of_ok closed).trans installed)]
  have size : c₁.volume.addFuse.2.fuses.size = c₁.volume.fuses.size + 1 := Array.size_push _
  refine ⟨h₁.place, ?_, ?_, by simp [log], h₁.written, ?_, h₁.apart⟩
  · rintro _ ⟨⟩
    exact ⟨rfl, size.symm⟩
  · have shows : c₁.volume.addFuse.2.Shows _ _ := h₁.shows.congr rfl rfl
    exact shows.imp fun _ => rfl
  · intro a ha hu
    have before := h₁.stopped a ha hu
    obtain ⟨id, hid, known⟩ := before.fuse
    refine ⟨before.answer, rfl, ⟨id, hid, size ▸ Nat.lt_succ_of_lt known⟩, ?_⟩
    intro e
    cases hid.symm.trans e
    exact absurd known (Nat.lt_irrefl _)

/-- A fuse is changed, but not whether it has blown. -/
theorem Inv.setFuse (h : Inv c history) {f : Fuse → Fuse}
    (same : ∀ fuse, (f fuse).blown = fuse.blown)
    {x : FuseId → ClientM Unit}
    (hx : ∀ id, x id c =
      .ok () { c with volume := c.volume.setFuse id (f (c.volume.fuse id)) }) :
    Inv (final (getFuse >>= x) c) history := by
  cases hf : c.fused with
  | none =>
      have absent : getFuse c = .error .absent c := need_of_none (by rw [hf]; rfl)
      rw [final_of_error (run_bind_of_error absent)]
      exact h
  | some e =>
      obtain ⟨place, id⟩ := e
      have found : getFuse c = .ok id c := need_of_some (by rw [hf]; rfl)
      have there : id < c.volume.fuses.size := h.wired id (by rw [directory, hf]; rfl)
      have alike := c.volume.alike_setFuse id (f (c.volume.fuse id))
      have blown : c.directory.hasBlown (c.volume.setFuse id (f (c.volume.fuse id))) =
          c.directory.hasBlown c.volume := by
        simp only [Directory.hasBlown, directory, hf, Option.map_some, Option.any_some,
          Volume.fuse_setFuse there, same]
      rw [final_of_ok ((run_bind_of_ok found).trans (hx id))]
      refine h.same rfl rfl alike.fuses (by rw [blown]; exact fun hb => hb)
        (h.shows.congr alike.segments alike.contents) ?_
      intro log hl
      obtain ⟨shows, ours⟩ := h.log log hl
      refine ⟨shows.alike alike ?_, ours⟩
      rw [ours, blown]
      exact fun hb => hb

/-- Whatever a client is told to do, the invariant is kept. -/
theorem Inv.perform (h : Inv c history) {a : Action} (wf : a.WellFormed)
    (bare : c.fused = none ∨ ∀ config, a = .openLog config → config.preallocate = false) :
    Inv (final a.call c) (history ++ a.attempts c) := by
  cases a with
  | append record =>
      simp only [Action.call, Action.attempts, final_bind_pure]
      exact h.append wf
  | simulate =>
      simp only [Action.attempts, List.append_nil]
      exact h.simulate
  | openLog config =>
      simp only [Action.call, Action.attempts, List.append_nil, final_bind_pure]
      exact (h.openLog (bare.imp_right fun hb => hb config rfl)).1
  | closeLog =>
      obtain ⟨c', closed, volume, place, fused, log⟩ := closeLog_run c
      simp only [Action.call, Action.attempts, List.append_nil, final_of_ok closed]
      exact h.closed volume place fused log
  | flush =>
      simp only [Action.attempts, List.append_nil]
      exact h.onLog Log.flush_shows
  | rotate =>
      simp only [Action.call, Action.attempts, List.append_nil, final_bind_pure]
      exact h.onLog Log.rotate_shows
  | arm len =>
      simp only [Action.attempts, List.append_nil]
      exact h.setFuse (f := (·.arm len)) (fun _ => rfl) fun _ => rfl
  | failSync fail =>
      simp only [Action.attempts, List.append_nil]
      exact h.setFuse (f := fun f => { f with failSync := fail }) (fun _ => rfl) fun _ => rfl

/-! ## Runs -/

theorem fused_onLog {α : Type} (x : LogM α) (c : Client) :
    (final (Client.onLog x) c).fused = c.fused := by
  cases hl : c.log with
  | none => rw [final_of_error (onLog_of_none hl)]
  | some log =>
      cases hx : x (c.volume, log) with
      | ok a s => rw [final_of_ok (onLog_of_ok hl hx)]
      | error e s => rw [final_of_error (onLog_of_error hl hx)]

theorem fused_need {α β : Type} {f : Client → Option α} {x : α → ClientM β} {c : Client}
    (hx : ∀ a, (final (x a) c).fused = c.fused) : (final (need f >>= x) c).fused = c.fused := by
  cases hf : f c with
  | none => rw [final_of_error (run_bind_of_error (need_of_none hf))]
  | some a =>
      have := hx a
      rwa [final, run_bind_of_ok (need_of_some hf)]

/-- Only a simulation of crashes changes which fuse there is. -/
theorem fused_call {a : Action} (ha : a ≠ .simulate) (c : Client) :
    (final a.call c).fused = c.fused := by
  cases a with
  | simulate => exact absurd rfl ha
  | openLog config =>
      simp only [Action.call, final_bind_pure]
      apply fused_need
      intro d
      obtain ⟨c', closed, -, -, fused, -⟩ := closeLog_run c
      rw [final, run_bind_of_ok closed, ← final]
      cases ho : Log.openIn d config c'.volume with
      | ok log v =>
          rw [final, run_bind_of_ok (run_lift_of_ok ho)]
          exact fused
      | error e v =>
          rw [final_of_error (run_bind_of_error (run_lift_of_error ho))]
          exact fused
  | closeLog =>
      obtain ⟨c', closed, -, -, fused, -⟩ := closeLog_run c
      exact (congrArg Client.fused (final_of_ok closed)).trans fused
  | append record =>
      simp only [Action.call, final_bind_pure]
      exact fused_onLog _ c
  | flush => exact fused_onLog _ c
  | rotate =>
      simp only [Action.call, final_bind_pure]
      exact fused_onLog _ c
  | arm len => exact fused_need fun _ => rfl
  | failSync fail => exact fused_need fun _ => rfl

/-- Either no crashes are simulated, or no segment is filled up beforehand. -/
def Steady (c : Client) (actions : List Action) : Prop :=
  (c.fused = none ∧ .simulate ∉ actions) ∨
    ∀ config, .openLog config ∈ actions → config.preallocate = false

theorem Inv.run {actions : List Action} (h : Inv c history) (wf : ∀ a ∈ actions, a.WellFormed)
    (steady : Steady c actions) :
    Inv (run actions (c, history)).1 (run actions (c, history)).2 := by
  induction actions generalizing c history with
  | nil => exact h
  | cons a actions ih =>
      obtain ⟨head, tail⟩ := List.forall_mem_cons.mp wf
      refine ih (h.perform head ?_) tail ?_
      · exact steady.imp And.left fun hb config e => hb config (e ▸ List.mem_cons_self)
      · refine steady.imp (fun ⟨none_fused, calm⟩ => ?_)
          fun hb config hc => hb config (List.mem_cons_of_mem _ hc)
        obtain ⟨ha, calm⟩ := not_or.mp (mt List.mem_cons.mpr calm)
        exact ⟨(fused_call (Ne.symm ha) c).trans none_fused, calm⟩

end SegmentLog.Client
