import SegmentLog.Proofs.Client.Watched
import SegmentLog.Proofs.Log.Replay

/-!
# Reading survives what goes on around it

Main statement: `run_served`. Whatever a client does with its log, what it opened through the log
goes on reading: it never fails, gives the records from its start on one after the other, and ends
only after all those that were there when it was opened. Sessions straight on the directory have no
pins in the log, and `run_unserved` has one that is left without its segments.
-/
namespace SegmentLog
namespace Scene

variable {place : Place} {scene : Scene} {removed : ℕ} {shelf : Shelf} {α : Type}

/-! ## What the client keeps -/

/-- The client keeps other things, and its ledger follows. -/
theorem Inv.relog (h : Inv place scene removed shelf) {c : Client} {f : Ledger → Ledger}
    {watches : Feed → Option Watch}
    (same : c.volume = scene.client.volume ∧ c.place = scene.client.place ∧
      c.fused = scene.client.fused ∧ c.log = scene.client.log)
    (accounted : (c.relog f).Accounted 0)
    (kept : ∀ feed w, watches feed = some w → w.Kept (c.relog f) place removed shelf feed) :
    Inv place { scene with client := c.relog f, watches } removed shelf := by
  obtain ⟨volume, located, fused, log⟩ := same
  refine ⟨located.trans h.located, fused.trans h.fused, volume ▸ h.shelves, h.items, ?_, accounted,
    kept⟩
  intro log' hl
  obtain ⟨before, found, rfl⟩ := Option.map_eq_some_iff.mp hl
  have stands := (h.log before (log ▸ found)).book (f before.ledger)
  rw [← volume] at stands
  exact stands

section
variable {x : LogM α} {c : Client} {log : Log} {l : Ledger}

theorem relog_eq (hl : c.log = some log) :
    { c with
      volume := (Log.book (c.volume, log) l).1
      log := some (Log.book (c.volume, log) l).2 } = c.relog fun _ => l := by
  rw [Client.relog, hl]
  rfl

theorem onLog_book_ok {a : α} (hl : c.log = some log)
    (h : x (c.volume, log) = .ok a (Log.book (c.volume, log) l)) :
    Client.onLog x c = .ok a (c.relog fun _ => l) := by
  rw [Client.onLog_of_ok hl h, relog_eq hl]

theorem onLog_book_error {e : Error} (hl : c.log = some log)
    (h : x (c.volume, log) = .error e (Log.book (c.volume, log) l)) :
    Client.onLog x c = .error (.failed e) (c.relog fun _ => l) := by
  rw [Client.onLog_of_error hl h, relog_eq hl]

end

/-- Pins were taken for what the client is about to keep. -/
theorem Inv.takes {log : Log} {l : Ledger} {more : ℕ → ℕ} (h : Inv place scene removed shelf)
    (hl : scene.client.log = some log) (takes : Log.Takes log.ledger l more) :
    Inv place { scene with client := scene.client.relog fun _ => l } removed shelf ∧
      (scene.client.relog fun _ => l).Accounted more := by
  have accounted : ∀ more', (∀ k, more' k ≤ more k) →
      (scene.client.relog fun _ => l).Accounted more' := by
    intro more' le
    refine ⟨h.accounted.guards, h.accounted.sessions, h.accounted.supplies, ?_⟩
    intro log' found
    rw [Client.relog, hl] at found
    cases found
    obtain ⟨sorted, enough⟩ := h.accounted.pins log hl
    refine ⟨takes.sorted sorted, fun k => ?_⟩
    have := enough k
    have := le k
    have := takes.count k
    change scene.client.held k + more' k ≤ l.pins.count k
    simp only [Pi.zero_apply] at *
    omega
  refine ⟨h.relog ⟨rfl, rfl, rfl, rfl⟩ (accounted 0 fun k => Nat.zero_le _) ?_, accounted more
    fun k => Nat.le_refl _⟩
  intro feed w hw
  exact (h.kept feed w hw).congr (Client.isSome_relog ..) rfl rfl

theorem Inv.keepGuard {segment : ℕ} (h : Inv place scene removed shelf)
    (accounted : scene.client.Accounted (Client.guardShare · segment)) (name : String) :
    Inv place (scene.act (Client.keepGuard name segment)) removed shelf := by
  rw [act, final_of_ok (Client.keepGuard_run ..)]
  refine h.relog ⟨rfl, rfl, rfl, rfl⟩ accounted.keepGuard ?_
  intro feed w hw
  exact (h.kept feed w hw).congr (Client.isSome_relog ..) rfl rfl

theorem act_bind_of_ok {β : Type} {x : ClientM α} {f : α → ClientM β} {a : α} {c : Client}
    (h : x scene.client = .ok a c) :
    scene.act (x >>= f) = ({ scene with client := c }).act (f a) := by
  rw [act, final_bind_of_ok h, act]

theorem Inv.pin (h : Inv place scene removed shelf) (name : String) (segment : ℕ) :
    Inv place (scene.act (Client.pin name segment)) removed shelf := by
  cases hl : scene.client.log with
  | none =>
      have absent : Client.pin name segment scene.client = .error .absent scene.client :=
        run_bind_of_error (Client.onLog_of_none hl)
      rwa [act_of_error absent]
  | some log =>
      rcases Log.pin_cases segment (scene.client.volume, log) with pinned | ⟨e, failed⟩
      · obtain ⟨inv, accounted⟩ := h.takes hl (.pin log.ledger segment)
        rw [Client.pin, act_bind_of_ok (onLog_book_ok hl pinned)]
        exact inv.keepGuard accounted name
      · have refused := Client.onLog_of_error hl failed
        rw [← hl] at refused
        have failed : Client.pin name segment scene.client = .error (.failed e) scene.client :=
          run_bind_of_error refused
        rwa [act_of_error failed]

theorem Inv.pinUnchecked (h : Inv place scene removed shelf) (name : String) (segment : ℕ) :
    Inv place (scene.act (Client.pinUnchecked name segment)) removed shelf := by
  cases hl : scene.client.log with
  | none =>
      have absent : Client.pinUnchecked name segment scene.client = .error .absent scene.client :=
        run_bind_of_error (Client.onLog_of_none hl)
      rwa [act_of_error absent]
  | some log =>
      have pinned : LogM.enter (·.pin segment) (scene.client.volume, log) =
        .ok () (Log.book (scene.client.volume, log) (log.ledger.pin segment)) := rfl
      obtain ⟨inv, accounted⟩ := h.takes hl (.pin log.ledger segment)
      rw [Client.pinUnchecked, act_bind_of_ok (onLog_book_ok hl pinned)]
      exact inv.keepGuard accounted name

theorem Inv.unpin (h : Inv place scene removed shelf) (name : String) :
    Inv place (scene.act (Client.unpin name)) removed shelf := by
  rw [act, Client.unpin_final]
  refine h.relog ⟨rfl, rfl, rfl, rfl⟩ h.accounted.dropGuard ?_
  intro feed w hw
  exact (h.kept feed w hw).congr (Client.isSome_relog ..) rfl rfl

/-! ## Reading -/

/-- What is read with is given up. -/
theorem Inv.closing {feed : Feed} {x : ClientM α} (h : Inv place scene removed shelf) {c : Client}
    {f : Ledger → Ledger} (after : final x scene.client = c.relog f)
    (same : c.volume = scene.client.volume ∧ c.place = scene.client.place ∧
      c.fused = scene.client.fused ∧ c.log = scene.client.log)
    (accounted : (c.relog f).Accounted 0)
    (others : ∀ other, other ≠ feed → c.feed? other = scene.client.feed? other) :
    Inv place (scene.closing feed x) removed shelf := by
  rw [Scene.closing, after]
  refine h.relog same accounted ?_
  intro other w hw
  by_cases this : other = feed
  · subst this
    rw [Function.update_self] at hw
    cases hw
  · rw [Function.update_of_ne this] at hw
    refine (h.kept other w hw).congr ?_ same.1 (others other this)
    rw [Client.isSome_relog, same.2.2.2]

theorem Inv.closeSession (h : Inv place scene removed shelf) (name : String) :
    Inv place (scene.closing (.session name) (Client.closeSession name)) removed shelf := by
  cases found : scene.client.sessions.get? name with
  | none =>
      have absent : Client.closeSession name scene.client = .error .absent scene.client :=
        run_bind_of_error (Client.need_of_none found)
      have same := Client.relog_settle_none (fun (s : Session) l => l.release s) scene.client
      refine h.closing ((final_of_error absent).trans same.symm) ⟨rfl, rfl, rfl, rfl⟩ ?_
        fun _ _ => rfl
      rw [same]
      exact h.accounted
  | some held =>
      refine h.closing (final_of_ok (Client.closeSession_run found)) ⟨rfl, rfl, rfl, rfl⟩
        (h.accounted.closeSession found) ?_
      intro other ne
      rw [Client.feed?_insert_session, if_neg ne]

theorem Inv.dropSession (h : Inv place scene removed shelf) (name : String) :
    Inv place (scene.closing (.session name) (Client.dropSession name)) removed shelf := by
  refine h.closing (Client.dropSession_final _) ⟨rfl, rfl, rfl, rfl⟩ h.accounted.dropSession ?_
  intro other ne
  rw [Client.feed?_erase_session, if_neg ne]

theorem Inv.dropSupply (h : Inv place scene removed shelf) (name : String) :
    Inv place (scene.closing (.supply name) (Client.dropSupply name)) removed shelf := by
  refine h.closing (Client.dropSupply_final _) ⟨rfl, rfl, rfl, rfl⟩ h.accounted.dropSupply ?_
  intro other ne
  rw [Client.feed?_erase_supply, if_neg ne]

/-- What is read with goes on. -/
theorem Inv.reading {feed : Feed} {x : ClientM Reading} (h : Inv place scene removed shelf)
    {c : Client} {f : Ledger → Ledger} {held : Held Session} {count : ℕ}
    (found : scene.client.feed? feed = some held)
    (done : x scene.client = .ok (held.value.take scene.client.volume count) (c.relog f))
    (same : c.volume = scene.client.volume ∧ c.place = scene.client.place ∧
      c.fused = scene.client.fused ∧ c.log = scene.client.log)
    (accounted : (c.relog f).Accounted 0)
    (feeds : ∀ other, c.feed? other = if other = feed then
      some ⟨(held.value.take scene.client.volume count).session, held.counted⟩
      else scene.client.feed? other) :
    Inv place (scene.reading feed x) removed shelf := by
  rw [Scene.reading, final_of_ok done]
  refine h.relog same accounted ?_
  intro other w hw
  by_cases this : other = feed
  · subst this
    rw [Function.update_self] at hw
    obtain ⟨w, watched, rfl⟩ := Option.map_eq_some_iff.mp hw
    have told : answer x scene.client = .ok (held.value.take scene.client.volume count) := by
      rw [answer, done]
    rw [told]
    refine (h.kept other w watched).told h.shelves found ?_ same.1
      ((feeds other).trans (if_pos rfl))
    rw [Client.isSome_relog, same.2.2.2]
  · rw [Function.update_of_ne this] at hw
    refine (h.kept other w hw).congr ?_ same.1 ((feeds other).trans (if_neg this))
    rw [Client.isSome_relog, same.2.2.2]

/-- There is nothing to read with. -/
theorem Inv.reading_absent {feed : Feed} {x : ClientM Reading} (h : Inv place scene removed shelf)
    (absent : scene.client.feed? feed = none) {refusal : Refusal}
    (refused : x scene.client = .error refusal scene.client) :
    Inv place (scene.reading feed x) removed shelf := by
  have unwatched : scene.watches feed = none := by
    cases watched : scene.watches feed with
    | none => rfl
    | some w =>
        obtain ⟨s, skipped, feeding, -⟩ := (h.kept feed w watched).session
        rw [absent] at feeding
        cases feeding
  have same : Function.update scene.watches feed none = scene.watches := by
    rw [← unwatched, Function.update_eq_self]
  rw [Scene.reading, final_of_error refused, unwatched, Option.map_none, same]
  exact h

theorem Inv.readSession (h : Inv place scene removed shelf) (name : String) (count : ℕ) :
    Inv place (scene.reading (.session name) (Client.readSession name count)) removed shelf := by
  cases found : scene.client.sessions.get? name with
  | none => exact h.reading_absent found (run_bind_of_error (Client.need_of_none found))
  | some held =>
      refine h.reading found (Client.readSession_run found count) ⟨rfl, rfl, rfl, rfl⟩
        (h.accounted.followSession found _) ?_
      intro other
      rw [Client.feed?_insert_session]

theorem Inv.readSupply (h : Inv place scene removed shelf) (name : String) (count : ℕ) :
    Inv place (scene.reading (.supply name) (Client.readSupply name count)) removed shelf := by
  have feeding : scene.client.feed? (.supply name) =
    (scene.client.supplies.get? name).map fun h => ⟨h.value.session, h.counted⟩ := rfl
  cases found : scene.client.supplies.get? name with
  | none =>
      rw [found] at feeding
      exact h.reading_absent feeding (run_bind_of_error (Client.need_of_none found))
  | some held =>
      rw [found] at feeding
      refine h.reading feeding (Client.readSupply_run found count) ⟨rfl, rfl, rfl, rfl⟩
        (h.accounted.followSupply found _) ?_
      intro other
      rw [Client.feed?_insert_supply]

/-! ## Opening -/

theorem Inv.directory (h : Inv place scene removed shelf) :
    Client.getDirectory scene.client = .ok { place } scene.client :=
  Client.need_of_some (by rw [h.fused, h.located]; rfl)

theorem Inv.listed (h : Inv place scene removed shelf) :
    scene.listed = List.range' removed (shelf.length - removed) := by
  rw [Scene.listed, h.located]
  dsimp only [Option.bind]
  rw [h.shelves.list]
  rfl

/-- A session that starts is watched from now on. -/
theorem Inv.opened {feed : Feed} {start : Option Pointer} {x : ClientM α} {opens : α → Bool}
    {a : α} {c : Client} {f g : Ledger → Ledger} {s : Session}
    {skipped : List (Pointer × Record)}
    (h : Inv place { scene with client := scene.client.relog g } removed shelf)
    (open_ : scene.client.log.isSome) (done : x scene.client = .ok a (c.relog f))
    (counts : opens a = true)
    (same : c.volume = scene.client.volume ∧ c.place = scene.client.place ∧
      c.fused = scene.client.fused ∧ c.log = (scene.client.relog g).log)
    (accounted : (c.relog f).Accounted 0)
    (starts : s.Starts place scene.client.volume removed shelf start skipped)
    (feeds : ∀ other, c.feed? other = if other = feed then some ⟨s, true⟩
      else scene.client.feed? other) :
    Inv place (scene.opening feed (scene.watch start) x opens) removed shelf := by
  have logged : (c.relog f).log.isSome = scene.client.log.isSome := by
    rw [Client.isSome_relog, same.2.2.2, Client.isSome_relog]
  have items : shelf.items = scene.appended := h.items
  have listed : scene.listed = List.range' removed (shelf.length - removed) := h.listed
  rw [Scene.opening, done]
  dsimp only
  rw [if_pos counts]
  refine h.relog same accounted ?_
  intro other w hw
  by_cases this : other = feed
  · subst this
    rw [Function.update_self] at hw
    cases hw
    have due : skipped ++ (scene.watch start).due = shelf.items := by
      rw [watch, listed, ← items]
      exact starts.due
    refine ⟨logged.trans open_, ⟨s, skipped, (feeds other).trans (if_pos rfl), starts.safe, ?_, ?_⟩,
      ?_, fun a ha => absurd ha List.not_mem_nil, ?_⟩
    · rw [due, watch, ← items, List.take_length]
    · rw [due]
      have := starts.tracks
      rw [← same.1] at this
      exact (List.append_nil skipped).symm ▸ this
    · rw [watch, items]
    · intro ended
      obtain ⟨r, mem, -⟩ := ended
      exact absurd mem List.not_mem_nil
  · rw [Function.update_of_ne this] at hw
    refine (h.kept other w hw).congr ?_ same.1 ((feeds other).trans (if_neg this))
    rw [logged, Client.isSome_relog]

/-- Nothing is opened. -/
theorem Inv.unopened {feed : Feed} {watch : Option Watch} {x : ClientM α}
    {opens : α → Bool} {refusal : Refusal} {c : Client}
    (h : Inv place { scene with client := c } removed shelf)
    (refused : x scene.client = .error refusal c) :
    Inv place (scene.opening feed watch x opens) removed shelf := by
  rw [Scene.opening, refused]
  exact h

theorem Inv.openSession (h : Inv place scene removed shelf) {start : Option Pointer}
    (known : scene.Known start) (name : String) :
    Inv place (scene.opening (.session name) (scene.watch start)
      (Client.keepSession name false start none) fun _ => true) removed shelf := by
  cases hl : scene.client.log with
  | none =>
      have absent : Client.keepSession name false start none scene.client =
        .error .absent scene.client := run_bind_of_error (Client.onLog_of_none hl)
      exact h.unopened absent
  | some log =>
      have real : ∀ p ∈ start, ∃ item ∈ shelf.items, item.1.address = p.address := h.items ▸ known
      have counted := (Log.Takes.refl log.ledger).figure .sessionOpened
      rcases Log.replayRange_cases (h.log log hl) real with
        ⟨s, skipped, opened, starts⟩ | ⟨e, failed⟩
      · obtain ⟨inv, accounted⟩ := h.takes hl (counted.hold s)
        have step : Client.openSession false start none scene.client = _ := onLog_book_ok hl opened
        have accounted : Client.Accounted _
          fun k => Held.weigh (Client.sessionShare k) ⟨s, true⟩ := accounted
        refine inv.opened (by rw [hl]; rfl) (Client.keepSession_run step) rfl ⟨rfl, rfl, rfl, rfl⟩
          accounted.keepSession starts ?_
        intro other
        exact Client.feed?_insert_session ..
      · have step : Client.keepSession name false start none scene.client = _ :=
          run_bind_of_error (onLog_book_error hl failed)
        exact (h.takes hl counted).1.unopened step

/-- A session straight on the directory counts for nothing in the log. -/
theorem Inv.openDirect (h : Inv place scene removed shelf) (name : String)
    (start : Option Pointer) :
    Inv place (scene.opening (.session name) none (Client.keepSession name true start none)
      fun _ => true) removed shelf := by
  have volume : Client.getVolume scene.client = .ok scene.client.volume scene.client := rfl
  have step : ∀ result, Session.openRange { place } scene.client.volume Session.defaultBufferSize
      start none = result → Client.openSession true start none scene.client =
        (liftM result : ClientM Session) scene.client := by
    rintro _ rfl
    rw [Client.openSession, if_pos rfl, run_bind_of_ok h.directory, run_bind_of_ok volume]
  cases opened : Session.openRange { place } scene.client.volume Session.defaultBufferSize start
    none with
  | error e =>
      have step := step _ opened
      have failed : Client.keepSession name true start none scene.client = _ :=
        run_bind_of_error step
      exact h.unopened failed
  | ok s =>
      have step := step _ opened
      have done : Client.keepSession name true start none scene.client = _ :=
        Client.keepSession_run step
      have idle : scene.client.Accounted
          fun k => Held.weigh (Client.sessionShare k) ⟨s, !true⟩ := h.accounted
      have closing : Inv place (scene.closing (.session name) _) removed shelf :=
        h.closing (final_of_ok done) ⟨rfl, rfl, rfl, rfl⟩ idle.keepSession fun other ne => by
          rw [Client.feed?_insert_session, if_neg ne]
      rw [Scene.closing, final_of_ok done] at closing
      rw [Scene.opening, done]
      exact closing

theorem counterOf_cases (snapshot : Option Snapshot) (c : Client) :
    (∃ counter, Client.counterOf snapshot c = .ok counter c) ∨
      ∃ refusal, Client.counterOf snapshot c = .error refusal c := by
  cases snapshot with
  | none => exact .inl ⟨_, rfl⟩
  | some snapshot =>
      unfold Client.counterOf
      dsimp only
      cases Except.mapError Error.format (({} : Counter).restore snapshot) with
      | ok counter => exact .inl ⟨counter, rfl⟩
      | error e => exact .inr ⟨.failed e, rfl⟩

section
variable {start : Option Pointer} {name : String} {maxGaps : ℕ} {snapshot : Option Snapshot}
  {counter : Counter} {log : Log}

/-- A history is opened, or nothing is. -/
theorem Inv.openSupply_offers (h : Inv place scene removed shelf)
    (counted : Client.counterOf snapshot scene.client = .ok counter scene.client)
    (hl : scene.client.log = some log)
    (offers : Rebalance.Offers (Rebalance.openHistory maxGaps counter start) place removed
      (scene.client.volume, log) shelf start Rebalance.Offer.supply?) :
    Inv place (scene.opening (.supply name) (scene.watch start)
      (Client.openHistory name maxGaps snapshot start) offersHistory) removed shelf := by
  rcases offers with
    ⟨offer, supply, skipped, ledger, opened, same, starts, takes⟩ | ⟨nothing, ledger, after, same⟩
  · cases offer with
    | full reason => cases same
    | historical supply =>
        cases same
        obtain ⟨inv, accounted⟩ := h.takes hl takes
        refine inv.opened (by rw [hl]; rfl)
          (Client.openHistory_run counted (onLog_book_ok hl opened)) rfl ⟨rfl, rfl, rfl, rfl⟩
          accounted.keepSupply starts ?_
        intro other
        exact Client.feed?_insert_supply ..
  · have inv := (h.takes hl same).1
    cases done : Rebalance.openHistory maxGaps counter start (scene.client.volume, log) with
    | ok offer s =>
        rw [final_of_ok done] at after
        subst after
        cases offer with
        | historical supply => cases nothing _ _ done
        | full reason =>
            have step : Client.openHistory name maxGaps snapshot start scene.client = _ :=
              (run_bind_of_ok counted).trans (run_bind_of_ok (onLog_book_ok hl done))
            rw [Scene.opening, step]
            exact inv
    | error e s =>
        rw [final_of_error done] at after
        subst after
        have step : Client.openHistory name maxGaps snapshot start scene.client = _ :=
          (run_bind_of_ok counted).trans (run_bind_of_error (onLog_book_error hl done))
        exact inv.unopened step

theorem Inv.openSupply (h : Inv place scene removed shelf) (known : scene.Known start) :
    Inv place (scene.opening (.supply name) (scene.watch start)
      (Client.openHistory name maxGaps snapshot start) offersHistory) removed shelf := by
  rcases counterOf_cases snapshot scene.client with ⟨counter, counted⟩ | ⟨refusal, refused⟩
  · cases hl : scene.client.log with
    | none =>
        have absent : Client.openHistory name maxGaps snapshot start scene.client =
            .error .absent scene.client :=
          (run_bind_of_ok counted).trans (run_bind_of_error (Client.onLog_of_none hl))
        exact h.unopened absent
    | some log =>
        have real : ∀ p ∈ start, ∃ item ∈ shelf.items, item.1.address = p.address :=
          h.items ▸ known
        exact h.openSupply_offers counted hl
          (Rebalance.openHistory_cases (h.log log hl) real maxGaps counter)
  · have step : Client.openHistory name maxGaps snapshot start scene.client = _ :=
      run_bind_of_error refused
    exact h.unopened step

end

/-! ## Opening and closing the log -/

theorem Inv.closeLog (h : Inv place scene removed shelf) :
    Inv place (scene.turn Client.closeLog) removed shelf := by
  rw [turn, final_of_ok scene.client.closeLog_logless]
  exact ⟨h.located, h.fused, h.shelves, h.items, nofun, h.accounted.logless, nofun⟩

theorem Inv.openLog (h : Inv place scene removed shelf) (room : Place.Room (shelf.length + 1))
    (config : Log.Config) :
    ∃ shelf', Inv place (scene.turn (Client.openLog config)) removed shelf' ∧
      shelf'.length ≤ shelf.length + 1 := by
  have closed := scene.client.closeLog_logless
  rw [turn, Client.openLog, final_bind_of_ok h.directory, final_bind_of_ok closed]
  rcases Log.openIn_cases (v := scene.client.logless.volume) h.shelves room config with
    ⟨v, log, e, opened, stands, items, free⟩ | ⟨fault, failed⟩
  · refine ⟨shelf ++ [e], ?_, by simp⟩
    rw [final_bind_of_ok (Client.run_lift_of_ok opened), final_bind_of_ok (Client.modify_run ..)]
    obtain ⟨older, newest, same, writes, shelves⟩ := stands
    refine ⟨h.located, h.fused, shelves, items.trans h.items, ?_, h.accounted.openLog free, nofun⟩
    rintro _ ⟨⟩
    exact ⟨older, newest, same, writes, shelves⟩
  · refine ⟨shelf, ?_, Nat.le_succ _⟩
    rw [final_of_error (run_bind_of_error (Client.run_lift_of_error failed))]
    exact h.closeLog

/-! ## Runs -/

/-- One call keeps what holds, and it starts at most one segment. -/
theorem Inv.step (h : Inv place scene removed shelf) (room : Place.Room (shelf.length + 1))
    {call : Call} (proper : scene.Proper call) :
    ∃ removed' shelf', Inv place (scene.step call) removed' shelf' ∧
      shelf'.length ≤ shelf.length + 1 := by
  have same : ∀ {after : Scene}, Inv place after removed shelf → ∃ removed' shelf',
      Inv place after removed' shelf' ∧ shelf'.length ≤ shelf.length + 1 :=
    fun inv => ⟨removed, shelf, inv, Nat.le_succ _⟩
  cases call with
  | openLog config => exact ⟨removed, h.openLog room config⟩
  | closeLog => exact same h.closeLog
  | append record => exact ⟨removed, h.append room proper⟩
  | flush =>
      refine ⟨removed, h.act_onLog fun s stands => ?_⟩
      obtain ⟨s', flushed, passes⟩ := Log.flush_passes stands
      rw [final_of_ok flushed]
      exact ⟨shelf,
        ⟨passes.stands, passes.extended, Nat.le_succ _, passes.format, passes.pins⟩, rfl⟩
  | rotate =>
      refine ⟨removed, h.act_onLog fun s stands => ?_⟩
      obtain ⟨k, s', shelf', rotated, passes, items⟩ := Log.rotate_passes stands room
      rw [final_of_ok rotated]
      exact ⟨shelf', passes, items⟩
  | releaseBefore segment =>
      obtain ⟨removed', inv⟩ := h.releaseBefore segment
      exact ⟨removed', shelf, inv, Nat.le_succ _⟩
  | pin name segment => exact same (h.pin name segment)
  | pinUnchecked name segment => exact same (h.pinUnchecked name segment)
  | unpin name => exact same (h.unpin name)
  | openSession direct name start =>
      cases direct with
      | false => exact same (h.openSession (proper rfl) name)
      | true => exact same (h.openDirect name start)
  | readSession name count => exact same (h.readSession name count)
  | closeSession name => exact same (h.closeSession name)
  | dropSession name => exact same (h.dropSession name)
  | openSupply name maxGaps counter start => exact same (h.openSupply proper)
  | readSupply name count => exact same (h.readSupply name count)
  | dropSupply name => exact same (h.dropSupply name)

theorem Inv.run (h : Inv place scene removed shelf) {calls : List Call}
    (room : Place.Room (shelf.length + calls.length)) (proper : ProperRun calls scene) :
    ∃ removed' shelf', Inv place (Scene.run calls scene) removed' shelf' := by
  -- A call starts at most one segment, so there is room for one segment for each call.
  induction calls generalizing scene removed shelf with
  | nil => exact ⟨removed, shelf, h⟩
  | cons call calls ih =>
      obtain ⟨now, later⟩ := proper
      rw [List.length_cons] at room
      obtain ⟨removed', shelf', inv, le⟩ := h.step (room.mono (by omega)) now
      exact ih inv (room.mono (by omega)) later

theorem inv_start {v : Volume} (empty : place.Stocks v 0 []) : Inv place (start place v) 0 [] := by
  refine ⟨rfl, rfl, ⟨empty, List.nodup_nil, nofun, nofun, nofun, .inl rfl⟩, rfl, nofun, ?_, nofun⟩
  exact ⟨.nil, .nil, .nil, nofun⟩

/-- A client starts without segments and makes no more calls than there are indexes, each of which is
one step: nothing happens between the look at the pins in `releaseBefore` and the removals, or
between the listing of the segments for a session and its first pin. Then the records are in the
order of their pointers, and whatever was opened through the open log has never failed: it has given
the records from its start on, one after the other, and if it was told that nothing is left, it was
given all that were there when it was opened. -/
theorem run_served {v : Volume} (empty : place.Stocks v 0 []) {calls : List Call}
    (room : Place.Room calls.length) (proper : ProperRun calls (start place v)) :
    (run calls (start place v)).appended.Pairwise (·.1.address < ·.1.address) ∧
      ∀ feed w, (run calls (start place v)).watches feed = some w →
        w.Served (run calls (start place v)).appended := by
  obtain ⟨removed, shelf, inv⟩ := (inv_start empty).run (room.mono (by simp)) proper
  rw [← inv.items]
  exact ⟨inv.shelves.ascending, fun feed w watched => (inv.kept feed w watched).served⟩

/-- An update without payload. -/
def update (n : UInt64) : Record := .data ⟨⟨1⟩, ⟨0⟩⟩ n []

/-- A session also gets a record that was appended while it was open, and what it has left behind is
released before it has come to its end. -/
def releasing : List Call := [
  .openLog { segmentSize := 80, preallocate := true },
  .append (update 1), .append (update 2), .append (update 3),
  .openSession false "all" none, .openSupply "late" 8 none (some ⟨0, 42, 0⟩),
  .readSession "all" 1, .append (update 4), .rotate, .append (update 5), .releaseBefore 2,
  .readSession "all" 2, .readSupply "late" 1, .dropSupply "late", .releaseBefore 2,
  .readSession "all" 9, .openSession false "rest" none, .releaseBefore 2, .readSession "rest" 2]

/-- A folder that was opened for the first time. -/
def newFolder : Volume where
  contents := #[[]]
  files := [(["log"], .folder), (["log", Place.lockName], .file 0)]

theorem stocks_newFolder : (Place.folder ⟨"/log", ["log"]⟩ 0).Stocks newFolder 0 [] := by
  apply Place.stocks_folder
  · exact List.pairwise_pair.mpr (by decide)
  · rfl
  · intro name there
    by_contra other
    simp [newFolder, Table.get?, Ne.symm other] at there

/-- These calls are proper whatever comes of them. -/
def sharing : List Call := [
  .openLog {}, .append (update 1), .openSession false "all" none, .rotate, .append (update 2),
  .releaseBefore 1, .readSession "all" 2]

theorem run_served_releasing :
    ((∀ feed w, (run releasing (start .memory {})).watches feed = some w →
        w.Served (run releasing (start .memory {})).appended) ∧
      (run releasing (start .memory {})).listed = [1, 2] ∧
      (((run releasing (start .memory {})).watches (.session "all")).map fun w =>
        (w.given.map (·.2), w.due.length)) = some ([update 1, update 2, update 3, update 4], 3) ∧
      ((run releasing (start .memory {})).watches (.session "rest")).map
        (fun w => w.given.map (·.2)) = some [update 3, update 4]) ∧
    ∀ feed w, (run sharing (start (.folder ⟨"/log", ["log"]⟩ 0) newFolder)).watches feed = some w →
      w.Served (run sharing (start (.folder ⟨"/log", ["log"]⟩ 0) newFolder)).appended := by
  refine ⟨⟨(run_served (Place.stocks_memory rfl) (by decide) ?_).2, ?_, ?_, ?_⟩,
    (run_served stocks_newFolder (by decide) ?_).2⟩
  · decide +kernel
  · decide +kernel
  · decide +kernel
  · decide +kernel
  · simp [sharing, ProperRun, Proper, Known, update, Record.WellFormed]

/-- A session straight on the directory is left without the segment that it comes to next. -/
def unpinned : List Call := [
  .openLog {}, .append (update 1), .rotate, .append (update 2), .rotate, .append (update 3),
  .openSession true "bare" none, .releaseBefore 2]

/-- A checkpoint with an empty gap is written, but cannot be read. -/
def unreadable : List Call := [
  .openLog {}, .append (.checkpoint 1 [⟨⟨⟨1⟩, ⟨0⟩⟩, ⟨0, [⟨5, 0⟩]⟩⟩]), .rotate, .append (update 1),
  .openSession false "all" none]

theorem run_unserved :
    (answer (Client.readSession "bare" 2) (run unpinned (start .memory {})).client).map
        (fun r => (r.items.map (·.2), r.ending)) =
      .ok ([update 1], some (.failed (.segmentMissing 1))) ∧
    (answer (Client.readSession "all" 2) (run unreadable (start .memory {})).client).map
        (fun r => (r.items, r.ending)) =
      .ok ([], some (.failed (.record 0 15 (.format (.emptyGap 5))))) := by
  constructor
  · decide +kernel
  · decide +kernel

end Scene
end SegmentLog
