import SegmentLog.Proofs.Client.Request
import SegmentLog.Proofs.Log.Books

/-!
# Pins balance

What a client keeps of the open log holds its segments: a guard one, an open session the one it is
reading, a supply also the one it started in. The pin table is `Balanced` if it has one pin for each
of these and no entry beside. Whatever a client asks of its log, and whether that fails or not, the
table is balanced again afterwards (`balanced_serve`).
-/
namespace SegmentLog

/-! ## The table and what is kept -/

namespace Client
open Pins

/-- The pin table has a pin for each holder and so many more for what the client is about to keep,
and no entry beside. -/
structure Balanced (c : Client) (more : ℕ → ℕ) : Prop where
  guards : c.guards.Sorted
  sessions : c.sessions.Sorted
  supplies : c.supplies.Sorted
  pins : ∀ log ∈ c.log, log.ledger.pins.Tidy ∧ ∀ k, log.ledger.pins.count k = c.held k + more k

/-- From one client to another all was done aside, and the pins balance if they did before. -/
structure Tallies (c c' : Client) (more more' : ℕ → ℕ) : Prop where
  aside : c.Aside c'
  balanced : c.Balanced more → c'.Balanced more'

variable {α : Type} {c c₁ c' : Client} {more more' more'' : ℕ → ℕ} {name : String}

theorem Tallies.refl (c : Client) (more : ℕ → ℕ) : Tallies c c more more := ⟨.refl c, id⟩

theorem Tallies.trans (h : Tallies c c₁ more more') (h' : Tallies c₁ c' more' more'') :
    Tallies c c' more more'' :=
  ⟨h.aside.trans h'.aside, fun balanced => h'.balanced (h.balanced balanced)⟩

/-- The client keeps other things, and its ledger follows: what was gained is entered, and what is
no longer kept is taken off. -/
theorem Tallies.rebook {f : Ledger → Ledger} (gain old : ℕ → ℕ)
    (same : c₁.volume = c.volume ∧ c₁.place = c.place ∧ c₁.fused = c.fused ∧ c₁.log = c.log)
    (tables : c.Balanced more → c₁.guards.Sorted ∧ c₁.sessions.Sorted ∧ c₁.supplies.Sorted)
    (kept : c.Balanced more → ∀ k, c₁.held k + old k = c.held k + more k + gain k)
    (entries : ∀ l : Ledger, (l.pins.Tidy → (f l).pins.Tidy) ∧
      ∀ k, (f l).pins.count k = l.pins.count k + gain k - old k) :
    Tallies c (c₁.relog f) more 0 := by
  obtain ⟨volume, place, fused, log⟩ := same
  refine ⟨.relog volume place fused log f, fun h => ?_⟩
  obtain ⟨guards, sessions, supplies⟩ := tables h
  refine ⟨guards, sessions, supplies, ?_⟩
  intro log' hl
  obtain ⟨before, found, rfl⟩ := Option.map_eq_some_iff.mp hl
  obtain ⟨tidy, count⟩ := h.pins before (log ▸ found)
  obtain ⟨tidy', count'⟩ := entries before.ledger
  refine ⟨tidy' tidy, fun k => ?_⟩
  have := kept h k
  change (f before.ledger).pins.count k = c₁.held k + 0
  rw [count', count]
  omega

/-- Holders of this kind have these shares, and what is entered takes just a share off. -/
def Frees (f : α → Ledger → Ledger) (share : ℕ → α → ℕ) : Prop :=
  ∀ a l, (l.pins.Tidy → (f a l).pins.Tidy) ∧ ∀ k, (f a l).pins.count k = l.pins.count k - share k a

theorem frees_unpin : Frees (fun segment l => l.unpin segment) guardShare :=
  fun segment l => ⟨fun tidy => tidy.unpin segment, (givesUp_unpin segment l).2⟩

theorem frees_release : Frees (fun s l => l.release s) sessionShare :=
  fun s l => ⟨fun tidy => Ledger.tidy_movePin tidy .., (givesUp_release s l).2⟩

theorem frees_dismiss : Frees dismiss supplyShare :=
  fun s l => ⟨fun tidy => (Ledger.tidy_movePin tidy ..).unpin _, (givesUp_dismiss s l).2⟩

/-- What is about to be kept replaces something that is given up. -/
theorem Tallies.replace {f : α → Ledger → Ledger} {share : ℕ → α → ℕ} {old : Option (Held α)}
    (frees : Frees f share)
    (same : c₁.volume = c.volume ∧ c₁.place = c.place ∧ c₁.fused = c.fused ∧ c₁.log = c.log)
    (tables : c.Balanced more → c₁.guards.Sorted ∧ c₁.sessions.Sorted ∧ c₁.supplies.Sorted)
    (kept : c.Balanced more → ∀ k,
      c₁.held k + old.elim 0 (Held.weigh (share k)) = c.held k + more k) :
    Tallies c (c₁.relog (settle f old)) more 0 := by
  refine .rebook 0 _ same tables kept fun l => ?_
  cases old with
  | none => exact ⟨id, fun _ => rfl⟩
  | some held =>
      obtain ⟨a, counted⟩ := held
      cases counted with
      | true => exact frees a l
      | false => exact ⟨id, fun _ => rfl⟩

/-! ### Guards -/

theorem tallies_keepGuard (c : Client) (segment : ℕ) :
    Tallies c (final (keepGuard name segment) c) (guardShare · segment) 0 := by
  rw [final_of_ok (keepGuard_run ..)]
  exact .replace frees_unpin ⟨rfl, rfl, rfl, rfl⟩
    (fun h => ⟨Table.insert_sorted h.guards .., h.sessions, h.supplies⟩)
    fun h => held_insert_guard h.guards ⟨segment, true⟩

theorem tallies_unpin (c : Client) : Tallies c (final (unpin name) c) 0 0 := by
  rw [unpin_final]
  refine .replace frees_unpin ⟨rfl, rfl, rfl, rfl⟩
    (fun h => ⟨h.guards.erase name, h.sessions, h.supplies⟩) fun h k => ?_
  have := Table.total_erase h.guards name (Held.weigh (guardShare k))
  simp only [held, Pi.zero_apply]
  omega

/-! ### Sessions -/

theorem tallies_keptSession (c : Client) (name : String) (held : Held Session) :
    Tallies c ({ c with sessions := c.sessions.insert name held }.relog
      (settle (fun s l => l.release s) (c.sessions.get? name)))
      (fun k => held.weigh (sessionShare k)) 0 :=
  .replace frees_release ⟨rfl, rfl, rfl, rfl⟩
    (fun h => ⟨h.guards, Table.insert_sorted h.sessions .., h.supplies⟩)
    fun h => held_insert_session h.sessions held

theorem tallies_dropSession (c : Client) : Tallies c (final (dropSession name) c) 0 0 := by
  rw [dropSession_final]
  refine .replace frees_release ⟨rfl, rfl, rfl, rfl⟩
    (fun h => ⟨h.guards, h.sessions.erase name, h.supplies⟩) fun h k => ?_
  have := Table.total_erase h.sessions name (Held.weigh (sessionShare k))
  simp only [held, Pi.zero_apply]
  omega

theorem tallies_closeSession (c : Client) : Tallies c (final (closeSession name) c) 0 0 := by
  cases found : c.sessions.get? name with
  | none =>
      have absent : closeSession name c = .error .absent c := run_bind_of_error (need_of_none found)
      rw [final_of_error absent]
      exact .refl c 0
  | some held =>
      rw [final_of_ok (closeSession_run found), ← found]
      have closed (k : ℕ) : Held.weigh (sessionShare k) ⟨held.value.close, held.counted⟩ = 0 := by
        simp [Held.weigh, sessionShare, share, Session.current?, Session.close]
      have tallies := tallies_keptSession c name ⟨held.value.close, held.counted⟩
      rwa [funext closed] at tallies

/-- What a session gives moves its pin. -/
theorem entries_follow (s : Session) (counted : Bool) (r : Reading) (l : Ledger) :
    (l.pins.Tidy → (settle (fun s l => l.follow s r) (some ⟨s, counted⟩) l).pins.Tidy) ∧
      ∀ k, (settle (fun s l => l.follow s r) (some ⟨s, counted⟩) l).pins.count k =
        l.pins.count k + Held.weigh (sessionShare k) ⟨r.session, counted⟩ -
          Held.weigh (sessionShare k) ⟨s, counted⟩ := by
  cases counted with
  | true => exact ⟨fun tidy => Ledger.tidy_follow tidy s r, l.count_follow s r⟩
  | false => exact ⟨id, fun _ => rfl⟩

theorem tallies_readSession (c : Client) (count : ℕ) :
    Tallies c (final (readSession name count) c) 0 0 := by
  cases found : c.sessions.get? name with
  | none =>
      have absent : readSession name count c = .error .absent c :=
        run_bind_of_error (need_of_none found)
      rw [final_of_error absent]
      exact .refl c 0
  | some held =>
      rw [final_of_ok (readSession_run found count)]
      refine .rebook _ _ ⟨rfl, rfl, rfl, rfl⟩
        (fun h => ⟨h.guards, Table.insert_sorted h.sessions .., h.supplies⟩) (fun h k => ?_)
        (entries_follow held.value held.counted _)
      have kept := @held_insert_session c name h.sessions
        ⟨(held.value.take c.volume count).session, held.counted⟩ k
      rw [found] at kept
      exact kept

/-! ### Supplies -/

theorem tallies_keptSupply (c : Client) (supply : Rebalance.Supply) :
    Tallies c ({ c with supplies := c.supplies.insert name ⟨supply, true⟩ }.relog
      (settle dismiss (c.supplies.get? name))) (supplyShare · supply) 0 :=
  .replace frees_dismiss ⟨rfl, rfl, rfl, rfl⟩
    (fun h => ⟨h.guards, h.sessions, Table.insert_sorted h.supplies ..⟩)
    fun h => held_insert_supply h.supplies ⟨supply, true⟩

theorem tallies_dropSupply (c : Client) : Tallies c (final (dropSupply name) c) 0 0 := by
  rw [dropSupply_final]
  refine .replace frees_dismiss ⟨rfl, rfl, rfl, rfl⟩
    (fun h => ⟨h.guards, h.sessions, h.supplies.erase name⟩) fun h k => ?_
  have := Table.total_erase h.supplies name (Held.weigh (supplyShare k))
  simp only [held, Pi.zero_apply]
  omega

theorem tallies_readSupply (c : Client) (count : ℕ) :
    Tallies c (final (readSupply name count) c) 0 0 := by
  cases found : c.supplies.get? name with
  | none =>
      have absent : readSupply name count c = .error .absent c :=
        run_bind_of_error (need_of_none found)
      rw [final_of_error absent]
      exact .refl c 0
  | some held =>
      rw [final_of_ok (readSupply_run found count)]
      refine .rebook _ _ ⟨rfl, rfl, rfl, rfl⟩
        (fun h => ⟨h.guards, h.sessions, Table.insert_sorted h.supplies ..⟩) (fun h k => ?_)
        (entries_follow held.value.session held.counted _)
      have kept := @held_insert_supply c name h.supplies
        ⟨⟨(held.value.session.take c.volume count).session, held.value.pinned⟩, held.counted⟩ k
      have before : held.weigh (supplyShare k) = _ := weigh_supply held.value held.counted k
      rw [found] at kept
      simp only [Option.elim, before, weigh_supply, Pi.zero_apply] at kept ⊢
      omega

/-! ### Work with the log -/

/-- A call that is done aside: pins are entered for what it gives, and none if it fails. -/
def Yields (x : ClientM α) (share : α → ℕ → ℕ) : Prop :=
  ∀ c, (∃ a c', x c = .ok a c' ∧ Tallies c c' 0 (share a)) ∨
    ∃ refusal c', x c = .error refusal c' ∧ Tallies c c' 0 0

theorem Yields.final {x : ClientM α} (h : Yields x fun _ => 0) (c : Client) :
    Tallies c (final x c) 0 0 := by
  rcases h c with ⟨a, c', done, tallies⟩ | ⟨refusal, c', refused, tallies⟩
  · exact final_of_ok done ▸ tallies
  · exact final_of_error refused ▸ tallies

theorem Yields.final_bind {β : Type} {x : ClientM α} {share : α → ℕ → ℕ} (h : Yields x share)
    {f : α → ClientM β} (keeps : ∀ a c, Tallies c (SegmentLog.final (f a) c) (share a) 0)
    (c : Client) : Tallies c (SegmentLog.final (x >>= f) c) 0 0 := by
  rcases h c with ⟨a, c', done, tallies⟩ | ⟨refusal, c', refused, tallies⟩
  · exact final_bind_of_ok done ▸ tallies.trans (keeps a c')
  · exact final_of_error (run_bind_of_error refused) ▸ tallies

theorem tallies_entered {log : Log} {l : Ledger} (hl : c.log = some log)
    (enters : Log.Enters log.ledger l more) : Tallies c (c.relog fun _ => l) 0 more := by
  refine ⟨.relog rfl rfl rfl rfl _, fun h => ⟨h.guards, h.sessions, h.supplies, ?_⟩⟩
  intro log' found
  rw [relog, hl] at found
  cases found
  obtain ⟨tidy, count⟩ := h.pins log hl
  refine ⟨enters.tidy tidy, fun k => (enters.count k).trans ?_⟩
  rw [count]
  rfl

theorem yields_onLog {x : LogM α} {share : α → ℕ → ℕ} (books : Log.Books x share) :
    Yields (onLog x) share := by
  intro c
  cases hl : c.log with
  | none => exact .inr ⟨.absent, c, onLog_of_none hl, .refl c 0⟩
  | some log =>
      rcases books (c.volume, log) with ⟨a, l, done, enters⟩ | ⟨e, l, failed, enters⟩
      · exact .inl ⟨a, _, Scene.onLog_book_ok hl done, tallies_entered hl enters⟩
      · exact .inr ⟨.failed e, _, Scene.onLog_book_error hl failed, tallies_entered hl enters⟩

theorem tallies_pin (segment : ℕ) (c : Client) : Tallies c (final (pin name segment) c) 0 0 :=
  (yields_onLog (Log.books_pin segment)).final_bind (fun _ c => tallies_keepGuard c segment) c

theorem tallies_pinUnchecked (segment : ℕ) (c : Client) :
    Tallies c (final (pinUnchecked name segment) c) 0 0 :=
  (yields_onLog (Log.books_enterPin segment)).final_bind (fun _ c => tallies_keepGuard c segment) c

theorem need_cases (f : Client → Option α) (c : Client) :
    (∃ a, need f c = .ok a c) ∨ need f c = .error .absent c := by
  cases found : f c with
  | none => exact .inr (need_of_none found)
  | some a => exact .inl ⟨a, need_of_some found⟩

section
variable (direct : Bool) (start stop : Option Pointer)

/-- A session straight on the directory needs no pin. -/
theorem yields_openSession : Yields (openSession direct start stop)
    fun s k => Held.weigh (sessionShare k) ⟨s, !direct⟩ := by
  cases direct with
  | false => exact yields_onLog (Log.books_replayRange start stop)
  | true =>
      intro c
      rw [openSession, if_pos rfl]
      rcases need_cases _ c with ⟨d, found⟩ | absent
      · have found : getDirectory c = .ok d c := found
        have volume : getVolume c = .ok c.volume c := rfl
        rw [run_bind_of_ok found, run_bind_of_ok volume]
        cases Session.openRange d c.volume Session.defaultBufferSize start stop with
        | ok s => exact .inl ⟨s, c, rfl, .refl c 0⟩
        | error e => exact .inr ⟨.failed e, c, rfl, .refl c 0⟩
      · exact .inr ⟨.absent, c, run_bind_of_error absent, .refl c 0⟩

theorem tallies_keepSession (c : Client) :
    Tallies c (final (keepSession name direct start stop) c) 0 0 := by
  rcases yields_openSession direct start stop c with
    ⟨s, c', opened, tallies⟩ | ⟨refusal, c', refused, tallies⟩
  · rw [final_of_ok (keepSession_run opened)]
    exact tallies.trans (tallies_keptSession c' name ⟨s, !direct⟩)
  · have refused : keepSession name direct start stop c = .error refusal c' :=
      run_bind_of_error refused
    rw [final_of_error refused]
    exact tallies

/-- The pin of a session that is read to its end at once is given up at once. -/
theorem tallies_readAll (c : Client) : Tallies c (final (readAll direct start stop) c) 0 0 := by
  refine (yields_openSession direct start stop).final_bind (fun s c => ?_) c
  have volume : getVolume c = .ok c.volume c := rfl
  rw [final_bind_of_ok volume, final_bind_of_ok (enter_run (fun (s : Session) l =>
    (l.follow s (s.drain c.volume)).release (s.drain c.volume).session) ⟨s, !direct⟩ c)]
  refine .rebook 0 (fun k => Held.weigh (sessionShare k) ⟨s, !direct⟩)
    ⟨rfl, rfl, rfl, rfl⟩ (fun h => ⟨h.guards, h.sessions, h.supplies⟩) (fun _ _ => rfl) fun l => ?_
  cases direct with
  | true => exact ⟨id, fun _ => rfl⟩
  | false =>
      obtain ⟨tidy, count⟩ := entries_follow s true (s.drain c.volume) l
      obtain ⟨tidy', count'⟩ := frees_release (s.drain c.volume).session
        (l.follow s (s.drain c.volume))
      refine ⟨fun h => tidy' (tidy h), fun k => (count' k).trans ?_⟩
      have := count k
      simp only [settle, Held.weigh, Bool.not_false, if_true, Pi.zero_apply] at *
      omega

end

theorem tallies_openHistory (maxGaps : ℕ) (snapshot : Option Snapshot) (start : Option Pointer)
    (c : Client) : Tallies c (final (openHistory name maxGaps snapshot start) c) 0 0 := by
  rcases Scene.counterOf_cases snapshot c with ⟨counter, counted⟩ | ⟨refusal, refused⟩
  · rcases yields_onLog (Rebalance.books_openHistory maxGaps counter start) c with
      ⟨offer, c', opened, tallies⟩ | ⟨refusal, c', refused, tallies⟩
    · cases offer with
      | historical supply =>
          rw [final_of_ok (openHistory_run counted opened)]
          exact tallies.trans (tallies_keptSupply c' supply)
      | full reason =>
          have done : openHistory name maxGaps snapshot start c = .ok (.full reason) c' :=
            (run_bind_of_ok counted).trans ((run_bind_of_ok opened).trans rfl)
          rw [final_of_ok done]
          exact tallies
    · have refused : openHistory name maxGaps snapshot start c = .error refusal c' :=
        (run_bind_of_ok counted).trans (run_bind_of_error refused)
      rw [final_of_error refused]
      exact tallies
  · have refused : openHistory name maxGaps snapshot start c = .error refusal c :=
      run_bind_of_error refused
    rw [final_of_error refused]
    exact .refl c 0

end Client

/-! ## Runs -/

namespace Client
variable {c : Client}

theorem Balanced.onLog {α : Type} {x : LogM α} (h : c.Balanced 0) (keeps : Log.KeepsPins x) :
    (final (onLog x) c).Balanced 0 := by
  cases hl : c.log with
  | none => rwa [final_of_error (onLog_of_none hl)]
  | some log =>
      rw [Scene.final_onLog hl]
      refine ⟨h.guards, h.sessions, h.supplies, ?_⟩
      rintro _ ⟨⟩
      rw [keeps (c.volume, log)]
      exact h.pins log hl

theorem Balanced.logless (h : c.Balanced 0) : c.logless.Balanced 0 :=
  ⟨sorted_discount h.guards, sorted_discount h.sessions, sorted_discount h.supplies, nofun⟩

theorem Balanced.openLog (h : c.Balanced 0) (config : Log.Config) :
    (final (openLog config) c).Balanced 0 := by
  rcases need_cases _ c with ⟨d, found⟩ | absent
  · have found : getDirectory c = .ok d c := found
    rw [Client.openLog, final_bind_of_ok found, final_bind_of_ok c.closeLog_logless]
    obtain ⟨guards, sessions, supplies, -⟩ := h.logless
    cases opened : Log.openIn d config c.logless.volume with
    | ok log v' =>
        rw [final_bind_of_ok (run_lift_of_ok opened), final_bind_of_ok (modify_run ..)]
        refine ⟨guards, sessions, supplies, ?_⟩
        rintro _ ⟨⟩
        rw [Log.openIn_free opened]
        exact ⟨Pins.tidy_nil, fun k => (c.held_logless k).symm⟩
    | error e v' =>
        rw [final_of_error (run_bind_of_error (run_lift_of_error opened))]
        refine ⟨guards, sessions, supplies, ?_⟩
        rintro _ ⟨⟩
  · have absent : Client.openLog config c = .error .absent c := run_bind_of_error absent
    rwa [final_of_error absent]

end Client

namespace Scene
variable {scene : Scene}

theorem client_opening {α : Type} (scene : Scene) (feed : Feed) (watch : Option Watch)
    (x : ClientM α) (opens : α → Bool) :
    (scene.opening feed watch x opens).client = final x scene.client := by
  unfold opening
  cases done : x scene.client with
  | ok a c =>
      rw [final_of_ok done]
      dsimp only
      split
      · rfl
      · rfl
  | error refusal c => rw [final_of_error done]

theorem client_append (scene : Scene) (record : Record) :
    (scene.append record).client = final (Client.onLog (Log.append record)) scene.client := by
  unfold Scene.append
  cases done : Client.onLog (Log.append record) scene.client with
  | ok p c => rw [final_of_ok done]
  | error refusal c => rw [final_of_error done]

/-- What is not work on the segments is done aside, and the pins balance. -/
theorem tallies_ask (scene : Scene) (request : Request) (aside : ¬request.Works) :
    scene.client.Tallies (scene.ask request).client 0 0 := by
  cases request with
  | call call =>
      cases call with
      | openLog config => exact absurd trivial aside
      | closeLog => exact absurd trivial aside
      | append record => exact absurd trivial aside
      | flush => exact absurd trivial aside
      | rotate => exact absurd trivial aside
      | releaseBefore segment => exact absurd trivial aside
      | pin name segment => exact Client.tallies_pin segment _
      | pinUnchecked name segment => exact Client.tallies_pinUnchecked segment _
      | unpin name => exact Client.tallies_unpin _
      | openSession direct name start =>
          exact client_opening .. ▸ Client.tallies_keepSession direct start none _
      | readSession name count => exact Client.tallies_readSession _ count
      | closeSession name => exact Client.tallies_closeSession _
      | dropSession name => exact Client.tallies_dropSession _
      | openSupply name maxGaps counter start =>
          exact client_opening .. ▸ Client.tallies_openHistory maxGaps counter start _
      | readSupply name count => exact Client.tallies_readSupply _ count
      | dropSupply name => exact Client.tallies_dropSupply _
  | openRange direct name start stop =>
      exact client_opening .. ▸ Client.tallies_keepSession direct start stop _
  | readAll direct start stop => exact Client.tallies_readAll direct start stop _
  | readRecord p => exact (Client.yields_onLog (Log.books_read _)).final _
  | resolve record => exact (Client.yields_onLog (Log.books_read _)).final _

theorem balanced_ask (h : scene.client.Balanced 0) (request : Request) :
    (scene.ask request).client.Balanced 0 := by
  by_cases works : request.Works
  · cases request with
    | call call =>
        cases call with
        | openLog config => exact h.openLog config
        | closeLog => exact h.logless
        | append record => exact client_append .. ▸ h.onLog (Log.keepsPins_append record)
        | flush => exact h.onLog Log.keepsPins_flush
        | rotate => exact h.onLog Log.keepsPins_rotate
        | releaseBefore segment => exact h.onLog (Log.keepsPins_releaseBefore segment)
        | _ => exact works.elim
    | _ => exact works.elim
  · exact (tallies_ask scene request works).balanced h

theorem balanced_serve (h : scene.client.Balanced 0) (requests : List Request) :
    (serve requests scene).client.Balanced 0 := by
  induction requests generalizing scene with
  | nil => exact h
  | cons request requests ih => exact ih (balanced_ask h request)

theorem balanced_start (place : Place) (v : Volume) : (start place v).client.Balanced 0 :=
  ⟨.nil, .nil, .nil, nofun⟩

end Scene
end SegmentLog
