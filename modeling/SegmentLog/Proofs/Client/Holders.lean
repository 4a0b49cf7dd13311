import Mathlib.Algebra.Order.BigOperators.Group.List
import Mathlib.Algebra.Order.Ring.Nat
import SegmentLog.Proofs.Client.Run
import SegmentLog.Proofs.Directory.Stock
import SegmentLog.Proofs.Ledger.Pins

/-!
# Who holds the segments

The pins of a log count the holders of each segment. Everything that a client keeps of the open log
is entered there, so no segment has fewer pins than the client has holders of it: `Accounted`. A
release stops at the lowest pin, so it passes none of them.
-/
namespace SegmentLog

/-! ## Sums over tables -/

namespace Table
variable {α : Type} {t : Table String α} {name : String}

/-- The sum of a figure of all values. -/
def total (t : Table String α) (f : α → ℕ) : ℕ := (t.map fun e => f e.2).sum

theorem le_total {a : α} (h : t.get? name = some a) (f : α → ℕ) : f a ≤ t.total f := by
  obtain ⟨e, found, rfl⟩ := Option.map_eq_some_iff.mp h
  exact List.single_le_sum (fun _ _ => Nat.zero_le _) _
    (List.mem_map_of_mem (f := fun e => f e.2) (List.mem_of_find?_eq_some found))

theorem erase_of_lt (h : ∀ e ∈ t, name < e.1) : t.erase name = t ∧ t.get? name = none := by
  have other : ∀ e ∈ t, e.1 ≠ name := by
    intro e he same
    exact lt_irrefl name (same ▸ h e he)
  constructor
  · apply List.filter_eq_self.mpr
    intro e he
    simpa using other e he
  · rw [get?, List.find?_eq_none.mpr fun e he => by simpa using other e he]
    rfl

theorem erase_of_get? (h : t.get? name = none) : t.erase name = t := by
  apply List.filter_eq_self.mpr
  intro e he
  have absent := List.find?_eq_none.mp (Option.map_eq_none_iff.mp h) e he
  simpa using absent

theorem insert_sorted (h : t.Sorted) (name : String) (a : α) : (t.insert name a).Sorted :=
  h.insert (fun h h' => lt_trans h h') (fun h h' => lt_of_le_of_ne (not_lt.mp h) (Ne.symm h')) ..

theorem total_erase (h : t.Sorted) (name : String) (f : α → ℕ) :
    total (t.erase name) f + (t.get? name).elim 0 f = t.total f := by
  induction t with
  | nil => rfl
  | cons e es ih =>
      obtain ⟨above, sorted⟩ := List.pairwise_cons.mp h
      have rest := ih sorted
      by_cases same : e.1 = name
      · subst same
        have erased : erase (e :: es) e.1 = es :=
          (List.filter_cons_of_neg (by simp)).trans (erase_of_lt above).1
        rw [erased, get?_cons, if_pos rfl]
        exact (Nat.add_comm _ _).trans List.sum_cons.symm
      · have kept : erase (e :: es) name = e :: erase es name :=
          List.filter_cons_of_pos (by simpa using same)
        rw [kept, get?_cons, if_neg same]
        simp only [total, List.map_cons, List.sum_cons] at *
        omega

theorem total_insert (h : t.Sorted) (name : String) (a : α) (f : α → ℕ) :
    total (t.insert name a) f + (t.get? name).elim 0 f = t.total f + f a := by
  induction t with
  | nil => simp [insert, total]
  | cons e es ih =>
      obtain ⟨above, sorted⟩ := List.pairwise_cons.mp h
      have rest := ih sorted
      unfold insert
      by_cases lower : name < e.1
      · have absent : get? (e :: es) name = none := (erase_of_lt fun e' he' => by
          rcases List.mem_cons.mp he' with rfl | he'
          · exact lower
          · exact lt_trans lower (above e' he')).2
        rw [if_pos lower, absent]
        simp only [total, List.map_cons, List.sum_cons, Option.elim]
        omega
      rw [if_neg lower]
      by_cases same : name = e.1
      · subst same
        rw [if_pos rfl, get?_cons, if_pos rfl]
        simp only [total, List.map_cons, List.sum_cons, Option.elim]
        omega
      · rw [if_neg same, get?_cons, if_neg (Ne.symm same)]
        simp only [total, List.map_cons, List.sum_cons] at *
        omega

end Table

/-! ## What a client keeps -/

/-- The part of a holder that counts. -/
def Held.weigh {α : Type} (f : α → ℕ) (h : Held α) : ℕ := if h.counted then f h.value else 0

namespace Client
open Pins

/-- The pins that a session needs on a segment. -/
def sessionShare (k : ℕ) (s : Session) : ℕ := share s.current? k

def guardShare (k segment : ℕ) : ℕ := share (some segment) k

def supplyShare (k : ℕ) (s : Rebalance.Supply) : ℕ :=
  share s.session.current? k + share (some s.pinned) k

/-- The holders of a segment among what the client keeps of the open log. -/
def held (c : Client) (k : ℕ) : ℕ :=
  c.guards.total (Held.weigh (guardShare k)) + c.sessions.total (Held.weigh (sessionShare k)) +
    c.supplies.total (Held.weigh (supplyShare k))

/-- Every holder has a pin, and there are so many more for what the client is about to keep. -/
structure Accounted (c : Client) (more : ℕ → ℕ) : Prop where
  guards : c.guards.Sorted
  sessions : c.sessions.Sorted
  supplies : c.supplies.Sorted
  pins : ∀ log ∈ c.log, log.ledger.pins.Sorted ∧
    ∀ k, c.held k + more k ≤ log.ledger.pins.count k

/-- The same client with another ledger. -/
def relog (c : Client) (f : Ledger → Ledger) : Client :=
  { c with log := c.log.map fun log => { log with ledger := f log.ledger } }

/-- Enter that a holder was given up, if there was one and it counted. -/
def settle {α : Type} (f : α → Ledger → Ledger) (old : Option (Held α)) (l : Ledger) : Ledger :=
  match old with
  | none => l
  | some h => if h.counted then f h.value l else l

variable {c : Client} {name : String}

theorem relog_settle_none {α : Type} (f : α → Ledger → Ledger) (c : Client) :
    c.relog (settle f none) = c := by
  obtain ⟨volume, place, fused, log, stores, guards, sessions, supplies⟩ := c
  cases log <;> rfl

theorem enter_run {α : Type} (f : α → Ledger → Ledger) (h : Held α) (c : Client) :
    enter h.counted (f h.value) c = .ok () (c.relog (settle f (some h))) := by
  obtain ⟨a, counted⟩ := h
  cases counted with
  | true => rfl
  | false => exact congrArg (EStateM.Result.ok ()) (relog_settle_none f c).symm

/-- Holders of this kind have these shares, and what is entered takes a share off. -/
def GivesUp {α : Type} (f : α → Ledger → Ledger) (share : ℕ → α → ℕ) : Prop :=
  ∀ a l, (l.pins.Sorted → (f a l).pins.Sorted) ∧
    ∀ k, (f a l).pins.count k = l.pins.count k - share k a

theorem GivesUp.settle {α : Type} {f : α → Ledger → Ledger} {share : ℕ → α → ℕ}
    (h : GivesUp f share) (old : Option (Held α)) (l : Ledger) :
    (l.pins.Sorted → (settle f old l).pins.Sorted) ∧
      ∀ k, (Client.settle f old l).pins.count k =
        l.pins.count k - old.elim 0 (Held.weigh (share k)) := by
  cases old with
  | none => exact ⟨id, fun _ => rfl⟩
  | some held =>
      obtain ⟨a, counted⟩ := held
      cases counted with
      | true => exact h a l
      | false => exact ⟨id, fun _ => rfl⟩

theorem givesUp_unpin : GivesUp (fun segment l => l.unpin segment) guardShare := by
  intro segment l
  refine ⟨fun sorted => sorted_unpin sorted segment, fun k => ?_⟩
  simp [Ledger.unpin, count_unpin, guardShare, share]

theorem givesUp_release : GivesUp (fun s l => l.release s) sessionShare := by
  intro s l
  refine ⟨fun sorted => Ledger.sorted_movePin sorted .., fun k => ?_⟩
  simp [Ledger.release, Ledger.count_movePin, sessionShare, share]

/-- The pins of a supply are given up. -/
def dismiss (s : Rebalance.Supply) (l : Ledger) : Ledger := (l.release s.session).unpin s.pinned

theorem givesUp_dismiss : GivesUp dismiss supplyShare := by
  intro s l
  obtain ⟨sorted, count⟩ := givesUp_release s.session l
  obtain ⟨sorted', count'⟩ := givesUp_unpin s.pinned (l.release s.session)
  refine ⟨fun h => sorted' (sorted h), fun k => (count' k).trans ?_⟩
  rw [count, Nat.sub_sub]
  rfl

/-! ## Effects -/

theorem get_run (c : Client) : (get : ClientM Client) c = .ok c c := rfl

theorem modify_run (f : Client → Client) (c : Client) :
    (modify f : ClientM Unit) c = .ok () (f c) := rfl

theorem keepGuard_run (segment : ℕ) (c : Client) :
    keepGuard name segment c = .ok ()
      ({ c with guards := c.guards.insert name ⟨segment, true⟩ }.relog
        (settle (fun segment l => l.unpin segment) (c.guards.get? name))) := by
  unfold keepGuard
  rw [run_bind_of_ok (get_run c), run_bind_of_ok (modify_run ..)]
  cases c.guards.get? name with
  | none =>
      rw [relog_settle_none]
      rfl
  | some h => exact enter_run (fun segment l => l.unpin segment) h _

theorem unpin_final (c : Client) : final (unpin name) c =
    { c with guards := Table.erase c.guards name }.relog
      (settle (fun segment l => l.unpin segment) (c.guards.get? name)) := by
  unfold unpin
  rw [final_bind_of_ok (get_run c)]
  cases found : c.guards.get? name with
  | none =>
      rw [relog_settle_none, Table.erase_of_get? found]
      rfl
  | some h =>
      dsimp only
      rw [final_bind_of_ok (modify_run ..),
        final_bind_of_ok (enter_run (fun segment l => l.unpin segment) h _)]
      rfl

/-! ### Sessions -/

theorem keepSession_run {direct : Bool} {start stop : Option Pointer} {s : Session} {c' : Client}
    (opened : openSession direct start stop c = .ok s c') :
    keepSession name direct start stop c = .ok s
      ({ c' with sessions := c'.sessions.insert name ⟨s, !direct⟩ }.relog
        (settle (fun s l => l.release s) (c'.sessions.get? name))) := by
  unfold keepSession
  rw [run_bind_of_ok opened, run_bind_of_ok (get_run c')]
  dsimp only
  rw [run_bind_of_ok (modify_run ..)]
  cases c'.sessions.get? name with
  | none =>
      rw [relog_settle_none]
      rfl
  | some h => exact run_bind_of_ok (enter_run (fun s l => l.release s) h _)

section
variable {h : Held Session} (found : c.sessions.get? name = some h)
include found

theorem getSession_run : getSession name c = .ok h c := need_of_some found

theorem readSession_run (count : ℕ) :
    readSession name count c = .ok (h.value.take c.volume count)
      ({ c with sessions :=
          c.sessions.insert name ⟨(h.value.take c.volume count).session, h.counted⟩ }.relog
        (settle (fun s l => l.follow s (h.value.take c.volume count)) (some h))) := by
  unfold readSession
  rw [run_bind_of_ok (getSession_run found),
    run_bind_of_ok (show getVolume c = .ok c.volume c from rfl), run_bind_of_ok (modify_run ..)]
  exact run_bind_of_ok (enter_run (fun s l => l.follow s (h.value.take c.volume count)) h _)

theorem closeSession_run :
    closeSession name c = .ok h.value.close
      ({ c with sessions := c.sessions.insert name ⟨h.value.close, h.counted⟩ }.relog
        (settle (fun s l => l.release s) (some h))) := by
  unfold closeSession
  rw [run_bind_of_ok (getSession_run found), run_bind_of_ok (modify_run ..)]
  exact run_bind_of_ok (enter_run (fun s l => l.release s) h _)

end

theorem dropSession_final (c : Client) : final (dropSession name) c =
    { c with sessions := Table.erase c.sessions name }.relog
      (settle (fun s l => l.release s) (c.sessions.get? name)) := by
  unfold dropSession
  rw [final_bind_of_ok (get_run c)]
  cases found : c.sessions.get? name with
  | none =>
      rw [relog_settle_none, Table.erase_of_get? found]
      rfl
  | some h =>
      dsimp only
      rw [final_bind_of_ok (modify_run ..),
        final_bind_of_ok (enter_run (fun s l => l.release s) h _)]
      rfl

/-! ### Supplies -/

theorem openHistory_run {maxGaps : ℕ} {snapshot : Option Snapshot} {start : Option Pointer}
    {counter : Counter} {supply : Rebalance.Supply} {c' : Client}
    (counted : counterOf snapshot c = .ok counter c)
    (opened : onLog (Rebalance.openHistory maxGaps counter start) c = .ok (.historical supply) c') :
    openHistory name maxGaps snapshot start c = .ok (.historical supply)
      ({ c' with supplies := c'.supplies.insert name ⟨supply, true⟩ }.relog
        (settle dismiss (c'.supplies.get? name))) := by
  unfold openHistory
  rw [run_bind_of_ok counted, run_bind_of_ok opened]
  dsimp only
  rw [run_bind_of_ok (get_run c'), run_bind_of_ok (modify_run ..)]
  cases c'.supplies.get? name with
  | none =>
      rw [relog_settle_none]
      rfl
  | some h => exact run_bind_of_ok (enter_run dismiss h _)

theorem readSupply_run {h : Held Rebalance.Supply} (found : c.supplies.get? name = some h)
    (count : ℕ) :
    readSupply name count c = .ok (h.value.session.take c.volume count)
      ({ c with supplies :=
          c.supplies.insert name ⟨⟨(h.value.session.take c.volume count).session, h.value.pinned⟩,
            h.counted⟩ }.relog
        (settle (fun (s : Rebalance.Supply) l =>
          l.follow s.session (h.value.session.take c.volume count)) (some h))) := by
  unfold readSupply
  rw [run_bind_of_ok (need_of_some found),
    run_bind_of_ok (show getVolume c = .ok c.volume c from rfl), run_bind_of_ok (modify_run ..)]
  exact run_bind_of_ok (enter_run (fun (s : Rebalance.Supply) l =>
    l.follow s.session (h.value.session.take c.volume count)) h _)

theorem dropSupply_final (c : Client) : final (dropSupply name) c =
    { c with supplies := Table.erase c.supplies name }.relog
      (settle dismiss (c.supplies.get? name)) := by
  unfold dropSupply
  rw [final_bind_of_ok (get_run c)]
  cases found : c.supplies.get? name with
  | none =>
      rw [relog_settle_none, Table.erase_of_get? found]
      rfl
  | some h =>
      dsimp only
      rw [final_bind_of_ok (modify_run ..),
        final_bind_of_ok (show releaseSupply h _ = _ from enter_run dismiss h _)]
      rfl

/-! ## The account -/

variable {more more' : ℕ → ℕ}

/-- The client keeps something new instead of something old, and its ledger follows. -/
theorem Accounted.rebook (h : c.Accounted more) {c' : Client} {f : Ledger → Ledger}
    {new old : ℕ → ℕ} (log : c'.log = c.log)
    (tables : c'.guards.Sorted ∧ c'.sessions.Sorted ∧ c'.supplies.Sorted)
    (kept : ∀ k, c'.held k + old k = c.held k + new k)
    (sorted : ∀ l : Ledger, l.pins.Sorted → (f l).pins.Sorted)
    (count : ∀ (l : Ledger) k,
      l.pins.count k + new k + more' k ≤ (f l).pins.count k + old k + more k) :
    (c'.relog f).Accounted more' := by
  obtain ⟨guards, sessions, supplies⟩ := tables
  refine ⟨guards, sessions, supplies, ?_⟩
  intro log' hl
  obtain ⟨l, before, rfl⟩ := Option.map_eq_some_iff.mp hl
  obtain ⟨ascending, enough⟩ := h.pins l (log ▸ before)
  refine ⟨sorted _ ascending, fun k => ?_⟩
  have := enough k
  have := kept k
  have := count l.ledger k
  change c'.held k + more' k ≤ (f l.ledger).pins.count k
  omega

/-- What replaces something was given its pins before. -/
theorem Accounted.replace {α : Type} (h : c.Accounted more) {f : α → Ledger → Ledger}
    {share : ℕ → α → ℕ} (gives : GivesUp f share) {c' : Client} {old : Option (Held α)}
    (log : c'.log = c.log)
    (tables : c'.guards.Sorted ∧ c'.sessions.Sorted ∧ c'.supplies.Sorted)
    (kept : ∀ k, c'.held k + old.elim 0 (Held.weigh (share k)) = c.held k + more k) :
    (c'.relog (settle f old)).Accounted 0 := by
  refine h.rebook log tables kept (fun l => (gives.settle old l).1) ?_
  intro l k
  rw [(gives.settle old l).2]
  change l.pins.count k + more k + 0 ≤ _
  omega

theorem held_insert_guard (h : c.guards.Sorted) (new : Held ℕ) (k : ℕ) :
    { c with guards := c.guards.insert name new }.held k +
        (c.guards.get? name).elim 0 (Held.weigh (guardShare k)) =
      c.held k + new.weigh (guardShare k) := by
  have := Table.total_insert h name new (Held.weigh (guardShare k))
  simp only [held]
  omega

theorem held_insert_session (h : c.sessions.Sorted) (new : Held Session) (k : ℕ) :
    { c with sessions := c.sessions.insert name new }.held k +
        (c.sessions.get? name).elim 0 (Held.weigh (sessionShare k)) =
      c.held k + new.weigh (sessionShare k) := by
  have := Table.total_insert h name new (Held.weigh (sessionShare k))
  simp only [held]
  omega

theorem held_insert_supply (h : c.supplies.Sorted) (new : Held Rebalance.Supply) (k : ℕ) :
    { c with supplies := c.supplies.insert name new }.held k +
        (c.supplies.get? name).elim 0 (Held.weigh (supplyShare k)) =
      c.held k + new.weigh (supplyShare k) := by
  have := Table.total_insert h name new (Held.weigh (supplyShare k))
  simp only [held]
  omega

theorem Accounted.keepGuard {segment : ℕ} (h : c.Accounted (guardShare · segment)) :
    Accounted ({ c with guards := c.guards.insert name ⟨segment, true⟩ }.relog
      (settle (fun segment l => l.unpin segment) (c.guards.get? name))) 0 :=
  h.replace givesUp_unpin rfl ⟨Table.insert_sorted h.guards .., h.sessions, h.supplies⟩
    (held_insert_guard h.guards _)

theorem Accounted.keepSession {held : Held Session}
    (h : c.Accounted fun k => held.weigh (sessionShare k)) :
    Accounted ({ c with sessions := c.sessions.insert name held }.relog
      (settle (fun s l => l.release s) (c.sessions.get? name))) 0 :=
  h.replace givesUp_release rfl ⟨h.guards, Table.insert_sorted h.sessions .., h.supplies⟩
    (held_insert_session h.sessions _)

theorem Accounted.keepSupply {s : Rebalance.Supply} (h : c.Accounted (supplyShare · s)) :
    Accounted ({ c with supplies := c.supplies.insert name ⟨s, true⟩ }.relog
      (settle dismiss (c.supplies.get? name))) 0 :=
  h.replace givesUp_dismiss rfl ⟨h.guards, h.sessions, Table.insert_sorted h.supplies ..⟩
    (held_insert_supply h.supplies _)

theorem Accounted.dropGuard (h : c.Accounted 0) :
    Accounted ({ c with guards := Table.erase c.guards name }.relog
      (settle (fun segment l => l.unpin segment) (c.guards.get? name))) 0 := by
  refine h.replace givesUp_unpin rfl ⟨h.guards.erase name, h.sessions, h.supplies⟩ fun k => ?_
  have := Table.total_erase h.guards name (Held.weigh (guardShare k))
  simp only [held, Pi.zero_apply]
  omega

theorem Accounted.dropSession (h : c.Accounted 0) :
    Accounted ({ c with sessions := Table.erase c.sessions name }.relog
      (settle (fun s l => l.release s) (c.sessions.get? name))) 0 := by
  refine h.replace givesUp_release rfl ⟨h.guards, h.sessions.erase name, h.supplies⟩ fun k => ?_
  have := Table.total_erase h.sessions name (Held.weigh (sessionShare k))
  simp only [held, Pi.zero_apply]
  omega

theorem Accounted.dropSupply (h : c.Accounted 0) :
    Accounted ({ c with supplies := Table.erase c.supplies name }.relog
      (settle dismiss (c.supplies.get? name))) 0 := by
  refine h.replace givesUp_dismiss rfl ⟨h.guards, h.sessions, h.supplies.erase name⟩ fun k => ?_
  have := Table.total_erase h.supplies name (Held.weigh (supplyShare k))
  simp only [held, Pi.zero_apply]
  omega

theorem Accounted.closeSession {held : Held Session} (h : c.Accounted 0)
    (found : c.sessions.get? name = some held) :
    Accounted ({ c with sessions := c.sessions.insert name ⟨held.value.close, held.counted⟩ }.relog
      (settle (fun s l => l.release s) (some held))) 0 := by
  refine h.replace givesUp_release rfl ⟨h.guards, Table.insert_sorted h.sessions .., h.supplies⟩
    fun k => ?_
  have := @held_insert_session c name h.sessions ⟨held.value.close, held.counted⟩ k
  have closed : Held.weigh (sessionShare k) ⟨held.value.close, held.counted⟩ = 0 := by
    simp [Held.weigh, sessionShare, share, Session.current?, Session.close]
  rw [found, closed] at this
  exact this

/-- What a session gives moves its pin. -/
theorem settle_follow (s : Session) (counted : Bool) (r : Reading) (l : Ledger) :
    (l.pins.Sorted → (settle (fun s l => l.follow s r) (some ⟨s, counted⟩) l).pins.Sorted) ∧
      ∀ k, l.pins.count k + Held.weigh (sessionShare k) ⟨r.session, counted⟩ ≤
        (settle (fun s l => l.follow s r) (some ⟨s, counted⟩) l).pins.count k +
          Held.weigh (sessionShare k) ⟨s, counted⟩ := by
  cases counted with
  | true =>
      refine ⟨fun sorted => Ledger.sorted_follow sorted s r, fun k => ?_⟩
      have := l.count_follow s r k
      change l.pins.count k + share r.session.current? k ≤
        (l.follow s r).pins.count k + share s.current? k
      omega
  | false => exact ⟨id, fun _ => Nat.le_refl _⟩

theorem Accounted.followSession {held : Held Session} (h : c.Accounted 0)
    (found : c.sessions.get? name = some held) (r : Reading) :
    Accounted ({ c with sessions := c.sessions.insert name ⟨r.session, held.counted⟩ }.relog
      (settle (fun s l => l.follow s r) (some held))) 0 := by
  refine h.rebook rfl ⟨h.guards, Table.insert_sorted h.sessions .., h.supplies⟩
    (held_insert_session h.sessions _) (fun l => (settle_follow held.value _ r l).1) ?_
  intro l k
  rw [found]
  exact (settle_follow held.value _ r l).2 k

theorem weigh_supply (s : Rebalance.Supply) (counted : Bool) (k : ℕ) :
    Held.weigh (supplyShare k) ⟨s, counted⟩ = Held.weigh (sessionShare k) ⟨s.session, counted⟩ +
      Held.weigh (guardShare k) ⟨s.pinned, counted⟩ := by
  cases counted <;> rfl

theorem Accounted.followSupply {held : Held Rebalance.Supply} (h : c.Accounted 0)
    (found : c.supplies.get? name = some held) (r : Reading) :
    Accounted ({ c with supplies :=
        c.supplies.insert name ⟨⟨r.session, held.value.pinned⟩, held.counted⟩ }.relog
      (settle (fun (s : Rebalance.Supply) l => l.follow s.session r) (some held))) 0 := by
  have same : settle (fun (s : Rebalance.Supply) l => l.follow s.session r) (some held) =
    settle (fun s l => l.follow s r) (some ⟨held.value.session, held.counted⟩) := rfl
  rw [same]
  refine h.rebook rfl ⟨h.guards, h.sessions, Table.insert_sorted h.supplies ..⟩
    (held_insert_supply h.supplies _) (fun l => (settle_follow held.value.session _ r l).1) ?_
  intro l k
  rw [found]
  have moved := (settle_follow held.value.session held.counted r l).2 k
  have before : held.weigh (supplyShare k) = _ := weigh_supply held.value held.counted k
  simp only [Option.elim, before, weigh_supply, Pi.zero_apply]
  omega

/-! ## Without a log

Whatever is kept of a log that is closed no longer counts, so nothing holds segments of another.
-/

section
variable {α : Type}

/-- The same holders, none of which counts. -/
def discount (t : Table String (Held α)) : Table String (Held α) :=
  t.map fun (name, h) => (name, { h with counted := false })

theorem sorted_discount {t : Table String (Held α)} (h : t.Sorted) : (discount t).Sorted :=
  List.pairwise_map.mpr h

theorem total_discount (t : Table String (Held α)) (f : α → ℕ) :
    (discount t).total (Held.weigh f) = 0 := by
  apply List.sum_eq_zero
  intro n hn
  rw [discount, List.map_map] at hn
  obtain ⟨e, -, rfl⟩ := List.mem_map.mp hn
  rfl

end

/-- The client without its log. -/
def logless (c : Client) : Client where
  volume := c.volume
  place := c.place
  fused := c.fused
  log := none
  stores := c.stores
  guards := discount c.guards
  sessions := discount c.sessions
  supplies := discount c.supplies

theorem closeLog_logless (c : Client) : closeLog c = .ok () c.logless := rfl

theorem held_logless (c : Client) (k : ℕ) : c.logless.held k = 0 := by
  simp [held, logless, total_discount]

theorem Accounted.logless (h : c.Accounted more) : c.logless.Accounted 0 :=
  ⟨sorted_discount h.guards, sorted_discount h.sessions, sorted_discount h.supplies, nofun⟩

/-- A log that nobody holds anything of is opened. -/
theorem Accounted.openLog (h : c.Accounted more) {v : Volume} {log : Log}
    (free : log.ledger.pins = []) :
    Accounted { c.logless with volume := v, log := some log } 0 := by
  obtain ⟨guards, sessions, supplies, -⟩ := h.logless
  refine ⟨guards, sessions, supplies, ?_⟩
  rintro _ ⟨⟩
  rw [free]
  refine ⟨List.Pairwise.nil, fun k => ?_⟩
  have := c.held_logless k
  change c.logless.held k + 0 ≤ _
  omega

end Client
end SegmentLog
