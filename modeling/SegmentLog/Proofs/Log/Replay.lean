import SegmentLog.Proofs.Client.Holders
import SegmentLog.Proofs.Session.Start

/-!
# Opening sessions through a log

A session that is opened through an undamaged log is to give what is there from its start on, and
the segment it starts in is pinned. A history that is offered has a second pin on that segment.
Where nothing is opened, no pin is left behind.
-/
namespace SegmentLog

section
variable {ε σ α : Type} {x : EStateM ε σ α} {h : ε → EStateM ε σ α} {s s' : σ}

theorem run_tryCatch_of_ok {a : α} (done : x s = .ok a s') : tryCatch x h s = .ok a s' := by
  change EStateM.tryCatch x h s = _
  rw [EStateM.tryCatch, done]

theorem run_tryCatch_of_error {e : ε} (failed : x s = .error e s') :
    tryCatch x h s = h e s' := by
  change EStateM.tryCatch x h s = _
  rw [EStateM.tryCatch, failed]
  rfl

end

namespace Log

/-- The ledger has so many more pins than before. -/
structure Takes (l l' : Ledger) (more : ℕ → ℕ) : Prop where
  sorted : l.pins.Sorted → l'.pins.Sorted
  count : ∀ k, l'.pins.count k = l.pins.count k + more k

theorem Takes.refl (l : Ledger) : Takes l l 0 := ⟨id, fun _ => rfl⟩

/-- The figures of the work are no pins. -/
theorem Takes.figure {l l' : Ledger} {more : ℕ → ℕ} (h : Takes l l' more) (f : Stats → Stats) :
    Takes l (l'.count f) more := ⟨h.sorted, h.count⟩

theorem Takes.pin (l : Ledger) (segment : ℕ) :
    Takes l (l.pin segment) (Client.guardShare · segment) := by
  refine ⟨fun sorted => Pins.sorted_pin sorted segment, fun k => ?_⟩
  simp [Ledger.pin, Pins.count_pin, Client.guardShare, Pins.share]

theorem Takes.hold {l l' : Ledger} {more : ℕ → ℕ} (h : Takes l l' more) (session : Session) :
    Takes l (l'.hold session) fun k => Client.sessionShare k session + more k := by
  refine ⟨fun sorted => Ledger.sorted_movePin (h.sorted sorted) .., fun k => ?_⟩
  rw [Ledger.hold, Ledger.count_movePin, h.count]
  simp only [Client.sessionShare, Pins.share]
  simp
  omega

theorem Takes.unpin {l l' : Ledger} {segment : ℕ}
    (h : Takes l l' (Client.guardShare · segment)) : Takes l (l'.unpin segment) 0 := by
  obtain ⟨sorted, count⟩ := Client.givesUp_unpin segment l'
  refine ⟨fun h' => sorted (h.sorted h'), fun k => ?_⟩
  rw [count, h.count]
  simp

variable {place : Place} {removed : ℕ} {s : Volume × Log} {shelf : Shelf} {start : Option Pointer}

/-- The same log with another ledger. -/
def book (s : Volume × Log) (ledger : Ledger) : Volume × Log := (s.1, { s.2 with ledger })

theorem Stands.book (h : Stands place removed s shelf) (ledger : Ledger) :
    Stands place removed (book s ledger) shelf := by
  obtain ⟨older, newest, rfl, writes, shelves⟩ := h
  exact ⟨older, newest, rfl, writes.withLedger ledger, shelves⟩

section
variable {stop : Option Pointer}

theorem replayRange_of_ok {session : Session} (opened :
    Session.openRange s.2.directory s.1 s.2.config.bufferSize start stop = .ok session) :
    replayRange start stop s =
      .ok session (book s ((s.2.ledger.count .sessionOpened).hold session)) := by
  have counted : LogM.enter (·.count .sessionOpened) s =
    .ok () (book s (s.2.ledger.count .sessionOpened)) := rfl
  unfold replayRange
  rw [run_bind_of_ok counted, run_bind_of_ok (LogM.read_of_ok opened)]
  rfl

theorem replayRange_of_error {e : Error} (failed :
    Session.openRange s.2.directory s.1 s.2.config.bufferSize start stop = .error e) :
    replayRange start stop s = .error e (book s (s.2.ledger.count .sessionOpened)) := by
  have counted : LogM.enter (·.count .sessionOpened) s =
    .ok () (book s (s.2.ledger.count .sessionOpened)) := rfl
  unfold replayRange
  rw [run_bind_of_ok counted, run_bind_of_error (LogM.read_of_error failed)]

end

theorem replayRange_cases (h : Stands place removed s shelf)
    (real : ∀ p ∈ start, ∃ item ∈ shelf.items, item.1.address = p.address) :
    (∃ session skipped, replayRange start none s =
        .ok session (book s ((s.2.ledger.count .sessionOpened).hold session)) ∧
      session.Starts place s.1 removed shelf start skipped) ∨
    ∃ e, replayRange start none s = .error e (book s (s.2.ledger.count .sessionOpened)) := by
  obtain ⟨older, newest, rfl, writes, shelves⟩ := h
  have some_left : removed < (older ++ [newest]).length := by
    have := shelves.present
    rw [List.length_append, List.length_singleton] at *
    omega
  rcases Session.openRange_cases shelves some_left real s.2.config.bufferSize with
    ⟨session, skipped, opened, starts⟩ | ⟨e, failed⟩
  · rw [← writes.directory] at opened
    exact .inl ⟨session, skipped, replayRange_of_ok opened, starts⟩
  · rw [← writes.directory] at failed
    exact .inr ⟨e, replayRange_of_error failed⟩

/-- A pin is taken on a segment that is there. -/
theorem pin_cases (segment : ℕ) (s : Volume × Log) :
    Log.pin segment s = .ok () (book s (s.2.ledger.pin segment)) ∨
      ∃ e, Log.pin segment s = .error e s := by
  unfold Log.pin
  cases listed : s.2.segments s.1 with
  | error e =>
      have failed := LogM.read_of_error (f := fun v log => log.segments v) listed
      exact .inr ⟨e, run_bind_of_error failed⟩
  | ok segments =>
      rw [run_bind_of_ok (LogM.read_of_ok (f := fun v log => log.segments v) listed)]
      cases segments.contains segment with
      | true => exact .inl rfl
      | false => exact .inr ⟨_, rfl⟩

end Log

namespace Rebalance
open Log
variable {place : Place} {removed : ℕ} {s : Volume × Log} {shelf : Shelf}

section
variable {s₁ s₂ : Volume × Log} {start : Pointer} {e : Error}

theorem openSupply_of_ok {session : Session} (pinned : Log.pin start.segment s = .ok () s₁)
    (opened : Log.replayRange (some start) none s₁ = .ok session s₂) :
    openSupply start s = .ok ⟨session, start.segment⟩ s₂ := by
  unfold openSupply
  rw [run_bind_of_ok pinned]
  exact (run_bind_of_ok (run_tryCatch_of_ok
    ((run_bind_of_ok opened).trans (by rfl)))).trans (by rfl)

/-- The pin of a history that cannot be opened is given back. -/
theorem openSupply_of_error (pinned : Log.pin start.segment s = .ok () s₁)
    (failed : Log.replayRange (some start) none s₁ = .error e s₂) :
    openSupply start s = .error e (book s₂ (s₂.2.ledger.unpin start.segment)) := by
  unfold openSupply
  rw [run_bind_of_ok pinned]
  exact run_bind_of_error ((run_tryCatch_of_error (run_bind_of_error failed)).trans rfl)

theorem openSupply_of_unpinned (failed : Log.pin start.segment s = .error e s₁) :
    openSupply start s = .error e s₁ :=
  run_bind_of_error failed

variable {maxGaps : ℕ} {c : Counter} {from_ : Option Pointer}

theorem openHistory_of_full {reason : FullReason}
    (decided : decide maxGaps c s.2 s.1 from_ = .ok (.full reason)) :
    openHistory maxGaps c from_ s = .ok (.full reason) s :=
  run_bind_of_ok (LogM.read_of_ok (f := fun v log => decide maxGaps c log v from_) decided)

theorem openHistory_of_undecided (failed : decide maxGaps c s.2 s.1 from_ = .error e) :
    openHistory maxGaps c from_ s = .error e s :=
  run_bind_of_error (LogM.read_of_error failed)

theorem openHistory_of_ok {supply : Supply}
    (decided : decide maxGaps c s.2 s.1 from_ = .ok (.historical start))
    (opened : openSupply start s = .ok supply s₁) :
    openHistory maxGaps c from_ s = .ok (.historical supply) s₁ := by
  unfold openHistory
  rw [run_bind_of_ok (LogM.read_of_ok (f := fun v log => decide maxGaps c log v from_) decided)]
  exact (run_bind_of_ok (run_tryCatch_of_ok
    ((run_bind_of_ok opened).trans (by rfl)))).trans (by rfl)

/-- Some failures to open a history become reasons for a full copy. -/
theorem openHistory_of_error
    (decided : decide maxGaps c s.2 s.1 from_ = .ok (.historical start))
    (failed : openSupply start s = .error e s₁) :
    openHistory maxGaps c from_ s =
      match FullReason.ofError? e with
      | some reason => .ok (.full reason) s₁
      | none => .error e s₁ := by
  unfold openHistory
  rw [run_bind_of_ok (LogM.read_of_ok (f := fun v log => decide maxGaps c log v from_) decided)]
  cases known : FullReason.ofError? e with
  | some reason =>
      exact (run_bind_of_ok ((run_tryCatch_of_error
        (run_bind_of_error failed)).trans (by rw [known]; rfl))).trans (by rfl)
  | none =>
      refine run_bind_of_error ((run_tryCatch_of_error (run_bind_of_error failed)).trans ?_)
      rw [known]
      rfl

end

def Offer.supply? : Offer → Option Supply
  | .historical supply => some supply
  | .full _ => none

/-- What comes of opening a history: it is opened and holds its pins, or no pin is left behind. -/
def Offers {α : Type} (x : LogM α) (place : Place) (removed : ℕ) (s : Volume × Log) (shelf : Shelf)
    (start : Option Pointer) (opens : α → Option Supply) : Prop :=
  (∃ a supply skipped ledger, x s = .ok a (book s ledger) ∧ opens a = some supply ∧
    supply.session.Starts place s.1 removed shelf start skipped ∧
    Takes s.2.ledger ledger (Client.supplyShare · supply)) ∨
  (∀ a s', x s = .ok a s' → opens a = none) ∧
    ∃ ledger, final x s = book s ledger ∧ Takes s.2.ledger ledger 0

section
variable {α : Type} {x : LogM α} {start : Option Pointer} {opens : α → Option Supply}
  {ledger : Ledger}

theorem Offers.of_error {e : Error} (failed : x s = .error e (book s ledger))
    (same : Takes s.2.ledger ledger 0) : Offers x place removed s shelf start opens := by
  right
  constructor
  · intro a s' done
    rw [failed] at done
    cases done
  · exact ⟨ledger, final_of_error failed, same⟩

theorem Offers.of_ok {a : α} (done : x s = .ok a (book s ledger)) (nothing : opens a = none)
    (same : Takes s.2.ledger ledger 0) : Offers x place removed s shelf start opens := by
  right
  constructor
  · intro a' s' done'
    rw [done] at done'
    cases done'
    exact nothing
  · exact ⟨ledger, final_of_ok done, same⟩

end

theorem openSupply_cases {start : Pointer} (h : Stands place removed s shelf)
    (real : ∃ item ∈ shelf.items, item.1.address = start.address) :
    Offers (openSupply start) place removed s shelf (some start) some := by
  have real : ∀ p ∈ some start, ∃ item ∈ shelf.items, item.1.address = p.address := by
    rintro _ ⟨⟩
    exact real
  have taken := Takes.pin s.2.ledger start.segment
  rcases pin_cases start.segment s with pinned | ⟨e, failed⟩
  · rcases replayRange_cases (h.book (s.2.ledger.pin start.segment)) real with
      ⟨session, skipped, opened, starts⟩ | ⟨e, failed⟩
    · exact .inl ⟨_, _, skipped, _, openSupply_of_ok pinned opened, rfl, starts,
        (taken.figure .sessionOpened).hold session⟩
    · have given_back := openSupply_of_error pinned failed
      exact .of_error given_back (taken.figure .sessionOpened).unpin
  · exact .of_error (openSupply_of_unpinned failed) (.refl _)

theorem start_of_decide {maxGaps : ℕ} {c : Counter} {log : Log} {v : Volume}
    {start : Option Pointer} {p : Pointer}
    (h : decide maxGaps c log v start = .ok (.historical p)) : start = some p := by
  unfold decide at h
  cases start with
  | none => cases h
  | some q =>
      dsimp only at h
      split at h
      · cases h
      obtain ⟨listed, -, h⟩ := bind_eq_ok.mp h
      split at h
      · cases h
      · cases h
        rfl

theorem openHistory_cases {start : Option Pointer} (h : Stands place removed s shelf)
    (real : ∀ p ∈ start, ∃ item ∈ shelf.items, item.1.address = p.address) (maxGaps : ℕ)
    (c : Counter) :
    Offers (openHistory maxGaps c start) place removed s shelf start Offer.supply? := by
  cases decided : decide maxGaps c s.2 s.1 start with
  | error e => exact .of_error (openHistory_of_undecided decided) (.refl _)
  | ok decision =>
      cases decision with
      | full reason => exact .of_ok (openHistory_of_full decided) rfl (.refl _)
      | historical p =>
          cases start_of_decide decided
          rcases openSupply_cases h (real p rfl) with
            ⟨supply, _, skipped, ledger, opened, ⟨⟩, starts, taken⟩ | ⟨nothing, ledger, after, same⟩
          · exact .inl ⟨_, supply, skipped, ledger, openHistory_of_ok decided opened, rfl, starts,
              taken⟩
          · cases failed : openSupply p s with
            | ok supply s' => cases nothing supply s' failed
            | error e s' =>
                rw [final_of_error failed] at after
                subst after
                have answer := openHistory_of_error decided failed
                cases known : FullReason.ofError? e with
                | none =>
                    rw [known] at answer
                    exact .of_error answer same
                | some reason =>
                    rw [known] at answer
                    exact .of_ok answer rfl same

end Rebalance
end SegmentLog
