import SegmentLog.Proofs.Ledger.Tidy
import SegmentLog.Proofs.Log.Replay

/-!
# What a log enters in its ledger

Reading a log and holding its segments only makes entries in its ledger: `Books` says which pins
these leave, and a call that fails leaves none. Work on the segments does not touch the pins,
whatever comes of it and whatever the segments are: `KeepsPins`.
-/
namespace SegmentLog

namespace Log

/-- So many more pins are entered, and the table stays tidy. -/
structure Enters (l l' : Ledger) (more : ℕ → ℕ) : Prop extends Takes l l' more where
  tidy : l.pins.Tidy → l'.pins.Tidy

namespace Enters
variable {l l' : Ledger} {more : ℕ → ℕ}

theorem refl (l : Ledger) : Enters l l 0 := ⟨.refl l, id⟩

theorem trans {l'' : Ledger} {more' : ℕ → ℕ} (h : Enters l l' more) (h' : Enters l' l'' more') :
    Enters l l'' fun k => more' k + more k := by
  refine ⟨⟨fun sorted => h'.sorted (h.sorted sorted), fun k => ?_⟩,
    fun tidy => h'.tidy (h.tidy tidy)⟩
  rw [h'.count, h.count]
  omega

theorem congr {more' : ℕ → ℕ} (h : Enters l l' more) (same : ∀ k, more k = more' k) :
    Enters l l' more' :=
  funext same ▸ h

theorem figure (h : Enters l l' more) (f : Stats → Stats) : Enters l (l'.count f) more :=
  ⟨h.toTakes.figure f, h.tidy⟩

theorem pin (l : Ledger) (segment : ℕ) : Enters l (l.pin segment) (Client.guardShare · segment) :=
  ⟨.pin l segment, fun tidy => tidy.pin segment⟩

theorem hold (l : Ledger) (session : Session) :
    Enters l (l.hold session) (Client.sessionShare · session) :=
  ⟨(Takes.refl l).hold session, fun tidy => Ledger.tidy_movePin tidy ..⟩

theorem unpin {segment : ℕ} (h : Enters l l' (Client.guardShare · segment)) :
    Enters l (l'.unpin segment) 0 :=
  ⟨h.toTakes.unpin, fun tidy => (h.tidy tidy).unpin segment⟩

end Enters

/-- A computation that only makes entries: pins for what it gives, and none if it fails. -/
def Books {α : Type} (x : LogM α) (share : α → ℕ → ℕ) : Prop :=
  ∀ s, (∃ a l, x s = .ok a (book s l) ∧ Enters s.2.ledger l (share a)) ∨
    ∃ e l, x s = .error e (book s l) ∧ Enters s.2.ledger l 0

theorem books_read {α : Type} (f : Volume → Log → Except Error α) :
    Books (LogM.read f) fun _ => 0 := by
  intro s
  cases given : f s.1 s.2 with
  | ok a => exact .inl ⟨a, s.2.ledger, LogM.read_of_ok given, .refl _⟩
  | error e => exact .inr ⟨e, s.2.ledger, LogM.read_of_error given, .refl _⟩

theorem books_enterPin (segment : ℕ) :
    Books (LogM.enter (·.pin segment)) fun _ k => Client.guardShare k segment :=
  fun s => .inl ⟨(), _, rfl, .pin s.2.ledger segment⟩

theorem books_pin (segment : ℕ) :
    Books (Log.pin segment) fun _ k => Client.guardShare k segment := by
  intro s
  rcases pin_cases segment s with pinned | ⟨e, failed⟩
  · exact .inl ⟨(), _, pinned, .pin _ _⟩
  · exact .inr ⟨e, s.2.ledger, failed, .refl _⟩

theorem books_replayRange (start stop : Option Pointer) :
    Books (replayRange start stop) fun session k => Client.sessionShare k session := by
  intro s
  have figure := (Enters.refl s.2.ledger).figure .sessionOpened
  cases opening : Session.openRange s.2.directory s.1 s.2.config.bufferSize start stop with
  | ok session =>
      exact .inl ⟨session, _, replayRange_of_ok opening,
        (figure.trans (.hold _ session)).congr fun _ => rfl⟩
  | error e => exact .inr ⟨e, _, replayRange_of_error opening, figure⟩

end Log

namespace Rebalance
open Log

/-- A history that cannot be opened gives its pin back. -/
theorem books_openSupply (start : Pointer) :
    Books (openSupply start) fun supply k => Client.supplyShare k supply := by
  intro s
  rcases pin_cases start.segment s with pinned | ⟨e, failed⟩
  · have taken := Enters.pin s.2.ledger start.segment
    rcases books_replayRange (some start) none (book s (s.2.ledger.pin start.segment)) with
      ⟨session, l, opened, enters⟩ | ⟨e, l, failed, enters⟩
    · exact .inl ⟨_, l, openSupply_of_ok pinned opened, (taken.trans enters).congr fun _ => rfl⟩
    · have given_back := openSupply_of_error pinned failed
      exact .inr ⟨e, _, given_back, ((taken.trans enters).congr fun k => Nat.zero_add _).unpin⟩
  · exact .inr ⟨e, s.2.ledger, openSupply_of_unpinned failed, .refl _⟩

theorem books_openHistory (maxGaps : ℕ) (c : Counter) (start : Option Pointer) :
    Books (openHistory maxGaps c start) fun offer k =>
      offer.supply?.elim 0 (Client.supplyShare k) := by
  intro s
  cases decided : decide maxGaps c s.2 s.1 start with
  | error e => exact .inr ⟨e, s.2.ledger, openHistory_of_undecided decided, .refl _⟩
  | ok decision =>
      cases decision with
      | full reason =>
          exact .inl ⟨.full reason, s.2.ledger, openHistory_of_full decided, .refl _⟩
      | historical start =>
          rcases books_openSupply start s with ⟨supply, l, opened, enters⟩ | ⟨e, l, failed, enters⟩
          · exact .inl ⟨.historical supply, l, openHistory_of_ok decided opened, enters⟩
          · have answer := openHistory_of_error decided failed
            cases known : FullReason.ofError? e with
            | some reason =>
                rw [known] at answer
                exact .inl ⟨.full reason, l, answer, enters⟩
            | none =>
                rw [known] at answer
                exact .inr ⟨e, l, answer, enters⟩

end Rebalance

/-! ## Work on the segments -/

namespace Log
open LogM
variable {α β : Type}

def KeepsPins (x : LogM α) : Prop := ∀ s, (final x s).2.ledger.pins = s.2.ledger.pins

theorem KeepsPins.bind {x : LogM α} {f : α → LogM β} (h : KeepsPins x)
    (then_ : ∀ a, KeepsPins (f a)) : KeepsPins (x >>= f) := by
  intro s
  cases step : x s with
  | ok a s' => rw [final_bind_of_ok step, then_ a s', ← final_of_ok step, h s]
  | error e s' => rw [final_of_error (run_bind_of_error step), ← final_of_error step, h s]

theorem keepsPins_pure (a : α) : KeepsPins (pure a) := fun _ => rfl

theorem keepsPins_getLog : KeepsPins getLog := fun _ => rfl

theorem keepsPins_count (f : Stats → Stats) : KeepsPins (enter (·.count f)) := fun _ => rfl

theorem keepsPins_lift (x : VolumeM α) : KeepsPins (liftM x : LogM α) := by
  rintro ⟨v, log⟩
  cases h : x v with
  | ok a v' => rw [final_of_ok (run_lift_of_ok h log)]
  | error e v' => rw [final_of_error (run_lift_of_error h log)]

theorem keepsPins_read (f : Volume → Log → Except Error α) : KeepsPins (read f) := by
  intro s
  cases h : f s.1 s.2 with
  | ok a => rw [final_of_ok (read_of_ok h)]
  | error e => rw [final_of_error (read_of_error h)]

theorem keepsPins_onActive (f : Volume → Store → Except StorageFault α × Volume × Store) :
    KeepsPins (onActive f) := by
  rintro ⟨v, log⟩
  obtain ⟨result, after⟩ : ∃ result, f v log.active.store = result := ⟨_, rfl⟩
  rcases result with ⟨a | a, v', store⟩
  · rw [final, onActive, after]
  · rw [final, onActive, after]

theorem keepsPins_flush : KeepsPins flush :=
  keepsPins_getLog.bind fun _ => (keepsPins_lift _).bind fun _ =>
    (keepsPins_lift _).bind fun _ => keepsPins_count _

theorem keepsPins_rotate : KeepsPins rotate := by
  refine keepsPins_flush.bind fun _ => keepsPins_getLog.bind fun _ =>
    (keepsPins_lift _).bind fun active => KeepsPins.bind (fun _ => rfl) fun _ =>
      (keepsPins_count _).bind fun _ => keepsPins_pure _

theorem keepsPins_put (frame : Bytes) : KeepsPins (put frame) := by
  refine keepsPins_getLog.bind fun log => ?_
  dsimp only
  split
  · exact fun _ => rfl
  · exact (keepsPins_onActive _).bind fun _ => KeepsPins.bind (fun _ => rfl) fun _ =>
      (keepsPins_count _).bind fun _ => keepsPins_pure _

theorem keepsPins_write (record : Record) : KeepsPins (write record) := by
  intro s
  rcases write_cases record s with ⟨e, refused, -⟩ | ⟨frame, -, -, written⟩
  · rw [final_of_error refused]
  · by_cases turns : s.2.overflows frame.length = true
    · rw [if_pos turns] at written
      have := (keepsPins_rotate.bind fun _ => keepsPins_put frame) s
      rwa [final, ← written] at this
    · rw [if_neg turns] at written
      have := keepsPins_put frame s
      rwa [final, ← written] at this

theorem keepsPins_append (record : Record) : KeepsPins (append record) := by
  refine (keepsPins_write record).bind fun p => keepsPins_getLog.bind fun log => ?_
  split
  · exact keepsPins_flush.bind fun _ => keepsPins_pure _
  · exact keepsPins_pure _

theorem keepsPins_removeBelow (limit : ℕ) (listed : List ℕ) :
    KeepsPins (removeBelow limit listed) := by
  induction listed with
  | nil => exact keepsPins_pure 0
  | cons segment listed ih =>
      unfold removeBelow
      split
      · exact keepsPins_pure 0
      refine keepsPins_getLog.bind fun log => ?_
      split
      · exact fun _ => rfl
      · exact (keepsPins_lift _).bind fun _ => (keepsPins_count _).bind fun _ =>
          ih.bind fun _ => keepsPins_pure _

theorem keepsPins_releaseBefore (segment : ℕ) : KeepsPins (releaseBefore segment) :=
  keepsPins_getLog.bind fun _ => (keepsPins_read _).bind fun _ => keepsPins_removeBelow _ _

/-- Nobody holds anything of a log that was just opened. -/
theorem openIn_free {d : Directory} {c : Config} {v v' : Volume} {log : Log}
    (opened : openIn d c v = .ok log v') : log.ledger.pins = [] := by
  have free {format : Format} {segment : ℕ} {v : Volume}
      (started : startIn d c format segment v = .ok log v') : log.ledger.pins = [] := by
    obtain ⟨active, v₁, -, started⟩ := run_bind_eq_ok.mp started
    cases started
    rfl
  unfold openIn at opened
  cases version : Format.ofVersion? c.version with
  | none =>
      rw [version] at opened
      cases opened
  | some format =>
      rw [version] at opened
      dsimp only at opened
      split at opened
      · cases opened
      rw [run_get_bind] at opened
      obtain ⟨listed, v₁, -, opened⟩ := run_bind_eq_ok.mp opened
      cases newest : listed.getLast? with
      | none =>
          rw [newest] at opened
          exact free opened
      | some k =>
          rw [newest] at opened
          obtain ⟨-, v₂, -, opened⟩ := run_bind_eq_ok.mp opened
          exact free opened

end Log

end SegmentLog
