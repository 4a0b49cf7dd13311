import SegmentLog.Proofs.Client.Run

/-!
# What a crash cannot take

Main statement: `run_durable`. A client goes through any number of simulated crashes and opens its
log again after each. Fuses blow wherever they like, in the middle of a frame, on a flush, or while
a log is opened. At any moment the segments hold exactly the records that were written, in order.
Those are the records that were acknowledged, and at most one more for each fuse: the one whose
flush the fuse stopped.
-/
namespace SegmentLog.Client

/-- Reading the segments past all fuses gives what the account says was written. -/
structure Durable (v : Volume) (history : List Attempt) : Prop where
  replays : ∀ bufferSize, ∃ s,
    Session.openRange { place := .memory } v bufferSize none none = .ok s ∧
      (s.drain v).items = history.filterMap Attempt.entry ∧
      ((s.drain v).ending = some .finish ∨ (s.drain v).ending = some .tornTail)
  /-- What was acknowledged was written, and where the answer says. -/
  written : ∀ a ∈ history, ∀ p, a.answer = .ok p → a.written = some p
  /-- What was written but not acknowledged went through a fuse that stopped its flush. -/
  stopped : ∀ a ∈ history, a.Unconfirmed → a.fuse.isSome ∧
    ∃ e, Log.StoppedFlush e ∧ a.answer = .error (.failed e)
  apart : (history.filter Attempt.Unconfirmed).Pairwise (·.fuse ≠ ·.fuse)

theorem Inv.durable {c : Client} {history : List Attempt} (h : Inv c history) :
    Durable c.volume history := by
  refine ⟨?_, h.written, ?_, h.apart⟩
  · intro bufferSize
    obtain ⟨s, opened, items, ending⟩ := h.shows.drain (d := { place := .memory }) rfl bufferSize
    exact ⟨s, opened, items, ending.imp_right And.right⟩
  · intro a ha hu
    obtain ⟨answer, -, ⟨id, fuse, -⟩, -⟩ := h.stopped a ha hu
    rw [fuse]
    exact ⟨rfl, answer⟩

/-- Whatever a client in memory did and whenever its fuses blew. -/
theorem run_durable (actions : List Action) (wf : ∀ a ∈ actions, a.WellFormed)
    (bare : ∀ config, .openLog config ∈ actions → config.preallocate = false) :
    Durable (run actions (inMemory, [])).1.volume (run actions (inMemory, [])).2 :=
  (inv_inMemory.run wf (Or.inr bare)).durable

/-- One fuse blows in the middle of a frame and another one on a flush. -/
def crashing : List Action :=
  [.simulate, .openLog {}, .append (.pageRemove ⟨1⟩ ⟨2⟩ 0), .arm 5,
    .append (.pageRemove ⟨1⟩ ⟨2⟩ 1),
    .simulate, .openLog { version := 1, syncOnWrite := true }, .failSync true,
    .append (.pageRemove ⟨1⟩ ⟨2⟩ 2), .append (.pageRemove ⟨1⟩ ⟨2⟩ 3),
    .simulate, .openLog {}]

theorem run_durable_crashing :
    Durable (run crashing (inMemory, [])).1.volume (run crashing (inMemory, [])).2 ∧
      (run crashing (inMemory, [])).2.filterMap Attempt.acknowledged =
        [(⟨0, 15, 23⟩, .pageRemove ⟨1⟩ ⟨2⟩ 0)] ∧
      (run crashing (inMemory, [])).2.filterMap Attempt.entry =
        [(⟨0, 15, 23⟩, .pageRemove ⟨1⟩ ⟨2⟩ 0), (⟨1, 15, 19⟩, .pageRemove ⟨1⟩ ⟨2⟩ 2)] := by
  refine ⟨run_durable crashing (by decide) ?_, ?_, ?_⟩
  · intro config hc
    simp only [crashing, List.mem_cons, Action.openLog.injEq, reduceCtorEq, List.not_mem_nil,
      or_false, false_or] at hc
    rcases hc with rfl | rfl | rfl
    · rfl
    · rfl
    · rfl
  · decide +kernel
  · decide +kernel

end SegmentLog.Client
