import SegmentLog.Proofs.Client.Survive

/-!
# All that a client may ask of its log

Beside the calls of a scene a client may open sessions that stop at a pointer, read everything at
once, look up single records and have references filled in, and any of this may fail. What is not
work on the segments is done aside: it leaves the volume and the log as they are, but for the log's
ledger.
-/
namespace SegmentLog

/-- What a client may ask of its log. -/
inductive Request
  | call (call : Call)
  | openRange (direct : Bool) (name : String) (start stop : Option Pointer)
  | readAll (direct : Bool) (start stop : Option Pointer)
  | readRecord (p : Pointer)
  | resolve (record : Record)
deriving DecidableEq, Repr

namespace Request

/-- The log is opened or closed, or it works on its segments. -/
def Works : Request → Prop
  | call (.openLog _) | call .closeLog | call (.append _) | call .flush | call .rotate
  | call (.releaseBefore _) => True
  | _ => False

end Request

namespace Scene

def ask (scene : Scene) : Request → Scene
  | .call call => scene.step call
  | .openRange direct name start stop =>
    scene.opening (.session name) none (Client.keepSession name direct start stop) fun _ => true
  | .readAll direct start stop => scene.act (Client.readAll direct start stop)
  | .readRecord p => scene.act (Client.onLog (LogM.read fun v log => log.readRecord v p))
  | .resolve record => scene.act (Client.onLog (LogM.read fun v log => log.resolve v record))

def serve : List Request → Scene → Scene
  | [], scene => scene
  | request :: requests, scene => serve requests (scene.ask request)

end Scene

namespace Client
variable {c c' c'' : Client}

/-- Nothing has changed but what the client keeps and the ledger of its log. -/
structure Aside (c c' : Client) : Prop where
  volume : c'.volume = c.volume
  place : c'.place = c.place
  fused : c'.fused = c.fused
  log : ∃ f : Ledger → Ledger, c'.log = (c.relog f).log

theorem Aside.refl (c : Client) : c.Aside c := by
  refine ⟨rfl, rfl, rfl, id, ?_⟩
  cases hl : c.log with
  | none => simp [relog, hl]
  | some log => simp [relog, hl]

theorem Aside.trans (h : c.Aside c') (h' : c'.Aside c'') : c.Aside c'' := by
  obtain ⟨f, log⟩ := h.log
  obtain ⟨g, log'⟩ := h'.log
  refine ⟨h'.volume.trans h.volume, h'.place.trans h.place, h'.fused.trans h.fused, g ∘ f, ?_⟩
  rw [log', relog, log, relog, relog]
  cases c.log <;> rfl

/-- The client keeps other things, and something is entered in its ledger. -/
theorem Aside.relog (volume : c'.volume = c.volume) (place : c'.place = c.place)
    (fused : c'.fused = c.fused) (log : c'.log = c.log) (f : Ledger → Ledger) :
    c.Aside (c'.relog f) :=
  ⟨volume, place, fused, f, by rw [Client.relog, log]; rfl⟩

end Client
end SegmentLog
