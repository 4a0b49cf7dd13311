import SegmentLog.Proofs.Store.Handle
import SegmentLog.Proofs.Volume.Contents
import SegmentLog.Store

/-!
# One answer in memory and on a file

What a call answers and what it leaves of the bytes is said here of the bytes alone: `Call.on`. A
handle in memory looks at the bytes for their size. A handle on a file goes by the size that it
remembers, and writes into the file, cuts it or fills it up accordingly. As long as the file is
written through one handle, the size it remembers is that of the file after every call, and so both
answer any sequence of calls in the same way and hold the same bytes after each:
`memory_and_file_agree`.

The one call on which they differ is to write nothing at an offset, which in memory fills up to
there.
-/
namespace SegmentLog
namespace Store

/-- What can be asked of an open store. -/
inductive Call
  | append (data : Bytes)
  | writeAt (offset : ℕ) (data : Bytes)
  | preallocate (len : ℕ)
  | truncate (size : ℕ)
  | readAt (offset len : ℕ)
  | size
  | flush
  | sync
deriving DecidableEq, Repr

inductive Answer
  | done
  | number (n : ℕ)
  | bytes (bs : Bytes)
deriving DecidableEq, Repr

abbrev Reply := Except StorageFault Answer

def call (v : Volume) (s : Store) : Call → Reply × Volume × Store
  | .append data => Prod.map (Except.map .number) id (s.append v data)
  | .writeAt offset data => Prod.map (Except.map fun _ => .done) id (s.writeAt v offset data)
  | .preallocate len => Prod.map (Except.map fun _ => .done) id (s.preallocate v len)
  | .truncate size => Prod.map (Except.map fun _ => .done) id (s.truncate v size)
  | .readAt offset len => ((s.readAt v offset len).map .bytes, v, s)
  | .size => (.ok (.number (s.size v)), v, s)
  | .flush => ((s.flush v).1.map fun _ => .done, (s.flush v).2, s)
  | .sync => ((s.sync v).1.map fun _ => .done, (s.sync v).2, s)

/-- The replies to calls one after the other, each with the bytes that are stored after it. -/
def transcript (v : Volume) (s : Store) : List Call → List (Reply × Bytes)
  | [] => []
  | c :: calls =>
    let (reply, v, s) := s.call v c
    (reply, v.bytes s.content) :: transcript v s calls

namespace Call

/-- What a writable store of these bytes replies, and its bytes afterwards. -/
def on (bs : Bytes) : Call → Reply × Bytes
  | append data => (.ok (.number bs.length), bs ++ data)
  | writeAt offset data => (.ok .done, bs.overwrite offset data)
  | preallocate len => (.ok .done, bs ++ List.replicate (len - bs.length) 0)
  | truncate stop =>
    if bs.length < stop then (.error (.truncateBeyond stop bs.length), bs)
    else (.ok .done, bs.take stop)
  | readAt offset len =>
    if bs.length < offset + len then (.error (.readPastEnd offset len bs.length), bs)
    else (.ok (.bytes (bs.slice offset len)), bs)
  | size => (.ok (.number bs.length), bs)
  | flush => (.ok .done, bs)
  | sync => (.ok .done, bs)

def transcript (bs : Bytes) : List Call → List (Reply × Bytes)
  | [] => []
  | c :: calls => c.on bs :: transcript (c.on bs).2 calls

/-- The call is for what a store that may only be read has to refuse. -/
def changes : Call → Bool
  | append _ | writeAt .. | preallocate _ | truncate _ => true
  | readAt .. | size | flush | sync => false

/-- What a store of these bytes replies that may only be read. -/
def onReadOnly (label : String) (bs : Bytes) (c : Call) : Reply :=
  if c.changes then .error (.readOnly label) else (c.on bs).1

def writesNothing : Call → Bool
  | writeAt _ data => data.isEmpty
  | _ => false

end Call

/-! ## Stores that are written through one handle -/

/-- The store holds these bytes, may be written without a fuse on the way, and knows their size. -/
structure Carries (s : Store) (v : Volume) (bs : Bytes) : Prop where
  unfused : s.fuses = []
  known : s.content < v.contents.size
  bytes : v.bytes s.content = bs
  follows : s.handle.Follows bs

variable {v w : Volume} {s : Store} {bs : Bytes}

theorem Carries.commit (h : s.Carries v bs) {α : Type} {a : α} {handle : Handle} {bs' : Bytes}
    {result : Except StorageFault (α × Handle × Bytes)} (done : result = .ok (a, handle, bs'))
    (follows : handle.Follows bs') :
    ∃ v' s', s.commit v result = (.ok a, v', s') ∧ s'.Carries v' bs' := by
  subst done
  have known : s.content < (v.setBytes s.content bs').contents.size := by
    rw [Volume.setBytes, Array.size_setIfInBounds]
    exact h.known
  exact ⟨_, { s with handle }, rfl, h.unfused, known, Volume.bytes_setBytes h.known bs', follows⟩

/-- Every call does to the store what it does to the bytes, and the handle keeps up with it. -/
theorem Carries.call (h : s.Carries v bs) {c : Call} (writes : c.writesNothing = false) :
    ∃ v' s', s.call v c = ((c.on bs).1, v', s') ∧ s'.Carries v' (c.on bs).2 := by
  have follows := h.follows
  cases c with
  | append data =>
      obtain ⟨handle, done, follows⟩ := follows.append data
      obtain ⟨v', s', committed, carries⟩ := h.commit done follows
      refine ⟨v', s', ?_, carries⟩
      simp only [Store.call, Store.append, h.unfused, throughFuses, h.bytes, committed]
      rfl
  | writeAt offset data =>
      have some_data : data ≠ [] := by simpa [Call.writesNothing] using writes
      obtain ⟨handle, done, follows⟩ := follows.writeAt offset some_data
      obtain ⟨v', s', committed, carries⟩ := h.commit (congrArg (Except.map ((), ·)) done) follows
      refine ⟨v', s', ?_, carries⟩
      simp only [Store.call, Store.writeAt, h.unfused, throughFuses, h.bytes, committed]
      rfl
  | preallocate len =>
      obtain ⟨handle, done, follows⟩ := follows.preallocate len
      obtain ⟨v', s', committed, carries⟩ := h.commit (congrArg (Except.map ((), ·)) done) follows
      refine ⟨v', s', ?_, carries⟩
      simp only [Store.call, Store.preallocate, h.bytes, committed]
      rfl
  | truncate stop =>
      -- What is past the end for the bytes is so for the handle, as it knows their size.
      by_cases past : bs.length < stop
      · refine ⟨v, s, ?_, by rwa [Call.on, if_pos past]⟩
        simp only [Store.call, Store.truncate, h.bytes, follows.truncate_past past, Call.on,
          if_pos past]
        rfl
      · obtain ⟨handle, done, follows⟩ := follows.truncate (Nat.le_of_not_lt past)
        obtain ⟨v', s', committed, carries⟩ := h.commit (congrArg (Except.map ((), ·)) done) follows
        refine ⟨v', s', ?_, by rwa [Call.on, if_neg past]⟩
        simp only [Store.call, Store.truncate, h.bytes, committed, Call.on, if_neg past]
        rfl
  | readAt offset len =>
      refine ⟨v, s, ?_, by simpa only [Call.on, apply_ite Prod.snd, ite_self] using h⟩
      simp only [Store.call, Store.readAt, h.bytes, Handle.readAt_of_size follows.size, Call.on]
      split
      · rfl
      · rfl
  | size =>
      refine ⟨v, s, ?_, h⟩
      simp only [Store.call, Store.size, h.bytes, follows.size]
      rfl
  | flush =>
      refine ⟨v, s, ?_, h⟩
      simp only [Store.call, Store.flush, h.unfused]
      rfl
  | sync =>
      refine ⟨v, s, ?_, h⟩
      simp only [Store.call, Store.sync, h.unfused]
      rfl

theorem Carries.transcript (h : s.Carries v bs) {calls : List Call}
    (writes : ∀ c ∈ calls, c.writesNothing = false) :
    s.transcript v calls = Call.transcript bs calls := by
  induction calls generalizing v s bs with
  | nil => rfl
  | cons c calls ih =>
      obtain ⟨first, rest⟩ := List.forall_mem_cons.mp writes
      obtain ⟨v', s', called, carries⟩ := h.call first
      simp only [Store.transcript, called, Call.transcript, ih carries rest, carries.bytes]

/-! ## Stores that may only be read -/

/-- No call changes anything, and what it replies to a reader is what it replies to a writer. -/
theorem call_of_readOnly (readOnly : s.handle.isReadOnly = true) (unfused : s.fuses = [])
    (size : s.handle.size (v.bytes s.content) = (v.bytes s.content).length) (c : Call) :
    s.call v c =
      (c.onReadOnly s.handle.label (v.bytes s.content), v, s) := by
  have refused : s.handle.checkWritable = .error (.readOnly s.handle.label) := by
    rw [Handle.checkWritable, if_pos readOnly]
  cases c with
  | append data =>
      simp only [Store.call, Store.append, unfused, throughFuses, Handle.append, refused, bind,
        Except.bind]
      rfl
  | writeAt offset data =>
      simp only [Store.call, Store.writeAt, unfused, throughFuses, Handle.writeAt, refused, bind,
        Except.bind]
      rfl
  | preallocate len =>
      simp only [Store.call, Store.preallocate, Handle.preallocate, refused, bind, Except.bind]
      rfl
  | truncate size =>
      simp only [Store.call, Store.truncate, Handle.truncate, refused, bind, Except.bind]
      rfl
  | readAt offset len =>
      simp only [Store.call, Store.readAt, Handle.readAt_of_size size, Call.onReadOnly, Call.on,
        Call.changes]
      split
      · rfl
      · rfl
  | size =>
      simp only [Store.call, Store.size, size]
      rfl
  | flush =>
      simp only [Store.call, Store.flush, unfused]
      rfl
  | sync =>
      simp only [Store.call, Store.sync, unfused]
      rfl

/-- Two stores that are opened on the same bytes, one in memory and one on a file. -/
theorem memory_and_file_agree {c d : ContentId} (here : c < v.contents.size)
    (there : d < w.contents.size) (same : v.bytes c = w.bytes d) (p : Path) :
    (∀ calls : List Call, (∀ call ∈ calls, call.writesNothing = false) →
      transcript v ⟨c, .memory false, []⟩ calls = transcript w (onFile w p d false) calls ∧
        transcript w (onFile w p d false) calls = Call.transcript (w.bytes d) calls) ∧
      ∀ call : Call,
        Store.call v ⟨c, .memory true, []⟩ call =
            (call.onReadOnly "in-memory handle" (w.bytes d), v, ⟨c, .memory true, []⟩) ∧
          Store.call w (onFile w p d true) call =
            (call.onReadOnly p.shown (w.bytes d), w, onFile w p d true) := by
  have memory : Carries ⟨c, .memory false, []⟩ v (w.bytes d) := ⟨rfl, here, same, rfl, rfl⟩
  have file : (onFile w p d false).Carries w (w.bytes d) := ⟨rfl, there, rfl, rfl, rfl⟩
  refine ⟨fun calls writes => ?_, fun call => ⟨?_, call_of_readOnly rfl rfl rfl call⟩⟩
  · rw [memory.transcript writes, file.transcript writes]
    exact ⟨rfl, rfl⟩
  · rw [← same]
    exact call_of_readOnly rfl rfl rfl call

def inMemory123 : Volume where
  contents := #[[1, 2, 3]]

def onFile123 : Volume where
  contents := #[[], [1, 2, 3]]
  files := [(["log"], .folder), (["log", "a"], .file 1)]

/-- Cut off, written beyond the end and filled up again. -/
theorem memory_and_file_agree_regrown :
    let path : Path := ⟨"log/a", ["log", "a"]⟩
    let calls : List Call := [.append [4], .truncate 2, .writeAt 4 [9], .preallocate 7, .readAt 1 5,
      .readAt 5 3, .truncate 9, .sync, .size]
    let replies : List (Reply × Bytes) := [(.ok (.number 3), [1, 2, 3, 4]), (.ok .done, [1, 2]),
      (.ok .done, [1, 2, 0, 0, 9]), (.ok .done, [1, 2, 0, 0, 9, 0, 0]),
      (.ok (.bytes [2, 0, 0, 9, 0]), [1, 2, 0, 0, 9, 0, 0]),
      (.error (.readPastEnd 5 3 7), [1, 2, 0, 0, 9, 0, 0]),
      (.error (.truncateBeyond 9 7), [1, 2, 0, 0, 9, 0, 0]), (.ok .done, [1, 2, 0, 0, 9, 0, 0]),
      (.ok (.number 7), [1, 2, 0, 0, 9, 0, 0])]
    0 < inMemory123.contents.size ∧ 1 < onFile123.contents.size ∧
      inMemory123.bytes 0 = onFile123.bytes 1 ∧ (∀ call ∈ calls, call.writesNothing = false) ∧
      transcript inMemory123 ⟨0, .memory false, []⟩ calls = replies ∧
      transcript onFile123 (onFile onFile123 path 1 false) calls = replies ∧
      (onFile onFile123 path 1 true).call onFile123 (.append [4]) =
        (.error (.readOnly "log/a"), onFile123, onFile onFile123 path 1 true) := by
  intro path calls replies
  have writes : ∀ call ∈ calls, call.writesNothing = false := by decide
  have agree := @memory_and_file_agree inMemory123 onFile123 0 1 (by decide) (by decide) rfl path
  obtain ⟨same, told⟩ := agree.1 calls writes
  have told : transcript onFile123 (onFile onFile123 path 1 false) calls = replies :=
    told.trans rfl
  exact ⟨by decide, by decide, rfl, writes, same.trans told, told, (agree.2 (.append [4])).2⟩

end Store
end SegmentLog
