import SegmentLog.Proofs.Store.Calls

/-!
# One more fuse before a store

A store behind a fuse is asked for the same things as the store itself. What comes of it depends on
the fuse alone: as long as its budget lasts it counts and lets everything through, the write that
goes beyond the budget lands in part, and once it has blown nothing is written or flushed.

A store that only has idle fuses before it never fails to write.
-/
namespace SegmentLog

namespace Fuse
variable {x : Fuse} {mark len : ℕ}

/-- The fuse blows when more bytes than `mark` have been written in all, and not on a flush. -/
structure Armed (x : Fuse) (mark : ℕ) : Prop where
  budget : x.budget = some mark
  blown : x.blown = false
  failSync : x.failSync = false

/-- Nothing makes the fuse blow. -/
structure Idle (x : Fuse) : Prop where
  budget : x.budget = none
  blown : x.blown = false
  failSync : x.failSync = false

def count (x : Fuse) (len : ℕ) : Fuse := { x with written := x.written + len }

theorem count_count (x : Fuse) (m n : ℕ) : (x.count m).count n = x.count (m + n) := by
  simp only [count, Nat.add_assoc]

theorem armed_arm (calm : x.blown = false) (syncs : x.failSync = false) (n : ℕ) :
    (x.arm n).Armed (x.written + n) := ⟨rfl, calm, syncs⟩

theorem Armed.count (h : x.Armed mark) (len : ℕ) : (x.count len).Armed mark :=
  ⟨h.budget, h.blown, h.failSync⟩

theorem Idle.count (h : x.Idle) (len : ℕ) : (x.count len).Idle := ⟨h.budget, h.blown, h.failSync⟩

theorem Idle.spend (h : x.Idle) (len : ℕ) : x.spend len = (len, x.count len) := by
  obtain ⟨budget, written, blown, failSync⟩ := x
  cases h.budget
  cases h.blown
  rfl

theorem Armed.spend_within (h : x.Armed mark) (within : x.written + len ≤ mark) :
    x.spend len = (len, x.count len) := by
  obtain ⟨budget, written, blown, failSync⟩ := x
  cases h.budget
  cases h.blown
  exact if_pos within

theorem Armed.spend_across (h : x.Armed mark) (across : mark < x.written + len) :
    x.spend len = (mark - x.written, { x.count len with blown := true }) := by
  obtain ⟨budget, written, blown, failSync⟩ := x
  cases h.budget
  cases h.blown
  exact if_neg (Nat.not_le.mpr across)

theorem spend_of_blown (blown : x.blown = true) (len : ℕ) : x.spend len = (0, x) := by
  rw [Fuse.spend, if_pos blown]

theorem sync_of_calm (calm : x.blown = false) (syncs : x.failSync = false) :
    x.sync = (true, x) := by
  rw [Fuse.sync, calm, syncs]
  rfl

theorem sync_of_blown (blown : x.blown = true) : x.sync = (false, x) := by
  rw [Fuse.sync, if_pos blown]

end Fuse

namespace Store

namespace Call

/-- What the call writes. -/
def data : Call → Bytes
  | append data | writeAt _ data => data
  | preallocate _ | truncate _ | readAt .. | size | flush | sync => []

def writes : Call → Bool
  | append _ | writeAt .. => true
  | preallocate _ | truncate _ | readAt .. | size | flush | sync => false

/-- A blown fuse does not let the call through. -/
def stops : Call → Bool
  | append data | writeAt _ data => !data.isEmpty
  | flush | sync => true
  | preallocate _ | truncate _ | readAt .. | size => false

/-- The call with the front of its data only. -/
def front (n : ℕ) : Call → Call
  | append data => append (data.take n)
  | writeAt offset data => writeAt offset (data.take n)
  | c => c

/-- How a failure of the call is reported. -/
def point : Call → CrashPoint
  | append _ => .append
  | flush => .flush
  | sync => .sync
  | writeAt .. | preallocate _ | truncate _ | readAt .. | size => .write

theorem data_of_not_writes {c : Call} (silent : c.writes = false) : c.data = [] := by
  cases c with
  | append _ | writeAt _ _ => cases silent
  | preallocate _ | truncate _ | readAt _ _ | size | flush | sync => rfl

theorem writes_of_data {c : Call} (some_data : c.data ≠ []) : c.writes = true := by
  cases writes : c.writes with
  | true => rfl
  | false => exact absurd (data_of_not_writes writes) some_data

theorem data_front (n : ℕ) (c : Call) : (c.front n).data = c.data.take n := by
  cases c with
  | append _ | writeAt _ _ => rfl
  | preallocate _ | truncate _ | readAt _ _ | size | flush | sync => exact List.take_nil.symm

theorem stops_of_writes {c : Call} (writes : c.writes = true) : c.stops = !c.data.isEmpty := by
  cases c with
  | append _ | writeAt _ _ => rfl
  | preallocate _ | truncate _ | readAt _ _ | size | flush | sync => cases writes

end Call

/-- The store with another fuse before it. -/
def behind (s : Store) (f : FuseId) : Store := { s with fuses := f :: s.fuses }

/-- What came of a call, where the store is behind a fuse that is now in this state. -/
def fused {α : Type} (f : FuseId) (x : Fuse) (r : α × Volume × Store) : α × Volume × Store :=
  (r.1, r.2.1.setFuse f x, r.2.2.behind f)

section
variable {α : Type} {point : CrashPoint} {v : Volume} {s : Store} {f : FuseId} {x : Fuse}
  {write : Volume → Store → Bytes → Except StorageFault α × Volume × Store}

theorem commit_behind (result : Except StorageFault (α × Handle × Bytes)) :
    (s.behind f).commit (v.setFuse f x) result = fused f x (s.commit v result) := by
  cases result with
  | error fault => rfl
  | ok done => rfl

/-- The fuses further on do not see the one before them. -/
theorem throughFuses_fused
    (blind : ∀ v data, write (v.setFuse f x) (s.behind f) data = fused f x (write v s data))
    {ids : List FuseId} (apart : f ∉ ids) (v : Volume) (data : Bytes) :
    throughFuses point write ids (v.setFuse f x) (s.behind f) data =
      fused f x (throughFuses point write ids v s data) := by
  induction ids generalizing v data with
  | nil => exact blind v data
  | cons id ids ih =>
      obtain ⟨ne, apart⟩ := List.ne_and_not_mem_of_not_mem_cons apart
      simp only [throughFuses, Volume.fuse_setFuse_of_ne ne, Volume.setFuse_comm _ ne, ih apart]
      split
      · rfl
      · split
        · rfl
        · rfl

theorem passFuses_setFuse {ids : List FuseId} (apart : f ∉ ids) (v : Volume) :
    passFuses point ids (v.setFuse f x) =
      ((passFuses point ids v).1, (passFuses point ids v).2.setFuse f x) := by
  induction ids generalizing v with
  | nil => rfl
  | cons id ids ih =>
      obtain ⟨ne, apart⟩ := List.ne_and_not_mem_of_not_mem_cons apart
      simp only [passFuses, Volume.fuse_setFuse_of_ne ne, Volume.setFuse_comm _ ne, ih apart]
      split
      · rfl
      · rfl

theorem throughFuses_behind (there : f < v.fuses.size) (apart : f ∉ s.fuses)
    (blind : ∀ x v data, write (v.setFuse f x) (s.behind f) data = fused f x (write v s data))
    (data : Bytes) :
    throughFuses point write (f :: s.fuses) (v.setFuse f x) (s.behind f) data =
      if (x.spend data.length).1 = data.length then
        fused f (x.spend data.length).2 (throughFuses point write s.fuses v s data)
      else
        (.error (.io (.crash point)),
          if 0 < (x.spend data.length).1 then
            (fused f (x.spend data.length).2
              (throughFuses point write s.fuses v s (data.take (x.spend data.length).1))).2
          else (v.setFuse f (x.spend data.length).2, s.behind f)) := by
  simp only [throughFuses, Volume.fuse_setFuse there, Volume.setFuse_setFuse,
    throughFuses_fused (blind _) apart]

end

variable {v : Volume} {s : Store} {f : FuseId} {x : Fuse} {mark : ℕ} {c : Call}

theorem call_behind_of_writes (there : f < v.fuses.size) (apart : f ∉ s.fuses)
    (writes : c.writes = true) :
    (s.behind f).call (v.setFuse f x) c =
      if (x.spend c.data.length).1 = c.data.length then
        fused f (x.spend c.data.length).2 (s.call v c)
      else
        (.error (.io (.crash c.point)),
          if 0 < (x.spend c.data.length).1 then
            (fused f (x.spend c.data.length).2
              (s.call v (c.front (x.spend c.data.length).1))).2
          else (v.setFuse f (x.spend c.data.length).2, s.behind f)) := by
  cases c with
  | append data =>
      have through := @throughFuses_behind ℕ .append v s f x
        (fun v s data => s.commit v (s.handle.append (v.bytes s.content) data)) there apart
        (fun _ _ _ => commit_behind _) data
      exact (congrArg (Prod.map (Except.map Answer.number) id) through).trans
        (apply_ite (Prod.map (Except.map Answer.number) id) _ _ _)
  | writeAt offset data =>
      have through := @throughFuses_behind Unit .write v s f x
        (fun v s data =>
          s.commit v ((s.handle.writeAt (v.bytes s.content) offset data).map ((), ·)))
        there apart (fun _ _ _ => commit_behind _) data
      exact (congrArg (Prod.map (Except.map fun _ => Answer.done) id) through).trans
        (apply_ite (Prod.map (Except.map fun _ => Answer.done) id) _ _ _)
  | preallocate _ | truncate _ | readAt _ _ | size | flush | sync => cases writes

theorem call_behind_of_sync (there : f < v.fuses.size) (apart : f ∉ s.fuses)
    (silent : c.writes = false) (stops : c.stops = true) :
    (s.behind f).call (v.setFuse f x) c =
      if x.sync.1 = true then fused f x.sync.2 (s.call v c)
      else (.error (.io (.crash c.point)), v.setFuse f x.sync.2, s.behind f) := by
  have passes (point : CrashPoint) : passFuses point (f :: s.fuses) (v.setFuse f x) =
      if x.sync.1 = true then
        ((passFuses point s.fuses v).1, (passFuses point s.fuses v).2.setFuse f x.sync.2)
      else (.error (.io (.crash point)), v.setFuse f x.sync.2) := by
    simp only [passFuses, Volume.fuse_setFuse there, Volume.setFuse_setFuse,
      passFuses_setFuse apart]
  cases c with
  | append _ | writeAt _ _ => cases silent
  | preallocate _ | truncate _ | readAt _ _ | size => cases stops
  | flush =>
      simp only [call, flush, behind, passes]
      split
      · rfl
      · rfl
  | sync =>
      simp only [call, sync, behind, passes]
      split
      · rfl
      · rfl

/-- Reading, cutting and filling up do not pass through fuses. -/
theorem call_behind_of_silent (silent : c.writes = false) (passes : c.stops = false) :
    (s.behind f).call (v.setFuse f x) c = fused f x (s.call v c) := by
  cases c with
  | append _ | writeAt _ _ => cases silent
  | preallocate len =>
      exact congrArg (Prod.map (Except.map fun _ => Answer.done) id) (commit_behind _)
  | truncate size =>
      exact congrArg (Prod.map (Except.map fun _ => Answer.done) id) (commit_behind _)
  | readAt offset len => rfl
  | size => rfl
  | flush | sync => cases passes

/-! ## By the state of the fuse -/

/-- Within its budget the fuse counts what is written and lets all of it through. -/
theorem call_within (there : f < v.fuses.size) (apart : f ∉ s.fuses) (armed : x.Armed mark)
    (within : x.written + c.data.length ≤ mark) :
    (s.behind f).call (v.setFuse f x) c = fused f (x.count c.data.length) (s.call v c) := by
  cases writes : c.writes with
  | true => rw [call_behind_of_writes there apart writes, armed.spend_within within, if_pos rfl]
  | false =>
      have same : x.count c.data.length = x := by rw [Call.data_of_not_writes writes]; rfl
      rw [same]
      cases stops : c.stops with
      | true =>
          rw [call_behind_of_sync there apart writes stops,
            Fuse.sync_of_calm armed.blown armed.failSync, if_pos rfl]
      | false => exact call_behind_of_silent writes stops

/-- The write that goes beyond the budget fails, and so much of it lands as there is budget left. -/
theorem call_across (there : f < v.fuses.size) (apart : f ∉ s.fuses) (armed : x.Armed mark)
    (within : x.written ≤ mark) (across : mark < x.written + c.data.length) :
    (s.behind f).call (v.setFuse f x) c =
      (.error (.io (.crash c.point)),
        if 0 < mark - x.written then
          (fused f { x.count c.data.length with blown := true }
            (s.call v (c.front (mark - x.written)))).2
        else (v.setFuse f { x.count c.data.length with blown := true }, s.behind f)) := by
  cases writes : c.writes with
  | true =>
      rw [call_behind_of_writes there apart writes, armed.spend_across across,
        if_neg (by dsimp only; omega)]
  | false =>
      rw [Call.data_of_not_writes writes] at across
      exact absurd across (Nat.not_lt.mpr within)

theorem call_of_blown (there : f < v.fuses.size) (apart : f ∉ s.fuses) (blown : x.blown = true)
    (stops : c.stops = true) :
    (s.behind f).call (v.setFuse f x) c =
      (.error (.io (.crash c.point)), v.setFuse f x, s.behind f) := by
  cases writes : c.writes with
  | true =>
      have some_data : 0 ≠ c.data.length := by
        rw [Call.stops_of_writes writes] at stops
        intro none_data
        rw [List.length_eq_zero_iff.mp none_data.symm] at stops
        cases stops
      rw [call_behind_of_writes there apart writes, Fuse.spend_of_blown blown, if_neg some_data]
      rfl
  | false =>
      rw [call_behind_of_sync there apart writes stops, Fuse.sync_of_blown blown,
        if_neg Bool.false_ne_true]

/-- A blown fuse stays as it is, and a call that it does not stop is for the store. -/
theorem call_past_blown (there : f < v.fuses.size) (apart : f ∉ s.fuses) (blown : x.blown = true)
    (passes : c.stops = false) :
    (s.behind f).call (v.setFuse f x) c = fused f x (s.call v c) := by
  cases writes : c.writes with
  | true =>
      have none_data : c.data = [] := by
        rw [Call.stops_of_writes writes] at passes
        simpa using passes
      rw [call_behind_of_writes there apart writes, Fuse.spend_of_blown blown, none_data]
      exact if_pos rfl
  | false => exact call_behind_of_silent writes passes

end Store
end SegmentLog
