import Mathlib.Logic.Function.Basic
import SegmentLog.Proofs.Store.Steady

/-!
# A crash lands its budget

Any number of stores are written through one fuse, which is told to blow after `n` more bytes. What
becomes of a call is then a matter of how many bytes the calls before it were to write, whichever
stores they went to: the calls that stay within `n` are done in full, the one that goes beyond lands
what is left of `n` and fails, and all that are stopped by a blown fuse change nothing from then on:
`crash_lands_budget`.

The stores themselves never fail to write. What a call does without the fuse is said by the same
stores without it, `Stores.behind` puts it before each of them.
-/
namespace SegmentLog
open Store (Call Reply)

/-- Open stores on one volume. -/
structure Stores (ι : Type) where
  volume : Volume
  store : ι → Store

namespace Stores
variable {ι : Type}

/-- The stores with a fuse before each of them. -/
def behind (r : Stores ι) (f : FuseId) (x : Fuse) : Stores ι :=
  ⟨r.volume.setFuse f x, fun k => (r.store k).behind f⟩

/-- How many bytes the calls are to write. -/
def spent : List (ι × Call) → ℕ
  | [] => 0
  | (_, c) :: calls => c.data.length + spent calls

/-- The contents of the volume once the first `n` bytes of the call have been written, if any. -/
def landed (r : Stores ι) (k : ι) (c : Call) (n : ℕ) : Array Bytes :=
  let s := r.store k
  if n = 0 then r.volume.contents
  else (r.volume.setBytes s.content
    ((r.volume.bytes s.content).overwrite (s.target r.volume c) (c.data.take n))).contents

variable [DecidableEq ι]

/-- Ask one of the stores. -/
def call (r : Stores ι) (k : ι) (c : Call) : Reply × Stores ι :=
  let outcome := (r.store k).call r.volume c
  (outcome.1, ⟨outcome.2.1, Function.update r.store k outcome.2.2⟩)

def run (r : Stores ι) : List (ι × Call) → Stores ι
  | [] => r
  | (k, c) :: calls => (r.call k c).2.run calls

/-- The stores never fail to write, and there is a fuse that none of them has seen. -/
structure Ready (r : Stores ι) (f : FuseId) : Prop where
  there : f < r.volume.fuses.size
  apart : ∀ k, f ∉ (r.store k).fuses
  steady : ∀ k, (r.store k).Steady r.volume

variable {r : Stores ι} {f : FuseId} {x : Fuse} {mark : ℕ} {k : ι} {c : Call}
  {calls : List (ι × Call)}

theorem Ready.call (h : r.Ready f) (k : ι) (c : Call) : (r.call k c).2.Ready f := by
  have keeps := Store.keeps_call r.volume (r.store k) c
  have store (j : ι) : (r.call k c).2.store j =
      if j = k then ((r.store k).call r.volume c).2.2 else r.store j := Function.update_apply ..
  refine ⟨keeps.size ▸ h.there, fun j => ?_, fun j => ?_⟩
  · rw [store]
    split
    · rw [keeps.fuses]
      exact h.apart k
    · exact h.apart j
  · rw [store]
    split
    · exact ⟨keeps.readOnly.trans (h.steady k).writable,
        fun id mem => keeps.idle id ((h.steady k).idle id (keeps.fuses ▸ mem))⟩
    · exact ⟨(h.steady j).writable, fun id mem => keeps.idle id ((h.steady j).idle id mem)⟩

theorem Ready.run (h : r.Ready f) (calls : List (ι × Call)) : (r.run calls).Ready f := by
  induction calls generalizing r with
  | nil => exact h
  | cons call calls ih => exact ih (h.call call.1 call.2)

omit [DecidableEq ι] in
theorem Ready.fuse_behind (h : r.Ready f) (x : Fuse) : (r.behind f x).volume.fuse f = x :=
  Volume.fuse_setFuse h.there x

/-! ## One call -/

theorem call_behind {outcome : Reply × Volume × Store} {y : Fuse}
    (called : ((r.store k).behind f).call (r.volume.setFuse f x) c = Store.fused f y outcome) :
    (r.behind f x).call k c = (outcome.1,
      (⟨outcome.2.1, Function.update r.store k outcome.2.2⟩ : Stores ι).behind f y) := by
  have stores : Function.update (fun j => (r.store j).behind f) k (outcome.2.2.behind f) =
      fun j => (Function.update r.store k outcome.2.2 j).behind f :=
    (Function.comp_update (Store.behind · f) r.store k outcome.2.2).symm
  simp only [Stores.call, behind, called, Store.fused, stores]

theorem Ready.call_within (h : r.Ready f) (armed : x.Armed mark)
    (within : x.written + c.data.length ≤ mark) :
    (r.behind f x).call k c =
      ((r.call k c).1, (r.call k c).2.behind f (x.count c.data.length)) :=
  call_behind (Store.call_within h.there (h.apart k) armed within)

theorem Ready.call_past_blown (h : r.Ready f) (blown : x.blown = true) (passes : c.stops = false) :
    (r.behind f x).call k c = ((r.call k c).1, (r.call k c).2.behind f x) :=
  call_behind (Store.call_past_blown h.there (h.apart k) blown passes)

theorem Ready.call_of_blown (h : r.Ready f) (blown : x.blown = true) (stops : c.stops = true) :
    (r.behind f x).call k c = (.error (.io (.crash c.point)), r.behind f x) := by
  have called := Store.call_of_blown h.there (h.apart k) blown stops
  rw [@call_behind _ _ r f x k c (.error (.io (.crash c.point)), r.volume, r.store k) x called,
    Function.update_eq_self]

omit [DecidableEq ι] in
theorem landed_behind (r : Stores ι) (f : FuseId) (x : Fuse) (k : ι) (c : Call) (n : ℕ) :
    (r.behind f x).landed k c n = r.landed k c n := rfl

/-- All that a call writes lands where there is no fuse that stops it. -/
theorem Ready.contents_call (h : r.Ready f) (k : ι) (some_data : c.data ≠ []) :
    (r.call k c).2.volume.contents = r.landed k c c.data.length := by
  obtain ⟨answer, v', s', done, contents⟩ := (h.steady k).call (Call.writes_of_data some_data)
  have some_bytes : c.data.length ≠ 0 := fun none_bytes =>
    some_data (List.length_eq_zero_iff.mp none_bytes)
  rw [landed, if_neg some_bytes, List.take_length, ← contents some_data, Stores.call, done]

/-- So many bytes as are left of the budget land, and the fuse has blown. -/
theorem Ready.call_across (h : r.Ready f) (armed : x.Armed mark) (within : x.written ≤ mark)
    (across : mark < x.written + c.data.length) (k : ι) :
    ∃ (r' : Stores ι) (y : Fuse),
      (r.behind f x).call k c = (.error (.io (.crash c.point)), r'.behind f y) ∧
        r'.Ready f ∧ y.blown = true ∧ r'.volume.contents = r.landed k c (mark - x.written) := by
  have called := Store.call_across h.there (h.apart k) armed within across
  by_cases left : 0 < mark - x.written
  · rw [if_pos left] at called
    have some_data : c.data ≠ [] := by
      intro none_data
      rw [none_data, List.length_nil] at across
      omega
    -- The front is not empty, so the handle that it goes to writes it.
    have lands : (c.front (mark - x.written)).data ≠ [] := by
      rw [Call.data_front]
      intro none_lands
      rcases List.take_eq_nil_iff.mp none_lands with none_left | none_data
      · omega
      · exact some_data none_data
    obtain ⟨answer, v', s', done, contents⟩ := (h.steady k).call (Call.writes_of_data lands)
    refine ⟨(r.call k (c.front (mark - x.written))).2, _,
      @call_behind _ _ r f x k c
        (.error (.io (.crash c.point)), ((r.store k).call r.volume (c.front (mark - x.written))).2)
        _ called, h.call k _, rfl, ?_⟩
    simp only [Stores.call, done, contents lands, landed, if_neg (Nat.ne_of_gt left),
      Call.data_front, Store.target_front]
  · rw [if_neg left] at called
    refine ⟨r, { x.count c.data.length with blown := true }, ?_, h, rfl, ?_⟩
    · rw [@call_behind _ _ r f x k c (.error (.io (.crash c.point)), r.volume, r.store k) _ called,
        Function.update_eq_self]
    · rw [landed, if_pos (by omega)]

/-! ## Calls one after the other -/

theorem Ready.run_within (h : r.Ready f) (armed : x.Armed mark)
    (within : x.written + spent calls ≤ mark) :
    (r.behind f x).run calls = (r.run calls).behind f (x.count (spent calls)) := by
  induction calls generalizing r x with
  | nil => rfl
  | cons call calls ih =>
      obtain ⟨k, c⟩ := call
      simp only [spent] at within
      have rest := ih (h.call k c) (armed.count c.data.length)
        (by simp only [Fuse.count]; omega)
      have first : x.written + c.data.length ≤ mark := by omega
      simp only [Stores.run, h.call_within armed first, rest, Fuse.count_count, spent]

/-- A fuse that has blown stays as it is. -/
theorem Ready.run_blown (h : r.Ready f) (blown : x.blown = true) (calls : List (ι × Call)) :
    ∃ r' : Stores ι, (r.behind f x).run calls = r'.behind f x ∧ r'.Ready f := by
  induction calls generalizing r with
  | nil => exact ⟨r, rfl, h⟩
  | cons call calls ih =>
      obtain ⟨k, c⟩ := call
      cases stops : c.stops with
      | true =>
          simp only [Stores.run, h.call_of_blown blown stops]
          exact ih h
      | false =>
          simp only [Stores.run, h.call_past_blown blown stops]
          exact ih (h.call k c)

theorem Ready.run_past (h : r.Ready f) (armed : x.Armed mark) (within : x.written ≤ mark)
    (past : mark < x.written + spent calls) :
    ∃ (r' : Stores ι) (y : Fuse),
      (r.behind f x).run calls = r'.behind f y ∧ r'.Ready f ∧ y.blown = true := by
  induction calls generalizing r x with
  | nil => exact absurd past (Nat.not_lt.mpr within)
  | cons call calls ih =>
      obtain ⟨k, c⟩ := call
      simp only [spent] at past
      -- Either this call blows the fuse, and it stays blown, or one of the others does.
      by_cases first : x.written + c.data.length ≤ mark
      · simp only [Stores.run, h.call_within armed first]
        exact ih (h.call k c) (armed.count _) first (by simp only [Fuse.count]; omega)
      · obtain ⟨r', y, called, ready, blown, -⟩ :=
          h.call_across armed within (Nat.lt_of_not_le first) k
        obtain ⟨r'', rest, ready'⟩ := ready.run_blown blown calls
        exact ⟨r'', y, by simp only [Stores.run, called, rest], ready', blown⟩

/-! ## Where a call stands in the budget -/

/-- What becomes of a call after others, by how many bytes these were to write. -/
structure Metered (r : Stores ι) (f : FuseId) (n : ℕ) (before : List (ι × Call)) (k : ι)
    (c : Call) (now : Stores ι) : Prop where
  /-- The call is done as without the fuse, all of it, and there is no crash. -/
  within : spent before + c.data.length ≤ n →
    now.volume.contents = (r.run before).volume.contents ∧
      (now.call k c).1 = ((r.run before).call k c).1 ∧
      (now.call k c).2.volume.contents = ((r.run before).call k c).2.volume.contents ∧
      (c.writes = true → ∃ answer, (now.call k c).1 = .ok answer) ∧
      (c.data ≠ [] → (now.call k c).2.volume.contents = now.landed k c c.data.length) ∧
      ((now.call k c).2.volume.fuse f).blown = false
  /-- The call crashes with what is left of `n` in place. -/
  across : spent before ≤ n → n < spent before + c.data.length →
    (now.call k c).1 = .error (.io (.crash c.point)) ∧
      (now.call k c).2.volume.contents = now.landed k c (n - spent before) ∧
      ((now.call k c).2.volume.fuse f).blown = true
  /-- The crash was before. -/
  past : n < spent before → (now.volume.fuse f).blown = true ∧
    (c.stops = true → now.call k c = (.error (.io (.crash c.point)), now))

theorem crash_lands_budget (ready : r.Ready f) (calm : (r.volume.fuse f).blown = false)
    (syncs : (r.volume.fuse f).failSync = false) (n : ℕ) (before : List (ι × Call)) (k : ι)
    (c : Call) :
    Metered r f n before k c ((r.behind f ((r.volume.fuse f).arm n)).run before) := by
  -- The fuse blows beyond a total, so `n` counts from what was written when it was armed.
  have armed := Fuse.armed_arm calm syncs n
  have start : ((r.volume.fuse f).arm n).written = (r.volume.fuse f).written := rfl
  rw [← start] at armed
  generalize (r.volume.fuse f).arm n = x at armed ⊢
  have reached := armed.count (spent before)
  have written : (x.count (spent before)).written = x.written + spent before := rfl
  have ready' := ready.run before
  refine ⟨fun within => ?_, fun within across => ?_, fun past => ?_⟩
  · rw [ready.run_within armed (by omega), ready'.call_within reached (by omega)]
    refine ⟨rfl, rfl, rfl, fun writes => ?_, fun some_data => ?_, ?_⟩
    · obtain ⟨answer, v', s', done, -⟩ := (ready'.steady k).call writes
      exact ⟨answer, congrArg Prod.fst done⟩
    · rw [landed_behind]
      exact ready'.contents_call k some_data
    · rw [(ready'.call k c).fuse_behind]
      exact armed.blown
  · rw [ready.run_within armed (by omega)]
    have crosses : x.written + n < (x.count (spent before)).written + c.data.length := by omega
    obtain ⟨r', y, called, ready'', blown, contents⟩ :=
      ready'.call_across reached (by omega) crosses k
    rw [called, landed_behind]
    refine ⟨rfl, ?_, ?_⟩
    · rw [written, Nat.add_sub_add_left] at contents
      exact contents
    · rw [ready''.fuse_behind]
      exact blown
  · have crossed : x.written + n < x.written + spent before := by omega
    obtain ⟨r', y, run, ready'', blown⟩ := ready.run_past armed (by omega) crossed
    rw [run]
    refine ⟨?_, fun stops => ready''.call_of_blown blown stops⟩
    rw [ready''.fuse_behind]
    exact blown

/-- Two bytes in memory and, behind an idle fuse, three on a file. -/
def pair : Stores Bool where
  volume := { contents := #[[1, 2], [9, 9, 9]], fuses := #[{}, { written := 4 }] }
  store
    | false => ⟨0, .memory false, []⟩
    | true => ⟨1, .file "log/a" 3 false, [0]⟩

/-- The stores behind a fuse that lasts for three more bytes. -/
def pairArmed : Stores Bool := pair.behind 1 ((pair.volume.fuse 1).arm 3)

def pairCalls : List (Bool × Call) := [(false, .append [5, 6]), (true, .flush)]

/-- Two of the bytes go to one store, the third is the front of a write to the other. -/
theorem crash_lands_budget_pair :
    pair.Ready 1 ∧ (pair.volume.fuse 1).blown = false ∧ (pair.volume.fuse 1).failSync = false ∧
      let crashed := (pairArmed.run pairCalls).call true (.writeAt 1 [7, 8])
      let later := pairArmed.run (pairCalls ++ [(true, .writeAt 1 [7, 8])])
      crashed.1 = .error (.io (.crash .write)) ∧
        crashed.2.volume.contents = #[[1, 2, 5, 6], [9, 7, 9]] ∧
        (crashed.2.volume.fuse 1).blown = true ∧
        later.call false (.append [0]) = (.error (.io (.crash .append)), later) ∧
        later.call true .sync = (.error (.io (.crash .sync)), later) := by
  have ready : pair.Ready 1 := by
    refine ⟨by decide, fun k => ?_, fun k => ?_⟩
    · cases k <;> decide
    · cases k with
      | false => exact ⟨rfl, nofun⟩
      | true => exact ⟨rfl, List.forall_mem_singleton.mpr ⟨rfl, rfl, rfl⟩⟩
  have metered := crash_lands_budget ready rfl rfl 3
  obtain ⟨failed, lands, blown⟩ :=
    (metered pairCalls true (.writeAt 1 [7, 8])).across (by decide) (by decide)
  have landed : (pairArmed.run pairCalls).landed true (.writeAt 1 [7, 8]) 1 =
      #[[1, 2, 5, 6], [9, 7, 9]] := by decide +kernel
  have dead := metered (pairCalls ++ [(true, .writeAt 1 [7, 8])])
  exact ⟨ready, rfl, rfl, failed, lands.trans landed, blown,
    ((dead false (.append [0])).past (by decide)).2 rfl,
    ((dead true .sync).past (by decide)).2 rfl⟩

end Stores
end SegmentLog
