import SegmentLog.Proofs.Log.Guards
import SegmentLog.Proofs.Session.Stop

/-!
# Readers of a segment that nothing is reserved in

A reader samples the size of its segment when it is opened. If the segment ends where it is written
to, the reader sees the bytes that were there then, whatever is put behind them later and whenever
it fetches them: `Reader.Sees`. A session that has no segment ahead of such a reader `Owes` the
records of those bytes and no others.
-/
namespace SegmentLog

theorem Bytes.slice_append_left {bs : Bytes} {offset len : ℕ} (within : offset + len ≤ bs.length)
    (later : Bytes) : (bs ++ later).slice offset len = bs.slice offset len := by
  rw [slice, slice, List.drop_append_of_le_length (by omega),
    List.take_append_of_le_length (by rw [List.length_drop]; omega)]

namespace Reader
variable {r r' : Reader} {v : Volume} {id : ContentId} {bs : Bytes} {n : ℕ} {outcome : Outcome}

/-! ## What a reader keeps -/

/-- The reader is on the same store, for the same segment. -/
structure Stays (r r' : Reader) : Prop where
  segment : r'.segment = r.segment
  store : r'.store = r.store

theorem stays_self (r : Reader) : r.Stays r := ⟨rfl, rfl⟩

theorem Stays.trans {r'' : Reader} (h : r.Stays r') (h' : r'.Stays r'') : r.Stays r'' :=
  ⟨h'.segment.trans h.segment, h'.store.trans h.store⟩

theorem stays_fill (h : r.fill v n = .ok (some r')) : r.Stays r' := by
  unfold fill at h
  dsimp only at h
  split at h
  · cases h
    exact stays_self r
  split at h
  · cases h
  split at h
  · cases h
    exact ⟨rfl, rfl⟩
  · cases h

theorem stays_readFrame (h : r.readFrame v n = .ok (outcome, r')) : r.Stays r' := by
  obtain ⟨filled, fetched, h⟩ := bind_eq_ok.mp h
  cases filled with
  | none =>
      cases h
      exact ⟨rfl, rfl⟩
  | some s =>
      have stays := stays_fill fetched
      dsimp only at h
      split at h
      · cases h
        exact ⟨stays.segment, stays.store⟩
      · cases h
        exact ⟨stays.segment, stays.store⟩

theorem stays_next (h : r.next v = .ok (outcome, r')) : r.Stays r' := by
  unfold next at h
  split at h
  · cases h
    exact ⟨rfl, rfl⟩
  obtain ⟨filled, fetched₁, h⟩ := bind_eq_ok.mp h
  cases filled with
  | none =>
      cases h
      exact ⟨rfl, rfl⟩
  | some r₁ =>
      have first := stays_fill fetched₁
      dsimp only at h
      split at h
      · cases h
        exact ⟨first.segment, first.store⟩
      obtain ⟨filled, fetched₂, h⟩ := bind_eq_ok.mp h
      cases filled with
      | none =>
          cases h
          exact ⟨first.segment, first.store⟩
      | some r₂ =>
          have second := first.trans (stays_fill fetched₂)
          dsimp only at h
          split at h
          · cases h
            exact ⟨second.segment, second.store⟩
          split at h
          · cases h
            exact ⟨second.segment, second.store⟩
          exact second.trans (stays_readFrame h)

/-! ## What a reader sees -/

/-- The reader is open on these bytes, whatever stands behind them. -/
def Sees (r : Reader) (id : ContentId) (bs : Bytes) : Prop :=
  ∀ v : Volume, bs <+: v.bytes id → r.On v bs

theorem On.sees (h : r.On v bs) (content : r.store.content = id) (reads : r.store.Reads bs.length) :
    r.Sees id bs := by
  intro v' front
  refine ⟨fun offset len within => ?_, h.size, h.position_le, h.buffered, h.unfinished⟩
  obtain ⟨later, same⟩ := front
  rw [reads v' offset len within (by rw [content, ← same, List.length_append]; omega), content,
    ← same, Bytes.slice_append_left within]

/-- The reader finds what the bytes hold, and goes on seeing them. -/
theorem Sees.next (h : r.Sees id bs) (front : bs <+: v.bytes id) :
    ∃ r', r.next v = .ok (Segment.read r.format r.segment bs r.position, r') ∧
      r'.segment = r.segment ∧ r'.format = r.format ∧
      ∀ p record, Segment.read r.format r.segment bs r.position = .record p record →
        r'.Sees id bs ∧ r'.position = r.position + p.length := by
  obtain ⟨r', found, after⟩ := next_spec (h v front)
  refine ⟨r', found, after.segment, after.format, fun p record here => ?_⟩
  obtain ⟨on, position⟩ := after.record p record here
  refine ⟨fun v' front' => ?_, position⟩
  have stored := (h v' front').stored
  rw [← (stays_next found).store] at stored
  exact ⟨stored, on.size, on.position_le, on.buffered, on.unfinished⟩

/-- A reader of a segment that is there sees what its contents are when it is opened. -/
theorem sees_of_openReader {place : Place} {removed k start bufferSize : ℕ} {ids : List ContentId}
    {f : Format} (keeps : place.Keeps v removed ids) (there : ids[k]? = some id)
    (header : Header.decode (v.bytes id) = .ok f)
    (opened : Directory.openReader { place } v bufferSize k start = .ok r) :
    r.Sees id (v.bytes id) ∧ r.segment = k ∧ r.format = f ∧
      r.position = max start Header.size := by
  obtain ⟨store, found, started⟩ := bind_eq_ok.mp opened
  have present : removed ≤ k := by
    by_contra gone
    have missing := keeps.stocks.openSegment_missing (.inl (Nat.lt_of_not_le gone)) true
    cases found.symm.trans missing
  obtain ⟨s, found', opens⟩ := keeps.stocks.openSegment present there true
  cases found.symm.trans found'
  have within : start ≤ (v.bytes id).length := by
    by_contra past
    rw [openAt_of_past opens.holds header (Nat.lt_of_not_le past)] at started
    cases started
  obtain ⟨r', started', on, segment, format, position⟩ := openAt_of_ok opens.holds header start
    (Nat.max_le.mpr ⟨within, Header.size_le_of_decode header⟩) k bufferSize
  cases started.symm.trans started'
  obtain ⟨rfl, -⟩ := store_of_openAt started
  exact ⟨on.sees opens.content opens.reads, segment, format, position⟩

end Reader

namespace Session
variable {s s' : Session} {r : Reader} {v : Volume} {id : ContentId} {bs : Bytes}
  {ahead : List ℕ} {answer : Except Ending (Pointer × Record)} {k : ℕ}

/-! ## What a session gives -/

/-- The session has no segment ahead of a reader that sees these bytes, or no reader any more, and
it is to give these records. -/
inductive Owes (s : Session) (id : ContentId) (bs : Bytes) : List (Pointer × Record) → Prop
  | reading {r : Reader} (reader : s.reader = some r) (last : s.ahead = []) (sees : r.Sees id bs) :
      Owes s id bs
        ((Segment.scan r.format r.segment bs r.position).1.takeWhile (InFront s.stop))
  | exhausted (reader : s.reader = none) : Owes s id bs []

/-- The answer of a session that is to give these records: the first of them, and the others are to
come, or the end if there is none. -/
inductive Pays (id : ContentId) (bs : Bytes) :
    List (Pointer × Record) → Except Ending (Pointer × Record) × Session → Prop
  | record {item : Pointer × Record} {rest : List (Pointer × Record)} {s' : Session}
      (owes : s'.Owes id bs rest) : Pays id bs (item :: rest) (.ok item, s')
  | ended {ending : Ending} {s' : Session} (reader : s'.reader = none) :
      Pays id bs [] (.error ending, s')

theorem readOn_pays (sees : r.Sees id bs) (front : bs <+: v.bytes id) (s : Session) :
    Pays id bs ((Segment.scan r.format r.segment bs r.position).1.takeWhile (InFront s.stop))
      (s.readOn v r []) := by
  obtain ⟨r', found, segment, format, goes_on⟩ := sees.next front
  unfold readOn
  rw [found]
  cases here : Segment.read r.format r.segment bs r.position with
  | finish =>
      rw [Segment.scan_of_finish here]
      exact .ended rfl
  | damaged fault =>
      rw [Segment.scan_of_damaged here]
      exact .ended rfl
  | record p record =>
      obtain ⟨sees', position⟩ := goes_on p record here
      rw [Segment.scan_of_record here, List.takeWhile_cons]
      dsimp only
      by_cases stops : InFront s.stop (p, record)
      · rw [if_pos (decide_eq_true stops), give,
          if_neg (by rwa [any_compare_iff s.stop p record, not_not])]
        have owes : Owes { s with reader := some r', ahead := [], last := some p } id bs _ :=
          .reading rfl rfl sees'
        rw [segment, format, position] at owes
        exact .record owes
      · rw [if_neg (by rwa [decide_eq_true_eq]), give,
          if_pos (by rwa [any_compare_iff s.stop p record])]
        exact .ended rfl

theorem Owes.next {rest : List (Pointer × Record)} (h : s.Owes id bs rest)
    (front : bs <+: v.bytes id) : Pays id bs rest (s.next v) := by
  cases h with
  | reading reader last sees =>
      rw [Session.next, reader, last]
      exact readOn_pays sees front s
  | exhausted reader =>
      rw [Session.next, reader]
      exact .ended reader

end Session
end SegmentLog
