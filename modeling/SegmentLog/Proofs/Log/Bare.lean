import SegmentLog.Proofs.Directory.Kept
import SegmentLog.Proofs.Directory.Memory
import SegmentLog.Proofs.Log.Layout
import SegmentLog.Proofs.Segment.Runs

/-!
# What a log does without a fuse

Each step of a log that no fuse is put before, said by what it does to the bytes of its segments,
whatever these are. Nothing but a refusal can stand in the way of a step, and then nothing was done.
-/
namespace SegmentLog.Log

variable {place : Place} {v : Volume} {removed : ℕ} {ids older : List ContentId}
  {newest : ContentId} {log : Log} {frame : Bytes}

theorem flush_bare (bare : log.active.store.Bare) (v : Volume) :
    flush (v, log) = .ok () (v, { log with ledger := log.ledger.count .flushed }) := by
  have flushed : (liftM (VolumeM.attempt .storage log.active.store.flush) : LogM Unit) (v, log) =
      .ok () (v, log) :=
    LogM.run_lift_of_ok (VolumeM.attempt_of_ok (bare.flush v)) log
  have synced : (liftM (VolumeM.attempt .storage log.active.store.sync) : LogM Unit) (v, log) =
      .ok () (v, log) :=
    LogM.run_lift_of_ok (VolumeM.attempt_of_ok (bare.sync v)) log
  unfold flush
  rw [run_bind_of_ok (show LogM.getLog (v, log) = .ok log (v, log) from rfl),
    run_bind_of_ok flushed, run_bind_of_ok synced]
  rfl

/-! ## Starting a segment -/

/-- A segment was started behind the others. -/
structure Started (place : Place) (removed : ℕ) (ids : List ContentId) (format : Format) (n : ℕ)
    (v v' : Volume) (active : Active) : Prop where
  keeps : place.Keeps v' removed (ids ++ [active.store.content])
  bytes : v'.bytes active.store.content = Header.encode format ++ List.replicate n 0
  others : ∀ id ∈ ids, v'.bytes id = v.bytes id
  segment : active.segment = ids.length
  bare : active.store.Bare
  position : active.position = Header.size

theorem create_unfused {index : ℕ} {header : Bytes} {v' : Volume} {s : Store}
    (h : place.create index header v = .ok s v') :
    Directory.create { place } index header v = .ok s v' := by
  unfold Directory.create
  rw [run_get_bind]
  exact (run_bind_of_ok h).trans rfl

/-- The zeros behind the records of the segment that is written. -/
def Config.reserve (c : Config) (stop : ℕ) : ℕ := if c.preallocate then c.segmentSize - stop else 0

theorem create_started (h : place.Keeps v removed ids) (room : Place.Room (ids.length + 1))
    (c : Config) (format : Format) :
    ∃ active v', Active.create { place } c format ids.length v = .ok active v' ∧
      Started place removed ids format (c.reserve Header.size) v v' active := by
  obtain ⟨s, v₁, created, stocks, contents, opens⟩ :=
    h.stocks.create h.removed_le room (Header.encode format)
  obtain ⟨keeps, stored, others⟩ := h.push stocks contents
  rw [← opens.content] at keeps stored
  have bare : s.Bare := ⟨opens.unfused, opens.access⟩
  unfold Active.create
  rw [run_bind_of_ok (create_unfused created)]
  cases prefilled : c.preallocate with
  | false =>
      refine ⟨_, v₁, rfl, keeps, ?_, others, rfl, bare, rfl⟩
      simpa [Config.reserve, prefilled] using stored
  | true =>
      obtain ⟨s', filled, content, bare'⟩ := bare.preallocate
        (opens.content ▸ opens.size) c.segmentSize
      have step : (Store.run s fun v s => s.preallocate v c.segmentSize) v₁ =
          .ok ((), s') (v₁.setBytes s.content
            (Header.encode format ++ List.replicate (c.reserve Header.size) 0)) := by
        rw [Store.run, filled, stored, Header.length_encode, Config.reserve, if_pos prefilled]
      rw [if_pos rfl, run_bind_of_ok step]
      refine ⟨_, _, rfl, ?_, ?_, fun id mem => ?_, rfl, bare', rfl⟩
      · rw [content]
        exact keeps.setBytes ..
      · rw [content]
        exact Volume.bytes_setBytes (keeps.known _ (List.mem_append_right _ List.mem_cons_self)) _
      · rw [Volume.bytes_setBytes_of_ne (keeps.other mem), others id mem]

/-- A rotation starts the next segment, and the log is otherwise as before. -/
theorem rotate_bare (h : place.Keeps v removed ids) (room : Place.Room (ids.length + 1))
    (directory : log.directory = { place }) (bare : log.active.store.Bare)
    (next : log.active.segment + 1 = ids.length) :
    ∃ active v', rotate (v, log) = .ok active.segment
        (v', { log with active, ledger := (log.ledger.count .flushed).count .created }) ∧
      Started place removed ids log.format (log.config.reserve Header.size) v v' active := by
  obtain ⟨active, v', created, started⟩ := create_started h room log.config log.format
  have after : Directory.indexAfter log.active.segment = ids.length := by
    rw [← next] at room ⊢
    exact room.indexAfter
  rw [← after, ← directory] at created
  refine ⟨active, v', ?_, started⟩
  unfold rotate
  rw [run_bind_of_ok (flush_bare bare v),
    run_bind_of_ok (show LogM.getLog (v, _) = .ok _ _ from rfl),
    run_bind_of_ok (LogM.run_lift_of_ok created _)]
  rfl

/-! ## Writing -/

theorem put_bare (bare : log.active.store.Bare) (v : Volume) (some_bytes : frame ≠ [])
    (fits : log.active.position + frame.length ≤ Pointer.maxOffset) :
    ∃ store, put frame (v, log) =
        .ok ⟨log.active.segment, log.active.position, frame.length⟩
          (v.setBytes log.active.store.content
            ((v.bytes log.active.store.content).overwrite log.active.position frame),
          { log with
            active := ⟨log.active.segment, store, log.active.position + frame.length⟩
            ledger := log.ledger.count (·.appended frame.length) }) ∧
      store.content = log.active.store.content ∧ store.Bare := by
  obtain ⟨store, written, content, bare'⟩ := bare.writeAt v log.active.position some_bytes
  have step : (LogM.onActive fun v s => s.writeAt v log.active.position frame) (v, log) = .ok ()
      (v.setBytes log.active.store.content
        ((v.bytes log.active.store.content).overwrite log.active.position frame),
        { log with active := { log.active with store } }) := by
    simp only [LogM.onActive, written]
  unfold put
  rw [run_bind_of_ok (show LogM.getLog (v, log) = .ok log (v, log) from rfl)]
  dsimp only
  rw [if_neg (Nat.not_lt.mpr fits), run_bind_of_ok step]
  exact ⟨store, rfl, content, bare'⟩

theorem put_bare_beyond (beyond : Pointer.maxOffset < log.active.position + frame.length)
    (v : Volume) : ∃ e, put frame (v, log) = .error e (v, log) := by
  unfold put
  rw [run_bind_of_ok (show LogM.getLog (v, log) = .ok log (v, log) from rfl)]
  dsimp only
  rw [if_pos beyond]
  exact ⟨_, rfl⟩

/-! ## Opening -/

theorem cutAt_kept (h : place.Keeps v removed (older ++ [newest])) {stop : ℕ}
    (within : stop ≤ (v.bytes newest).length) :
    cutAt { place } older.length stop v =
      .ok () (v.setBytes newest ((v.bytes newest).take stop)) := by
  obtain ⟨s, opened, opens⟩ :=
    h.stocks.openSegment h.removed_le_older (List.getElem?_concat_length (a := newest)) false
  have bare : s.Bare := ⟨opens.unfused, opens.access⟩
  have opening : (VolumeM.ofExcept id
      (Directory.openAppend { place } v older.length)) v = .ok s v := by
    rw [Directory.openAppend, opened]
    rfl
  obtain ⟨s', truncated, -, bare'⟩ := bare.truncate (opens.content ▸ opens.size)
    (opens.content ▸ within)
  rw [opens.content] at truncated
  have step : (Store.run s fun v s => s.truncate v stop) v =
      .ok ((), s') (v.setBytes newest ((v.bytes newest).take stop)) := by
    rw [Store.run, truncated]
  unfold cutAt
  rw [run_get_bind, run_bind_of_ok opening, run_bind_of_ok step]
  exact VolumeM.attempt_of_ok (bare'.sync _)

/-- The newest segment loses what follows its frames if that is damaged. Without a header it cannot
be opened. -/
theorem cutTornEnd_kept (h : place.Keeps v removed (older ++ [newest])) (bufferSize : ℕ) :
    (∃ e, cutTornEnd { place } bufferSize older.length v = .error e v) ∨
      ∃ f kept items, Header.encode f <+: v.bytes newest ∧
        Segment.Sealed f older.length (v.bytes newest) kept items ∧
        cutTornEnd { place } bufferSize older.length v = .ok () (v.setBytes newest kept) := by
  obtain ⟨s, opened, opens⟩ :=
    h.stocks.openSegment h.removed_le_older (List.getElem?_concat_length (a := newest)) true
  have stores : Directory.Stores { place } v older.length (v.bytes newest) :=
    ⟨s, opened, opens.holds⟩
  unfold cutTornEnd
  rw [run_get_bind]
  cases header : Header.decode (v.bytes newest) with
  | error fault =>
      rw [Directory.openReader_of_error stores header]
      exact .inl ⟨_, rfl⟩
  | ok f =>
      obtain ⟨r, opened, on, segment, format, position⟩ :=
        Directory.openReader_of_ok stores header 0
        (by simpa using Header.size_le_of_decode header) bufferSize
      obtain ⟨items, stop, run⟩ :=
        Segment.exists_run f older.length (v.bytes newest) Header.size
      have damage := Reader.firstDamage_spec on
      rw [segment, format, position, Nat.zero_max] at damage
      rw [opened]
      have opening : (VolumeM.ofExcept id (.ok r)) v = .ok r v := rfl
      rw [run_bind_of_ok opening, run_get_bind, damage]
      right
      have header := Header.decode_eq_ok_iff.mp header
      by_cases ends : Segment.EndsAt (v.bytes newest) stop
      · rw [Segment.scan_of_ends run ends]
        refine ⟨f, v.bytes newest, items, header, ⟨stop, run, .inl ⟨ends, rfl⟩⟩, ?_⟩
        rw [Volume.setBytes_self]
        rfl
      · obtain ⟨fault, why⟩ := run.ends_or_damaged.resolve_left ends
        rw [Segment.scan_of_damage run why]
        refine ⟨f, _, items, header, ⟨stop, run, .inr ⟨ends, rfl⟩⟩, ?_⟩
        exact cutAt_kept h (Nat.le_of_not_le fun past => ends (.inl past))

/-- What opening a log leaves of the segments that are there: the newest one is sealed. -/
inductive Sealing (v : Volume) : List ContentId → Volume → Prop
  | none_there : Sealing v [] v
  | newest {older : List ContentId} {newest : ContentId} {f : Format} {kept : Bytes}
      {items : List (Pointer × Record)} (header : Header.encode f <+: v.bytes newest)
      (sealed_ : Segment.Sealed f older.length (v.bytes newest) kept items) :
      Sealing v (older ++ [newest]) (v.setBytes newest kept)

/-- What comes of opening a log: its segments are sealed and it starts another one, or nothing was
done. -/
theorem openIn_kept (h : place.Keeps v removed ids) (room : Place.Room (ids.length + 1))
    (c : Config) :
    (∃ v₁ v' log, openIn { place } c v = .ok log v' ∧ Sealing v ids v₁ ∧
      Started place removed ids log.format (c.reserve Header.size) v₁ v' log.active ∧
      log.directory = { place } ∧ log.config = c ∧ Header.size < c.segmentSize ∧
      c.segmentSize ≤ Pointer.maxOffset ∧ log.ledger.pins = []) ∨
    ∃ fault, openIn { place } c v = .error fault v := by
  unfold openIn
  cases version : Format.ofVersion? c.version with
  | none => exact .inr ⟨_, rfl⟩
  | some format =>
      dsimp only
      by_cases size : c.segmentSize ≤ Header.size ∨ Pointer.maxOffset < c.segmentSize
      · rw [if_pos size]
        exact .inr ⟨_, rfl⟩
      rw [if_neg size]
      have listed : (VolumeM.ofExcept id (Directory.list { place } v)) v =
          .ok (List.range' removed (ids.length - removed)) v := by
        rw [Directory.list, h.stocks.list]
        rfl
      rw [run_get_bind, run_bind_of_ok listed]
      have start {v₁ : Volume} (h : place.Keeps v₁ removed ids) :
          ∃ v' log, startIn { place } c format ids.length v₁ = .ok log v' ∧
            Started place removed ids log.format (c.reserve Header.size) v₁ v' log.active ∧
            log.directory = { place } ∧ log.config = c ∧ Header.size < c.segmentSize ∧
            c.segmentSize ≤ Pointer.maxOffset ∧ log.ledger.pins = [] := by
        obtain ⟨active, v', created, started⟩ := create_started h room c format
        obtain ⟨large, small⟩ := not_or.mp size
        unfold startIn
        rw [run_bind_of_ok created]
        exact ⟨v', _, rfl, started, rfl, rfl, Nat.lt_of_not_le large, Nat.le_of_not_lt small, rfl⟩
      rcases List.eq_nil_or_concat ids with rfl | ⟨older, newest, rfl⟩
      · rw [List.length_nil, Nat.zero_sub]
        obtain ⟨v', log, started, rest⟩ := start h
        exact .inl ⟨v, v', log, started, .none_there, rest⟩
      rw [List.concat_eq_append] at *
      have last : (List.range' removed ((older ++ [newest]).length - removed)).getLast? =
          some older.length := by
        have := h.removed_le_older
        rw [List.length_append, List.length_singleton, List.getLast?_range', if_neg (by omega)]
        congr 1
        omega
      rw [last]
      dsimp only
      rcases cutTornEnd_kept h c.bufferSize with
        ⟨e, failed⟩ | ⟨f, kept, items, header, sealed_, cut⟩
      · rw [run_bind_of_error failed]
        exact .inr ⟨e, rfl⟩
      obtain ⟨v', log, started, rest⟩ := start (h.setBytes newest kept)
      rw [run_bind_of_ok cut]
      rw [List.length_append, List.length_singleton] at started room
      rw [← room.indexAfter] at started
      exact .inl ⟨_, v', log, started, .newest header sealed_, rest⟩

end SegmentLog.Log
