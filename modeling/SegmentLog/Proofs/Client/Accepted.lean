import SegmentLog.Proofs.Client.RoundTrip
import SegmentLog.Proofs.Log.Unreadable

/-!
# What a log accepts and gives back

Main statement: `run_accepted`. Whatever records are appended to a log, it refuses them or gives
back what is kept of them, as long as there is no checkpoint among them with a snapshot that reading
refuses. It treats a record like what is kept of it, so this comes down to records that are read
back as they are.

Such a checkpoint is accepted like any other record. It is the only kind that is not read back, and
reading takes it for the torn end of the log. That hides what was appended after it, and opening the
log again cuts it all off (`run_swallowing`).
-/
namespace SegmentLog

namespace Log

theorem write_stored (record : Record) : write record.stored = write record := by
  simp only [write, Record.kind_stored, Frame.encode_stored]

theorem append_stored (record : Record) : append record.stored = append record := by
  simp only [append, write_stored]

theorem write_header {record : Record} (kind : record.kind = .header) (s : Volume × Log) :
    write record s = .error (.argument .headerAppended) s := by
  rw [write, if_pos kind]
  rfl

theorem append_header {record : Record} (kind : record.kind = .header) (s : Volume × Log) :
    append record s = .error (.argument .headerAppended) s :=
  run_bind_of_error (write_header kind s)

end Log

namespace Client

/-- A record with its pointer, as far as it is kept. -/
def kept (e : Pointer × Record) : Pointer × Record := (e.1, e.2.stored)

namespace Attempt

/-- The account of an append if only what is kept of the record had been appended. -/
def stored (a : Attempt) : Attempt := { a with record := a.record.stored }

theorem stored_make (c : Client) (record : Record) :
    (make c record).stored = make c record.stored := by
  simp only [stored, make, Log.write_stored, Log.append_stored]

theorem acknowledged_stored (a : Attempt) : a.stored.acknowledged = a.acknowledged.map kept := by
  simp only [acknowledged, stored]
  cases a.answer <;> rfl

theorem filterMap_acknowledged_stored (history : List Attempt) :
    (history.map stored).filterMap acknowledged = (history.filterMap acknowledged).map kept := by
  rw [List.filterMap_map, List.map_filterMap]
  exact List.filterMap_congr fun a _ => acknowledged_stored a

end Attempt

/-- No record is appended that reading refuses. -/
def Action.Readable : Action → Prop
  | append record => record.Readable
  | simulate | openLog _ | closeLog | flush | rotate | arm _ | failSync _ => True

instance : (a : Action) → Decidable a.Readable
  | .append record => inferInstanceAs (Decidable record.Readable)
  | .simulate | .openLog _ | .closeLog | .flush | .rotate | .arm _ | .failSync _ =>
    inferInstanceAs (Decidable True)

variable {c : Client} {history : List Attempt}

/-- A log refuses the headers of segments, and nothing comes of that. -/
theorem Inv.append_header (h : Inv c history) {record : Record} (kind : record.kind = .header) :
    Inv (final (Client.onLog (Log.append record)) c) (history ++ [.make c record]) := by
  have refused : ∃ refusal, Client.onLog (Log.append record) c = .error refusal c ∧
      Client.onLog (Log.write record) c = .error refusal c := by
    cases hl : c.log with
    | none => exact ⟨.absent, onLog_of_none hl, onLog_of_none hl⟩
    | some log =>
        have same : { c with log := some log } = c := by rw [← hl]
        have appended := onLog_of_error hl (Log.append_header kind (c.volume, log))
        have written := onLog_of_error hl (Log.write_header kind (c.volume, log))
        exact ⟨_, same ▸ appended, same ▸ written⟩
  obtain ⟨refusal, appended, written⟩ := refused
  have answer : (Attempt.make c record).answer = .error refusal := by
    simp only [Attempt.make, appended]
  rw [final_of_error appended]
  refine h.nothing ?_ answer
  simp only [Attempt.make, Attempt.entry, written, Option.map_none]

theorem Inv.append_stored (h : Inv c history) {record : Record} (readable : record.Readable) :
    Inv (final (Client.onLog (Log.append record)) c) (history ++ [.make c record.stored]) := by
  -- the log does for what is kept of the record what it does for the record
  rw [← Log.append_stored]
  by_cases kind : record.kind = .header
  · exact h.append_header ((Record.kind_stored record).trans kind)
  · exact h.append (Record.wellFormed_stored kind readable)

/-- Whatever is appended, the volume shows what is kept of it. -/
theorem Inv.accept (h : Inv c (history.map Attempt.stored)) {a : Action} (readable : a.Readable)
    (none_fused : c.fused = none) :
    Inv (final a.call c) ((history ++ a.attempts c).map Attempt.stored) := by
  rw [List.map_append]
  cases a with
  | append record =>
      simp only [Action.call, Action.attempts, final_bind_pure, List.map_cons, List.map_nil,
        Attempt.stored_make]
      exact h.append_stored readable
  | simulate => exact h.perform (a := .simulate) trivial (Or.inl none_fused)
  | openLog config => exact h.perform (a := .openLog config) trivial (Or.inl none_fused)
  | closeLog => exact h.perform (a := .closeLog) trivial (Or.inl none_fused)
  | flush => exact h.perform (a := .flush) trivial (Or.inl none_fused)
  | rotate => exact h.perform (a := .rotate) trivial (Or.inl none_fused)
  | arm len => exact h.perform (a := .arm len) trivial (Or.inl none_fused)
  | failSync fail => exact h.perform (a := .failSync fail) trivial (Or.inl none_fused)

theorem Inv.accepts {actions : List Action} (h : Inv c (history.map Attempt.stored))
    (readable : ∀ a ∈ actions, a.Readable) (none_fused : c.fused = none)
    (calm : .simulate ∉ actions) :
    Inv (Client.run actions (c, history)).1
      ((Client.run actions (c, history)).2.map Attempt.stored) := by
  induction actions generalizing c history with
  | nil => exact h
  | cons a actions ih =>
      obtain ⟨head, tail⟩ := List.forall_mem_cons.mp readable
      obtain ⟨ha, later⟩ := not_or.mp (mt List.mem_cons.mpr calm)
      apply ih (h.accept head none_fused) tail _ later
      exact (fused_call (Ne.symm ha) c).trans none_fused

/-- Reading everything past the log gives what was acknowledged. -/
theorem Inv.transcript (h : Inv c history) (none_fused : c.fused = none) {d : Directory}
    (place : d.place = .memory) (bufferSize : ℕ) :
    Session.transcript d c.volume bufferSize =
      .ok (history.filterMap Attempt.acknowledged, none) := by
  obtain ⟨s, opened, items, ending⟩ := h.shows.drain place bufferSize
  have ending : (s.drain c.volume).ending = some .finish := by
    apply ending.resolve_right
    rintro ⟨fused, -⟩
    rw [none_fused] at fused
    cases fused
  rw [h.acknowledged none_fused]
  exact Session.Delivers.transcript ⟨s, opened, items, ending⟩

/-- An acknowledged record that is readable is behind the others, and its pointer leads to it. -/
theorem Inv.outcome_readable (h : Inv c (history.map Attempt.stored)) (none_fused : c.fused = none)
    {record : Record} (readable : record.Readable) {p : Pointer} {c' : Client} {log : Log}
    (done : Client.onLog (Log.append record) c = .ok p c') (hl : c'.log = some log) :
    log.readRecord c'.volume p = .ok record.stored ∧
      ∀ bufferSize, Session.transcript log.directory c'.volume bufferSize =
        .ok ((history.filterMap Attempt.acknowledged).map kept ++ [(p, record.stored)], none) := by
  have answer : (Attempt.make c record.stored).acknowledged = some (p, record.stored) := by
    simp only [Attempt.make, Attempt.acknowledged, Log.append_stored, done]
  have items : (history.map Attempt.stored ++ [Attempt.make c record.stored]).filterMap
      Attempt.acknowledged =
        (history.filterMap Attempt.acknowledged).map kept ++ [(p, record.stored)] := by
    rw [List.filterMap_append, Attempt.filterMap_acknowledged_stored,
      List.filterMap_cons_some answer, List.filterMap_nil]
  have none_fused' : c'.fused = none := by
    rw [← final_of_ok done, fused_onLog, none_fused]
  have after := h.append_stored readable
  rw [final_of_ok done] at after
  have place : log.directory.place = .memory := by rw [(after.log log hl).2, directory]
  refine ⟨?_, fun bufferSize => ?_⟩
  · apply (after.roundTrip none_fused').reads log hl
    rw [items]
    exact List.mem_append_right _ List.mem_cons_self
  · rw [after.transcript none_fused' place, items]

/-- An acknowledged record that is not readable is never read. -/
theorem Inv.outcome_unreadable (h : Inv c (history.map Attempt.stored))
    (none_fused : c.fused = none) {record : Record} (unreadable : ¬record.Readable) {p : Pointer}
    {c' : Client} {log : Log} (done : Client.onLog (Log.append record) c = .ok p c')
    (hl : c'.log = some log) :
    (∃ fault, log.readRecord c'.volume p = .error (.record p.segment p.offset fault)) ∧
      ∀ bufferSize, Session.transcript log.directory c'.volume bufferSize =
        .ok ((history.filterMap Attempt.acknowledged).map kept, none) := by
  cases before : c.log with
  | none =>
      rw [onLog_of_none before] at done
      cases done
  | some log₀ =>
      obtain ⟨shows, ours⟩ := h.log log₀ before
      rw [← h.acknowledged none_fused, Attempt.filterMap_acknowledged_stored] at shows
      have none_fuse : log₀.directory.fuse = none := by
        rw [ours, directory, none_fused]
        rfl
      cases appended : Log.append record (c.volume, log₀) with
      | error e s =>
          rw [onLog_of_error before appended] at done
          cases done
      | ok p' s =>
          rw [onLog_of_ok before appended] at done
          cases done
          cases hl
          obtain ⟨fault, refused⟩ := Log.append_unreadable shows none_fuse unreadable appended
          exact ⟨⟨fault, (refused _).1⟩, fun bufferSize => (refused bufferSize).2⟩

/-- A client in memory reads back what is kept of all that it was told was appended, whatever it
appended, as long as the snapshots of checkpoints are valid. Whether a record that it appends next
is read back depends on that alone. -/
theorem run_accepted (actions : List Action) (readable : ∀ a ∈ actions, a.Readable)
    (calm : .simulate ∉ actions) :
    RoundTrip (run actions (inMemory, [])).1
        (((run actions (inMemory, [])).2.filterMap Attempt.acknowledged).map kept) ∧
      ∀ record p c', onLog (Log.append record) (run actions (inMemory, [])).1 = .ok p c' →
        ∀ log ∈ c'.log,
          (∀ found, log.readRecord c'.volume p = .ok found ↔
            record.Readable ∧ found = record.stored) ∧
          ∀ bufferSize, Session.transcript log.directory c'.volume bufferSize =
            .ok (((run actions (inMemory, [])).2.filterMap Attempt.acknowledged).map kept ++
              if record.Readable then [(p, record.stored)] else [], none) := by
  have start : Inv inMemory (List.map Attempt.stored []) := inv_inMemory
  have shown := start.accepts readable rfl calm
  have none_fused := fused_run calm inMemory []
  have roundTrip := shown.roundTrip none_fused
  rw [Attempt.filterMap_acknowledged_stored] at roundTrip
  refine ⟨roundTrip, fun record p c' done log hl => ?_⟩
  by_cases readable : record.Readable
  · obtain ⟨read, told⟩ := shown.outcome_readable none_fused readable done hl
    refine ⟨fun found => ?_, fun bufferSize => ?_⟩
    · rw [read, Except.ok.injEq, eq_comm, and_iff_right readable]
    · rw [told, if_pos readable]
  · obtain ⟨⟨fault, refused⟩, told⟩ := shown.outcome_unreadable none_fused readable done hl
    refine ⟨fun found => ?_, fun bufferSize => ?_⟩
    · rw [refused]
      exact iff_of_false (fun e => nomatch e) fun both => readable both.1
    · rw [told, if_neg readable, List.append_nil]

/-- A page update with bytes beside its reference, the header of a segment, and a log that is opened
again between two records. -/
def referring : List Action :=
  [.openLog {}, .append (.data ⟨⟨1⟩, ⟨0⟩⟩ 1 [7]),
    .append (.pageUpdate ⟨⟨1⟩, ⟨2⟩, 0, 1, some ⟨0, 15, 28⟩, [7]⟩), .append (.header 2),
    .openLog { version := 1 }, .append (.pageRemove ⟨1⟩ ⟨2⟩ 0)]

/-- A checkpoint that says of an update counter that it has an empty gap. -/
def unreadable : Record := .checkpoint 1 [⟨⟨⟨1⟩, ⟨0⟩⟩, ⟨0, [⟨5, 0⟩]⟩⟩]

/-- The checkpoint is the first record that is acknowledged and not read back. -/
theorem run_accepted_referring :
    let items : List (Pointer × Record) := [(⟨0, 15, 28⟩, .data ⟨⟨1⟩, ⟨0⟩⟩ 1 [7]),
      (⟨0, 43, 44⟩, .pageUpdate ⟨⟨1⟩, ⟨2⟩, 0, 1, some ⟨0, 15, 28⟩, []⟩),
      (⟨1, 15, 19⟩, .pageRemove ⟨1⟩ ⟨2⟩ 0)]
    RoundTrip (run referring (inMemory, [])).1 items ∧
      ∃ c' log, onLog (Log.append unreadable) (run referring (inMemory, [])).1 =
          .ok ⟨1, 34, 55⟩ c' ∧ c'.log = some log ∧
        (∀ found, log.readRecord c'.volume ⟨1, 34, 55⟩ ≠ .ok found) ∧
        Session.transcript log.directory c'.volume 64 = .ok (items, none) := by
  intro items
  have acknowledged : ((run referring (inMemory, [])).2.filterMap Attempt.acknowledged).map kept =
      items := by decide +kernel
  have accepted := run_accepted referring (by decide) (by decide)
  rw [acknowledged] at accepted
  refine ⟨accepted.1, ?_⟩
  have answer : (Attempt.make (run referring (inMemory, [])).1 unreadable).answer =
      .ok ⟨1, 34, 55⟩ := by decide +kernel
  have some_log : (final (onLog (Log.append unreadable))
      (run referring (inMemory, [])).1).log.isSome := by decide +kernel
  cases done : onLog (Log.append unreadable) (run referring (inMemory, [])).1 with
  | error refusal c' =>
      simp only [Attempt.make, done] at answer
      cases answer
  | ok p c' =>
      simp only [Attempt.make, done] at answer
      cases answer
      rw [final_of_ok done] at some_log
      obtain ⟨log, hl⟩ := Option.isSome_iff_exists.mp some_log
      obtain ⟨reads, told⟩ := accepted.2 unreadable _ c' done log hl
      have refused : ¬unreadable.Readable := by decide
      refine ⟨c', log, rfl, hl, fun found h => refused ((reads found).mp h).1, ?_⟩
      have told := told 64
      rwa [if_neg refused, List.append_nil] at told

/-- The checkpoint and another record are appended to a fresh log. -/
def swallowing : List Action :=
  [.openLog {}, .append unreadable, .append (.data ⟨⟨1⟩, ⟨0⟩⟩ 1 [7])]

/-- Both records are acknowledged, and neither is ever read. When the log is opened again, its first
segment is cut down to the header. -/
theorem run_swallowing :
    (run swallowing (inMemory, [])).2.filterMap Attempt.acknowledged =
      [(⟨0, 15, 59⟩, unreadable), (⟨0, 74, 28⟩, .data ⟨⟨1⟩, ⟨0⟩⟩ 1 [7])] ∧
    (run swallowing (inMemory, [])).1.log.map
        (·.readRecord (run swallowing (inMemory, [])).1.volume ⟨0, 15, 59⟩) =
      some (.error (.record 0 15 (.format (.emptyGap 5)))) ∧
    Session.transcript { place := .memory } (run swallowing (inMemory, [])).1.volume
      Session.defaultBufferSize = .ok ([], none) ∧
    (run (swallowing ++ [.openLog {}]) (inMemory, [])).1.volume.segment? 0 =
      some (Header.encode .checked) ∧
    Session.transcript { place := .memory }
      (run (swallowing ++ [.openLog {}]) (inMemory, [])).1.volume Session.defaultBufferSize =
        .ok ([], none) := by
  decide +kernel

end Client
end SegmentLog
