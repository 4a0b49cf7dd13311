import SegmentLog.Proofs.Log.Books
import SegmentLog.Proofs.Log.Release

/-!
# What a log does while it is open

Whatever a log is told to do while it is open, its segments stay filled, and what was written to one
of them stays at the front of its contents: `Tends.work`. That goes for calls that fail as well, and
for segments that are removed meanwhile, since their contents are still there for those who have
them open.
-/
namespace SegmentLog

namespace Sheet

/-- The segment as far as it is written. -/
def written (s : Sheet) : Bytes := Header.encode s.image.format ++ s.image.frames.bytes

theorem bytes_eq (s : Sheet) : s.image.bytes = s.written ++ s.image.tail := by
  rw [written, Image.bytes, List.append_assoc]

theorem written_push (s : Sheet) (frame : Bytes) (record : Record) :
    (s.push frame record).written = s.written ++ frame := by
  simp only [written, push, Image.push, Frames.bytes_append, Frames.bytes_cons, Frames.bytes_nil,
    List.append_nil, List.append_assoc]

/-- What was written to the segments is still at the front of their contents, and at most so many
others were started. -/
structure Gains (started : ℕ) (sheets sheets' : List Sheet) : Prop where
  length : sheets.length ≤ sheets'.length
  few : sheets'.length ≤ sheets.length + started
  kept : ∀ sheet ∈ sheets, ∃ sheet' ∈ sheets', sheet'.content = sheet.content ∧
    sheet.written <+: sheet'.written

variable {started started' : ℕ} {sheets sheets' sheets'' : List Sheet}

theorem gains_self (started : ℕ) (sheets : List Sheet) : Gains started sheets sheets :=
  ⟨Nat.le_refl _, Nat.le_add_right _ _, fun sheet mem => ⟨sheet, mem, rfl, List.prefix_refl _⟩⟩

theorem Gains.trans (h : Gains started sheets sheets') (h' : Gains started' sheets' sheets'') :
    Gains (started + started') sheets sheets'' := by
  have := h.few
  have := h'.few
  refine ⟨h.length.trans h'.length, by omega, fun sheet mem => ?_⟩
  obtain ⟨sheet', mem', content, front⟩ := h.kept sheet mem
  obtain ⟨sheet'', mem'', content', front'⟩ := h'.kept sheet' mem'
  exact ⟨sheet'', mem'', content'.trans content, front.trans front'⟩

/-- Another segment is started. -/
theorem gains_concat (sheets : List Sheet) (next : Sheet) : Gains 1 sheets (sheets ++ [next]) := by
  refine ⟨by simp, by simp, fun sheet mem => ?_⟩
  exact ⟨sheet, List.mem_append_left _ mem, rfl, List.prefix_refl _⟩

/-- Another frame is written. -/
theorem gains_push (older : List Sheet) (newest : Sheet) (frame : Bytes) (record : Record) :
    Gains 0 (older ++ [newest]) (older ++ [newest.push frame record]) := by
  refine ⟨by simp, by simp, List.forall_mem_append.mpr ⟨fun sheet mem => ?_,
    List.forall_mem_singleton.mpr ?_⟩⟩
  · exact ⟨sheet, List.mem_append_left _ mem, rfl, List.prefix_refl _⟩
  · refine ⟨newest.push frame record, List.mem_append_right _ List.mem_cons_self, rfl, ?_⟩
    rw [written_push]
    exact List.prefix_append ..

end Sheet

namespace Log
open Sheet

/-- What a log may be told to do while it is open. -/
inductive Work
  | append (record : Record)
  | flush
  | rotate
  | releaseBefore (segment : ℕ)
  | pin (segment : ℕ)
  | unpin (segment : ℕ)
deriving DecidableEq, Repr

namespace Work

/-- Do it, whatever comes of it. -/
def run : Work → Volume × Log → Volume × Log
  | append record => final (Log.append record)
  | flush => final Log.flush
  | rotate => final Log.rotate
  | releaseBefore segment => final (Log.releaseBefore segment)
  | pin segment => final (Log.pin segment)
  | unpin segment => final (LogM.enter (·.unpin segment))

end Work

/-- The log has filled these segments and writes the last of them, and its pins are in order. -/
structure Tends (place : Place) (sheets : List Sheet) (s : Volume × Log) : Prop where
  fills : ∃ removed older newest, sheets = older ++ [newest] ∧ Fills place removed older newest s
  tidy : s.2.ledger.pins.Tidy

variable {place : Place} {sheets older : List Sheet} {newest : Sheet} {removed : ℕ}
  {s : Volume × Log}

theorem Tends.directory (h : Tends place sheets s) : s.2.directory = { place } := by
  obtain ⟨removed, older, newest, -, fills⟩ := h.fills
  exact fills.heads.directory

theorem Tends.segment (h : Tends place sheets s) : s.2.active.segment + 1 = sheets.length := by
  obtain ⟨removed, older, newest, rfl, fills⟩ := h.fills
  rw [fills.segment, List.length_append, List.length_singleton]

/-- What was written to a segment is at the front of its contents. -/
theorem Tends.written_prefix (h : Tends place sheets s) {sheet : Sheet} (mem : sheet ∈ sheets) :
    sheet.written <+: s.1.bytes sheet.content := by
  obtain ⟨removed, older, newest, rfl, fills⟩ := h.fills
  rw [fills.bytes sheet mem, sheet.bytes_eq]
  exact List.prefix_append ..

/-! ## Calls -/

theorem append_gains (h : Fills place removed older newest s) (room : Place.Room (older.length + 2))
    (record : Record) :
    ∃ older' newest', Fills place removed older' newest' (final (append record) s) ∧
      Gains 1 (older ++ [newest]) (older' ++ [newest']) := by
  rcases append_attempts h room record with ⟨e, refused⟩ | ⟨frame, older', newest', lands, puts⟩
  · rw [final_of_error refused]
    exact ⟨older, newest, h, gains_self 1 _⟩
  have gains : Gains 1 (older ++ [newest]) (older' ++ [newest']) := by
    cases lands with
    | stay fits => exact gains_self 1 _
    | turn turns config empty => exact gains_concat _ _
  by_cases reach : newest'.image.stop + frame.length ≤ Pointer.maxOffset
  · obtain ⟨s', done, fills⟩ := puts.done reach
    rw [final_of_ok done]
    exact ⟨older', _, fills, gains.trans (gains_push older' newest' frame record)⟩
  · obtain ⟨e, s', refused, fills⟩ := puts.refused (Nat.lt_of_not_le reach)
    rw [final_of_error refused]
    exact ⟨older', newest', fills, gains⟩

/-- What a log does keeps its segments, and starts at most one. -/
theorem Tends.work (h : Tends place sheets s) (room : Place.Room (sheets.length + 1))
    (work : Work) :
    ∃ sheets', Tends place sheets' (work.run s) ∧ Gains 1 sheets sheets' := by
  obtain ⟨⟨removed, older, newest, rfl, fills⟩, tidy⟩ := h
  rw [List.length_append, List.length_singleton] at room
  cases work with
  | append record =>
      obtain ⟨older', newest', fills', gains⟩ := append_gains fills room record
      exact ⟨_, ⟨⟨_, _, _, rfl, fills'⟩, keepsPins_append record s ▸ tidy⟩, gains⟩
  | flush =>
      obtain ⟨ledger, flushed, fills'⟩ := flush_fills fills
      have pins := keepsPins_flush s
      rw [final_of_ok flushed] at pins
      rw [Work.run, final_of_ok flushed]
      exact ⟨_, ⟨⟨_, _, _, rfl, fills'⟩, pins ▸ tidy⟩, gains_self 1 _⟩
  | rotate =>
      obtain ⟨s', rotated, fills', -⟩ := rotate_fills fills room
      have pins := keepsPins_rotate s
      rw [final_of_ok rotated] at pins
      rw [Work.run, final_of_ok rotated]
      exact ⟨_, ⟨⟨_, _, _, rfl, fills'⟩, pins ▸ tidy⟩, gains_concat _ _⟩
  | releaseBefore segment =>
      obtain ⟨s', done, released⟩ := releaseBefore_exact fills.heads tidy segment
      have pins := keepsPins_releaseBefore segment s
      rw [final_of_ok done] at pins
      rw [Work.run, final_of_ok done]
      exact ⟨_, ⟨⟨_, _, _, rfl, fills.released released⟩, pins ▸ tidy⟩, gains_self 1 _⟩
  | pin segment =>
      rcases books_pin segment s with ⟨_, ledger, pinned, enters⟩ | ⟨e, ledger, failed, enters⟩
      · rw [Work.run, final_of_ok pinned]
        exact ⟨_, ⟨⟨_, _, _, rfl, fills.withLedger _⟩, enters.tidy tidy⟩, gains_self 1 _⟩
      · rw [Work.run, final_of_error failed]
        exact ⟨_, ⟨⟨_, _, _, rfl, fills.withLedger _⟩, enters.tidy tidy⟩, gains_self 1 _⟩
  | unpin segment =>
      exact ⟨_, ⟨⟨_, _, _, rfl, fills.withLedger _⟩, tidy.unpin segment⟩, gains_self 1 _⟩

end Log
end SegmentLog
