import SegmentLog.Proofs.Log.Layout

/-!
# What writing a record leaves

A record that is written stands after all others, with a pointer to it: `write_writes`. A write that
fails leaves the records as they were. It fails because of the record alone, on its way through the
fuse, or because every index has its segment.
-/
namespace SegmentLog

theorem Bytes.resize_front (front rest : Bytes) : (front ++ rest).resize front.length = front := by
  rw [resize, List.take_left, List.length_append, Nat.sub_eq_zero_of_le (by omega),
    List.replicate_zero, List.append_nil]

/-- Writing at the end of a front leaves the front, and what lies behind the data. -/
theorem Bytes.overwrite_front (front rest data : Bytes) :
    (front ++ rest).overwrite front.length data = front ++ (data ++ rest.drop data.length) := by
  rw [overwrite, resize_front, List.append_assoc, ← List.drop_drop, List.drop_left]

namespace Image

/-- The image with another frame at its end. -/
def push (i : Image) (frame : Bytes) (record : Record) : Image :=
  ⟨i.format, i.frames ++ [(frame, record)], i.tail.drop frame.length⟩

/-- The image with other bytes after its frames. -/
def withTail (i : Image) (tail : Bytes) : Image := { i with tail }

variable {i : Image} {frame : Bytes}

theorem bytes_eq (i : Image) : i.bytes = (Header.encode i.format ++ i.frames.bytes) ++ i.tail := by
  rw [bytes, List.append_assoc]

theorem stop_eq (i : Image) : i.stop = (Header.encode i.format ++ i.frames.bytes).length := by
  rw [stop, List.length_append, Header.length_encode]

theorem overwrite_stop (i : Image) (data : Bytes) :
    i.bytes.overwrite i.stop data = (i.withTail (data ++ i.tail.drop data.length)).bytes := by
  rw [bytes_eq, stop_eq, Bytes.overwrite_front, bytes_eq]
  rfl

theorem resize_stop (i : Image) : i.bytes.resize i.stop = (i.withTail []).bytes := by
  rw [bytes_eq, stop_eq, Bytes.resize_front, bytes_eq]
  exact (List.append_nil _).symm

theorem stop_le (i : Image) : i.stop ≤ i.bytes.length := by
  simp only [bytes_eq, stop_eq, List.length_append]
  omega

theorem bytes_push (record : Record) : (i.push frame record).bytes =
    (i.withTail (frame ++ i.tail.drop frame.length)).bytes := by
  simp only [bytes, push, withTail, Frames.bytes_append, Frames.bytes_cons, Frames.bytes_nil,
    List.append_nil, List.append_assoc]

theorem stop_push (record : Record) : (i.push frame record).stop = i.stop + frame.length := by
  simp only [stop, push, Frames.bytes_append, Frames.bytes_cons, Frames.bytes_nil, List.append_nil,
    List.length_append, Nat.add_assoc]

theorem items_push (record : Record) (segment : ℕ) : (i.push frame record).items segment =
    i.items segment ++ [(⟨segment, i.stop, frame.length⟩, record)] := by
  rw [items, push, Frames.items_append]
  rfl

theorem sound_push {record : Record} (h : i.Sound)
    (decoded : Frame.decode i.format frame = .ok record)
    (fits : i.stop + frame.length ≤ Pointer.maxOffset) : (i.push frame record).Sound := by
  refine ⟨?_, by rwa [stop_push]⟩
  intro e he
  rcases List.mem_append.mp he with he | he
  · exact h.readable e he
  · cases List.mem_singleton.mp he
    exact decoded

end Image

namespace Log

variable {log : Log} {v : Volume} {older : List Image} {image : Image}

/-- The outcome of a write to the active segment, which leaves its store as it is. -/
theorem onActive_of_ok {α : Type} {f : Volume → Store → Except StorageFault α × Volume × Store}
    {v' : Volume} {a : α} (h : f v log.active.store = (.ok a, v', log.active.store)) :
    LogM.onActive f (v, log) = .ok a (v', log) := by
  simp only [LogM.onActive, h]

theorem onActive_of_error {α : Type} {f : Volume → Store → Except StorageFault α × Volume × Store}
    {v' : Volume} {fault : StorageFault}
    (h : f v log.active.store = (.error fault, v', log.active.store)) :
    LogM.onActive f (v, log) = .error (.storage fault) (v', log) := by
  simp only [LogM.onActive, h]

/-- What is left of a write that the fuse cut short: the front of a frame, or nothing. -/
theorem Laid.cut (h : log.Laid v older image) {frame : Bytes} {record : Record} {landed : ℕ}
    (decoded : Frame.decode log.format frame = .ok record) (short : landed < frame.length)
    (nothing : log.directory.hasBlown v = true → landed = 0) (fused : log.directory.fuse.isSome)
    {v₁ : Volume} (alike : v.Alike v₁) (blown : log.directory.hasBlown v₁ = true) :
    ∃ v₂ tail, v₂ = (if 0 < landed then
        v₁.setBytes older.length (image.bytes.overwrite image.stop (frame.take landed)) else v₁) ∧
      log.Laid v₂ older (image.withTail tail) ∧ v₂.fuses.size = v.fuses.size ∧
      log.directory.hasBlown v₂ = true := by
  have there := h.alike alike (fun _ => blown) log.ledger
  by_cases landing : 0 < landed
  · have calm : log.directory.hasBlown v = false := by
      by_contra hb
      have := nothing (by simpa using hb)
      omega
    obtain ⟨n, zeros, few⟩ := h.blank calm
    -- behind a fuse no segment is filled up beforehand, so the front ends the segment
    have none_left : image.tail = [] := by
      rcases few with rfl | none_fuse
      · exact zeros
      · rw [none_fuse] at fused
        cases fused
    refine ⟨_, frame.take landed, rfl, ?_⟩
    rw [if_pos landing, image.overwrite_stop, none_left, List.drop_nil, List.append_nil]
    refine ⟨?_, alike.fuses, blown⟩
    have torn : Torn image.format (frame.take landed) :=
      h.format ▸ torn_take decoded landing short
    exact ⟨h.place, there.wired, h.bounded, h.bare, h.active, h.format, there.holds.setBytes _,
      h.older, ⟨h.sound.readable, h.sound.fits⟩, Or.inr ⟨torn, blown⟩⟩
  · exact ⟨_, image.tail, rfl, by rwa [if_neg landing], by rw [if_neg landing, alike.fuses],
      by rwa [if_neg landing]⟩

/-- A frame is put behind the others, or the fuse blows. -/
theorem put_cases (h : log.Laid v older image) {frame : Bytes} {record : Record}
    (decoded : Frame.decode log.format frame = .ok record)
    (fits : image.stop + frame.length ≤ Pointer.maxOffset) :
    (∃ v' log', put frame (v, log) = .ok ⟨older.length, image.stop, frame.length⟩ (v', log') ∧
      log'.Laid v' older (image.push frame record) ∧ Follows (v, log) (v', log') ∧
      log.directory.hasBlown v = false ∧ log.directory.hasBlown v' = false) ∨
    ∃ v' e tail, put frame (v, log) = .error e (v', log) ∧
      log.Laid v' older (image.withTail tail) ∧ Follows (v, log) (v', log) ∧
      log.directory.fuse.isSome ∧ log.directory.hasBlown v' = true := by
  have bytes : v.bytes older.length = image.bytes := h.holds.bytes List.getElem?_concat_length
  have store : log.active.store = ⟨older.length, .memory false, log.directory.fuse.toList⟩ := by
    rw [h.active]
  have lead := Frame.leadSize_le_of_decode decoded
  have some_bytes : frame ≠ [] := by
    rintro rfl
    exact absurd lead (by decide)
  unfold put
  rw [run_bind_of_ok (show LogM.getLog (v, log) = .ok log (v, log) from rfl)]
  have segment : log.active.segment = older.length := by rw [h.active]
  have position : log.active.position = image.stop := by rw [h.active]
  dsimp only
  rw [segment, position, if_neg (by omega)]
  have written := Directory.writeAt_cases h.wired older.length image.stop some_bytes
  rw [← store, bytes, image.overwrite_stop, ← Image.bytes_push record] at written
  rcases written with
    ⟨v₁, written, alike, calm, still⟩ | ⟨v₁, landed, failed, short, nothing, fused, alike, blown⟩
  · left
    have step : (LogM.onActive fun v s => s.writeAt v image.stop frame) (v, log) = .ok () (_, log) :=
      onActive_of_ok written
    obtain ⟨n, zeros, few⟩ := h.blank calm
    have there := h.alike alike (by simp [calm]) log.ledger
    rw [run_bind_of_ok step]
    refine ⟨_, { log with
      active.position := image.stop + frame.length
      ledger := log.ledger.count (·.appended frame.length) }, rfl, ?_,
      ⟨rfl, rfl, rfl, alike.fuses, by simp [calm]⟩, calm, still⟩
    refine ⟨h.place, there.wired, h.bounded, h.bare, ?_, h.format, there.holds.setBytes _, h.older,
      Image.sound_push h.sound (h.format ▸ decoded) fits, Or.inl ⟨n - frame.length, ?_, ?_⟩⟩
    · rw [Image.stop_push, h.active]
    · rw [Image.push, zeros, List.drop_replicate]
    · exact few.imp_left (by omega)
  · right
    have step : (LogM.onActive fun v s => s.writeAt v image.stop frame) (v, log) =
        .error _ (_, log) := onActive_of_error failed
    obtain ⟨v₂, tail, left, laid, fuses, blown₂⟩ := h.cut decoded short nothing fused alike blown
    rw [run_bind_of_error step, ← left]
    exact ⟨v₂, _, tail, rfl, laid, ⟨rfl, rfl, rfl, fuses, fun _ => blown₂⟩, fused, blown₂⟩

/-! ## Records -/

/-- The log is laid, and these are the records in it. -/
def Shows (s : Volume × Log) (items : List (Pointer × Record)) : Prop :=
  ∃ older image, s.2.Laid s.1 older image ∧ Image.itemsFrom 0 (older ++ [image]) = items

theorem Shows.alike {v' : Volume} {items : List (Pointer × Record)} (h : Shows (v, log) items)
    (alike : v.Alike v')
    (blown : log.directory.hasBlown v = true → log.directory.hasBlown v' = true) :
    Shows (v', log) items := by
  obtain ⟨older, image, laid, rfl⟩ := h
  exact ⟨older, image, laid.alike alike blown log.ledger, rfl⟩

theorem itemsFrom_concat (older : List Image) (image : Image) :
    Image.itemsFrom 0 (older ++ [image]) =
      Image.itemsFrom 0 older ++ image.items older.length := by
  rw [Image.itemsFrom_append, Nat.zero_add, Image.itemsFrom, Image.itemsFrom, List.append_nil]

/-- A fresh image has no records. -/
theorem itemsFrom_fresh (images : List Image) (format : Format) (n : ℕ) :
    Image.itemsFrom 0 (images ++ [fresh format n]) = Image.itemsFrom 0 images := by
  rw [itemsFrom_concat]
  exact List.append_nil _

theorem flush_shows {items : List (Pointer × Record)} (h : Shows (v, log) items) :
    Shows (final flush (v, log)) items ∧ Follows (v, log) (final flush (v, log)) := by
  obtain ⟨older, image, laid, rfl⟩ := h
  rcases flush_cases laid with ⟨v', ledger, done, alike, calm, -⟩ | ⟨v', e, failed, -, alike, blown⟩
  · rw [final_of_ok done]
    exact ⟨⟨older, image, laid.alike alike (by simp [calm]) ledger, rfl⟩,
      .of_alike alike (by simp [calm]) ledger⟩
  · rw [final_of_error failed]
    exact ⟨⟨older, image, laid.alike alike (fun _ => blown) log.ledger, rfl⟩,
      .of_alike alike (fun _ => blown) log.ledger⟩

theorem rotate_shows {items : List (Pointer × Record)} (h : Shows (v, log) items) :
    Shows (final rotate (v, log)) items ∧ Follows (v, log) (final rotate (v, log)) := by
  obtain ⟨older, image, laid, rfl⟩ := h
  rcases rotate_cases laid with
    ⟨v', log', n, done, laid', follows, -⟩ | ⟨v', e, failed, laid', follows, -⟩
  · rw [final_of_ok done]
    exact ⟨⟨_, _, laid', itemsFrom_fresh _ _ _⟩, follows⟩
  · rw [final_of_error failed]
    exact ⟨⟨older, image, laid', rfl⟩, follows⟩

/-- No record of this frame could be pointed at, not even the first of a segment. -/
def Unaddressable (f : Format) (record : Record) : Prop :=
  ∀ frame, Frame.encode f record = .ok frame → Pointer.maxOffset < Header.size + frame.length

theorem put_beyond (h : log.Laid v older image) {frame : Bytes}
    (beyond : Pointer.maxOffset < image.stop + frame.length) :
    ∃ e, put frame (v, log) = .error e (v, log) := by
  unfold put
  rw [run_bind_of_ok (show LogM.getLog (v, log) = .ok log (v, log) from rfl)]
  have position : log.active.position = image.stop := by rw [h.active]
  dsimp only
  rw [position, if_pos beyond]
  exact ⟨_, rfl⟩

/-- What comes of writing a record: it stands behind the others, or nothing was written, for which
without a fuse there must be a reason. -/
def Writes (x : LogM Pointer) (s : Volume × Log) (items : List (Pointer × Record))
    (record : Record) (reason : Prop) : Prop :=
  (∃ p s', x s = .ok p s' ∧ Shows s' (items ++ [(p, record)]) ∧ Follows s s' ∧
    s.2.directory.hasBlown s.1 = false ∧ s.2.directory.hasBlown s'.1 = false) ∨
  ∃ e s', x s = .error e s' ∧ Shows s' items ∧ Follows s s' ∧
    (s.2.directory.fuse = none → reason)

theorem Writes.imp {x : LogM Pointer} {s : Volume × Log} {items : List (Pointer × Record)}
    {record : Record} {reason reason' : Prop} (h : Writes x s items record reason)
    (imp : reason → reason') : Writes x s items record reason' := by
  rcases h with written | ⟨e, s', failed, shows, follows, why⟩
  · exact Or.inl written
  · exact Or.inr ⟨e, s', failed, shows, follows, fun none_fuse => imp (why none_fuse)⟩

/-- The frame of a record is put behind the others unless it would end too far into the segment. -/
theorem put_writes (h : log.Laid v older image) {frame : Bytes} {record : Record}
    (decoded : Frame.decode log.format frame = .ok record) :
    Writes (put frame) (v, log) (Image.itemsFrom 0 (older ++ [image])) record
      (Pointer.maxOffset < image.stop + frame.length) := by
  by_cases beyond : Pointer.maxOffset < image.stop + frame.length
  · obtain ⟨e, refused⟩ := put_beyond h beyond
    exact Or.inr ⟨e, _, refused, ⟨older, image, h, rfl⟩, .refl _, fun _ => beyond⟩
  rcases put_cases h decoded (Nat.le_of_not_lt beyond) with
    ⟨v', log', done, laid, follows, calm, still⟩ | ⟨v', e, tail, failed, laid, follows, fused, -⟩
  · refine Or.inl ⟨_, _, done, ⟨older, _, laid, ?_⟩, follows, calm, still⟩
    rw [itemsFrom_concat, itemsFrom_concat, Image.items_push, List.append_assoc]
  · refine Or.inr ⟨e, _, failed, ⟨older, _, laid, ?_⟩, follows, fun none_fuse => ?_⟩
    · rw [itemsFrom_concat, itemsFrom_concat]
      rfl
    · dsimp only at none_fuse
      rw [none_fuse] at fused
      cases fused

/-- In a segment of its own a frame has more room than anywhere else. -/
theorem rotate_put_writes (h : log.Laid v older image) {frame : Bytes} {record : Record}
    (decoded : Frame.decode log.format frame = .ok record) :
    Writes (rotate >>= fun _ => put frame) (v, log) (Image.itemsFrom 0 (older ++ [image])) record
      (Pointer.maxOffset < Header.size + frame.length ∨ v.Full) := by
  rcases rotate_cases h with
    ⟨v₁, log₁, n, rotated, laid₁, follows₁, calm, still⟩ | ⟨s, e, failed, laid₁, follows₁, why⟩
  · have directory : log₁.directory = log.directory := follows₁.directory
    have format : log₁.format = log.format := follows₁.format
    rw [Writes, run_bind_of_ok rotated, ← itemsFrom_fresh _ log.format n]
    rcases put_writes laid₁ (format ▸ decoded) with
      ⟨p, s, done, shows, follows, -, still⟩ | ⟨e, s, failed, shows, follows, why⟩
    · exact Or.inl ⟨p, s, done, shows, follows₁.trans follows, calm, directory ▸ still⟩
    · exact Or.inr ⟨e, s, failed, shows, follows₁.trans follows,
        fun none_fuse => .inl (why (directory ▸ none_fuse))⟩
  · exact Or.inr ⟨e, s, run_bind_of_error failed, ⟨older, image, laid₁, rfl⟩, follows₁,
      fun none_fuse => .inr (why.resolve_left fun blown => Directory.fuse_ne_none blown none_fuse)⟩

/-- A record is written unless it has no frame, its frame could not be pointed at or there is no
index for the segment that it needs. -/
theorem write_writes {items : List (Pointer × Record)} {record : Record}
    (h : Shows (v, log) items) (wf : record.WellFormed) :
    Writes (write record) (v, log) items record (Unaddressable log.format record ∨ v.Full) := by
  obtain ⟨older, image, laid, rfl⟩ := h
  dsimp only at laid
  rcases write_cases record (v, log) with ⟨e, refused, unframed⟩ | ⟨frame, -, encoded, written⟩
  · have unaddressable : Unaddressable log.format record := fun frame he =>
      absurd (unframed frame he) wf.kind_ne_header
    exact .inr ⟨e, _, refused, ⟨older, image, laid, rfl⟩, .refl _, fun _ => .inl unaddressable⟩
  dsimp only at encoded written
  have decoded := Frame.decode_encode wf encoded
  have unaddressable (beyond : Pointer.maxOffset < Header.size + frame.length) :
      Unaddressable log.format record := by
    intro frame' he
    cases encoded.symm.trans he
    exact beyond
  unfold Writes
  rw [written]
  cases overflow : log.overflows frame.length with
  | false =>
      rw [if_neg Bool.false_ne_true]
      refine (put_writes laid decoded).imp fun beyond => .inl (unaddressable ?_)
      have position : log.active.position = image.stop := by rw [laid.active]
      have bounded := laid.bounded
      simp only [overflows, position, decide_eq_false_iff_not, not_and, Nat.not_lt] at overflow
      omega
  | true =>
      rw [if_pos rfl]
      exact (rotate_put_writes laid decoded).imp (.imp_left unaddressable)

/-- An append is a write, and then a flush if the log is to sync at once. -/
theorem append_cases {items : List (Pointer × Record)} {record : Record}
    (h : Shows (v, log) items) (wf : record.WellFormed) :
    (∃ p s s', append record (v, log) = .ok p s ∧ write record (v, log) = .ok p s' ∧
      Shows s (items ++ [(p, record)]) ∧ Follows (v, log) s ∧
      log.directory.hasBlown v = false) ∨
    (∃ p e s s', append record (v, log) = .error e s ∧ write record (v, log) = .ok p s' ∧
      StoppedFlush e ∧ Shows s (items ++ [(p, record)]) ∧ Follows (v, log) s ∧
      log.directory.hasBlown v = false ∧ log.directory.hasBlown s.1 = true) ∨
    ∃ e s, append record (v, log) = .error e s ∧ write record (v, log) = .error e s ∧
      Shows s items ∧ Follows (v, log) s ∧
      (log.directory.fuse = none → Unaddressable log.format record ∨ v.Full) := by
  rcases write_writes h wf with
    ⟨p, ⟨v₁, log₁⟩, written, shows, follows, calm, still⟩ | ⟨e, s, failed, rest⟩
  · rw [append_of_ok written]
    have directory : log₁.directory = log.directory := follows.directory
    cases syncs : log₁.config.syncOnWrite with
    | false => exact Or.inl ⟨p, _, _, rfl, written, shows, follows, calm⟩
    | true =>
        obtain ⟨older, image, laid, items⟩ := shows
        rw [if_pos rfl]
        rcases flush_cases laid with
          ⟨v₂, ledger, flushed, alike, calm₁, still⟩ | ⟨v₂, e, stopped, why, alike, blown⟩
        · left
          rw [run_bind_of_ok flushed]
          exact ⟨p, _, _, rfl, written, ⟨older, image, laid.alike alike (by simp [calm₁]) ledger,
            items⟩, follows.trans (.of_alike alike (by simp [calm₁]) ledger), calm⟩
        · right
          left
          rw [run_bind_of_error stopped]
          exact ⟨p, e, _, _, rfl, written, why, ⟨older, image,
            laid.alike alike (fun _ => blown) log₁.ledger, items⟩,
            follows.trans (.of_alike alike (fun _ => blown) log₁.ledger), calm, directory ▸ blown⟩
  · right
    right
    exact ⟨e, s, append_of_error failed, failed, rest⟩

end Log
end SegmentLog
