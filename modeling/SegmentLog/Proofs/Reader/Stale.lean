import SegmentLog.Proofs.Directory.Shelf

/-!
# Readers of a segment that is being written

What a reader has fetched may be older than the segment: it then ends in zeros where there are
frames by now. The reader still gives the frames one after the other, because it fetches more only
where its buffer ends within a frame. When it stops, it has given at least the frames that were
there when it was opened (`Owing.next_cases`), and where it stops at damage there is a further frame
that it cannot see the end of.
-/
namespace SegmentLog

namespace Frames
variable {fs gs hs : Frames}

theorem bytes_prefix (h : fs <+: gs) : fs.bytes <+: gs.bytes := by
  obtain ⟨later, rfl⟩ := h
  rw [bytes_append]
  exact List.prefix_append _ _

/-- Of two fronts one is the front of the other. -/
theorem prefix_or_next (h : fs <+: hs) (h' : gs <+: hs) : fs <+: gs ∨ ∃ e, gs ++ [e] <+: fs := by
  rcases List.prefix_or_prefix_of_prefix h h' with shorter | longer
  · exact .inl shorter
  · obtain ⟨later, rfl⟩ := longer
    cases later with
    | nil =>
        rw [List.append_nil]
        exact .inl (List.prefix_refl _)
    | cons e later => exact .inr ⟨e, later, by rw [List.append_assoc, List.singleton_append]⟩

end Frames

namespace Reader

/-- The reader is behind the frames that it passed, and its buffer has what was in the segment when
`known` were the frames that followed. -/
structure Amid (r : Reader) (v : Volume) (id : ContentId) (image : Image)
    (passed known : Frames) : Prop where
  content : r.store.content = id
  stored : v.bytes id = image.bytes
  reads : r.store.Reads r.size
  size_le : r.size ≤ image.bytes.length
  format : r.format = image.format
  position : r.position = Header.size + passed.bytes.length
  unfinished : r.finished = false
  within : r.position + r.buffered.length ≤ r.size
  among : passed ++ known <+: image.frames
  fetched : ∃ n, r.buffered <+: known.bytes ++ List.replicate n 0

variable {r : Reader} {v : Volume} {id : ContentId} {image : Image} {passed known : Frames}
  {n : ℕ}

/-- The buffer ends within the frames if it is not longer. -/
theorem Amid.buffered_prefix (h : r.Amid v id image passed known)
    (short : r.buffered.length ≤ known.bytes.length) : r.buffered <+: known.bytes := by
  obtain ⟨n, fetched⟩ := h.fetched
  exact List.prefix_of_prefix_length_le fetched (List.prefix_append _ _) short

/-- The segment from the position on. -/
theorem Amid.drop_position (h : r.Amid v id image passed known) :
    ∃ rest, passed ++ rest = image.frames ∧ known <+: rest ∧
      image.bytes.drop r.position = rest.bytes ++ image.tail := by
  obtain ⟨more, all⟩ := h.among
  refine ⟨known ++ more, by rw [← List.append_assoc, all], List.prefix_append _ _, ?_⟩
  have length := Header.length_encode image.format
  rw [h.position, ← length, ← List.drop_drop, Image.bytes, List.drop_left, ← all, List.append_assoc,
    Frames.bytes_append, List.append_assoc, List.drop_left]

/-- A fetch that goes on where the buffer ends within a frame. -/
theorem fill_amid (h : r.Amid v id image passed known) (blank : image.Blank)
    (there : r.position + n ≤ r.size)
    (going_on : r.buffered.length < n → r.buffered.length ≤ known.bytes.length) :
    ∃ r' known', r.fill v n = .ok (some r') ∧ r'.Amid v id image passed known' ∧ known <+: known' ∧
      r.Filled r' n ∧ r'.size = r.size := by
  by_cases enough : n ≤ r.buffered.length
  · refine ⟨r, known, ?_, h, List.prefix_refl _, ⟨rfl, rfl, rfl, enough⟩, rfl⟩
    rw [fill, if_pos enough]
  · have within := h.within
    have size_le := h.size_le
    have capacity := r.le_capacityFor n
    have buffered := h.buffered_prefix (going_on (by omega))
    obtain ⟨rest, all, further, drop⟩ := h.drop_position
    obtain ⟨later, parts⟩ := buffered.trans ((Frames.bytes_prefix further).trans
      (List.prefix_append _ image.tail))
    have next : image.bytes.drop (r.position + r.buffered.length) = later := by
      rw [← List.drop_drop, drop, ← parts, List.drop_left]
    have fetch := h.reads v (r.position + r.buffered.length)
      (min (r.capacityFor n - r.buffered.length) (r.size - r.position - r.buffered.length))
      (by omega) (by rw [h.content, h.stored]; exact size_le)
    rw [h.content, h.stored] at fetch
    have length : (image.bytes.slice (r.position + r.buffered.length)
        (min (r.capacityFor n - r.buffered.length)
          (r.size - r.position - r.buffered.length))).length = _ := Bytes.length_slice (by omega)
    unfold fill
    dsimp only
    rw [if_neg enough, if_neg (by omega), fetch]
    refine ⟨_, rest, rfl, ⟨h.content, h.stored, h.reads, size_le, h.format, h.position,
      h.unfinished, ?_, ?_, ?_⟩, further, ⟨rfl, rfl, rfl, ?_⟩, rfl⟩
    · dsimp only
      rw [List.length_append, length]
      omega
    · simp only [all, List.prefix_refl]
    · obtain ⟨zeros, tail⟩ := blank
      refine ⟨zeros, ?_⟩
      rw [← tail, ← parts, Bytes.slice, next]
      exact (List.prefix_append_right_inj _).mpr (List.take_prefix _ _)
    · rw [List.length_append, length]
      omega

/-- The frame that the reader comes to. -/
theorem Amid.next_frame {frame : Bytes} {record : Record} {more : Frames}
    (h : r.Amid v id image passed ((frame, record) :: more)) (sound : image.Sound) :
    Frame.decode image.format frame = .ok record ∧
      r.position + frame.length ≤ Pointer.maxOffset := by
  obtain ⟨later, all⟩ := h.among
  have mem : (frame, record) ∈ image.frames := by
    rw [← all]
    simp
  refine ⟨sound.readable _ mem, ?_⟩
  have fits := sound.fits
  rw [Image.stop, ← all] at fits
  simp only [Frames.bytes_append, Frames.bytes_cons, List.length_append] at fits
  rw [h.position]
  omega

/-- The first byte of the buffer says whether the reader knows of a further frame. -/
theorem Amid.headD (h : r.Amid v id image passed known) (sound : image.Sound)
    (some_bytes : 1 ≤ r.buffered.length) : r.buffered.headD 0 = 0 ↔ known = [] := by
  obtain ⟨n, later, fetched⟩ := h.fetched
  have first : r.buffered.headD 0 = (known.bytes ++ List.replicate n 0).headD 0 := by
    rw [← fetched]
    cases hb : r.buffered with
    | nil =>
        rw [hb] at some_bytes
        exact absurd some_bytes (by simp)
    | cons b buffered => rfl
  rw [first]
  cases known with
  | nil =>
      cases n with
      | zero => exact ⟨fun _ => rfl, fun _ => rfl⟩
      | succ n => exact ⟨fun _ => rfl, fun _ => rfl⟩
  | cons e more =>
      obtain ⟨frame, record⟩ := e
      obtain ⟨⟨payload, start⟩, -⟩ := Frame.decode_eq_ok (h.next_frame sound).1
      rw [Frames.bytes_cons]
      dsimp only
      rw [start]
      simpa using RecordKind.toByte_ne_zero record.kind

section
variable {frame : Bytes} {record : Record} {more : Frames}

theorem Amid.declared (h : r.Amid v id image passed ((frame, record) :: more)) (sound : image.Sound)
    (lead : Frame.leadSize ≤ r.buffered.length) :
    Frame.size r.format (Frame.declared r.buffered) = frame.length := by
  obtain ⟨decoded, -⟩ := h.next_frame sound
  obtain ⟨n, later, fetched⟩ := h.fetched
  rw [Frames.bytes_cons, List.append_assoc] at fetched
  rw [← Frame.declared_append lead later, fetched,
    Frame.declared_append (Frame.leadSize_le_of_decode decoded), h.format]
  exact (Frame.decode_eq_ok decoded).2.2.symm

/-- A fetch within the frame that the reader comes to. -/
theorem fill_frame (h : r.Amid v id image passed ((frame, record) :: more)) (blank : image.Blank)
    (there : r.position + n ≤ r.size) (part : n ≤ frame.length) :
    ∃ r' more', r.fill v n = .ok (some r') ∧ r'.Amid v id image passed ((frame, record) :: more') ∧
      more <+: more' ∧ r.Filled r' n ∧ r'.size = r.size := by
  obtain ⟨r', known', filled, amid, ⟨later, rfl⟩, same, size⟩ := fill_amid h blank there (by
    intro short
    rw [Frames.bytes_cons, List.length_append]
    dsimp only
    omega)
  exact ⟨r', more ++ later, filled, amid, List.prefix_append _ _, same, size⟩

theorem fill_none (h : r.Amid v id image passed known) (short : r.size < r.position + n) :
    r.fill v n = .ok none := by
  have within := h.within
  unfold fill
  rw [if_neg (by omega), if_pos (by omega)]

/-- A frame that the reader can see the end of is read. -/
theorem readFrame_amid (h : r.Amid v id image passed ((frame, record) :: more))
    (sound : image.Sound) (blank : image.Blank) (there : r.position + frame.length ≤ r.size) :
    ∃ r' known', r.readFrame v frame.length =
        .ok (.record ⟨r.segment, r.position, frame.length⟩ record, r') ∧
      r'.Amid v id image (passed ++ [(frame, record)]) known' ∧ more <+: known' ∧
      r'.segment = r.segment ∧ r'.size = r.size := by
  obtain ⟨s, more', filled, amid, further, same, size⟩ :=
    fill_frame h blank there (Nat.le_refl _)
  obtain ⟨decoded, -⟩ := amid.next_frame sound
  obtain ⟨n, fetched⟩ := amid.fetched
  rw [Frames.bytes_cons, List.append_assoc] at fetched
  have front : s.buffered.take frame.length = frame := by
    have start : frame <+: s.buffered :=
      List.prefix_of_prefix_length_le (List.prefix_append _ _) fetched same.enough
    exact (List.prefix_iff_eq_take.mp start).symm
  have within := amid.within
  have enough := same.enough
  unfold readFrame
  rw [filled]
  simp only [bind, Except.bind, pure, Except.pure]
  rw [front, amid.format, decoded, same.position, same.segment]
  refine ⟨_, more', rfl, ⟨amid.content, amid.stored, amid.reads, amid.size_le, rfl, ?_,
    amid.unfinished, ?_, ?_, n, ?_⟩, further, rfl, size⟩
  · dsimp only
    rw [h.position, Frames.bytes_append, List.length_append, Frames.bytes_cons, Frames.bytes_nil,
      List.append_nil, Nat.add_assoc]
  · dsimp only
    rw [List.length_drop, ← same.position]
    omega
  · rw [List.append_assoc]
    exact amid.among
  · dsimp only
    obtain ⟨later, parts⟩ := fetched
    refine ⟨later, ?_⟩
    rw [← List.drop_append_of_le_length enough, parts, List.drop_left]

end

/-- The reader is to give what was there when it was opened, and the segment was long enough for
that. -/
structure Owing (r : Reader) (v : Volume) (id : ContentId) (image : Image)
    (passed due : Frames) : Prop where
  amid : ∃ known, r.Amid v id image passed known ∧ due <+: passed ++ known
  fits : Header.size + due.bytes.length ≤ r.size

/-- What a reader finds. -/
inductive Finds (r : Reader) (v : Volume) (id : ContentId) (image : Image)
    (passed due : Frames) :
    Except StorageFault (Outcome × Reader) → Prop
  /-- It gives the next frame. -/
  | record {frame : Bytes} {record : Record} {r' : Reader} (segment : r'.segment = r.segment)
      (owing : r'.Owing v id image (passed ++ [(frame, record)]) due) :
      Finds r v id image passed due (.ok (.record ⟨r.segment, r.position, frame.length⟩ record, r'))
  /-- It has given what was there. -/
  | finish {r' : Reader} (given : due <+: passed) :
      Finds r v id image passed due (.ok (.finish, r'))
  /-- It has given what was there, and cannot see the end of a further frame. -/
  | damaged {fault : RecordFault} {r' : Reader} (given : due <+: passed)
      (further : passed ≠ image.frames) : Finds r v id image passed due (.ok (.damaged fault, r'))

/-- What is due has been given when no further frame that the reader knows of ends within the
segment as it was. -/
theorem Amid.given {due : Frames} (h : r.Amid v id image passed known)
    (owed : due <+: passed ++ known) (fits : Header.size + due.bytes.length ≤ r.size)
    (blocked : ∀ e more, known = e :: more → r.size < r.position + e.1.length) :
    due <+: passed := by
  rcases Frames.prefix_or_next owed (List.prefix_append passed known) with given | ⟨e, further⟩
  · exact given
  · obtain ⟨more, rfl⟩ : ∃ more, known = e :: more := by
      obtain ⟨more, all⟩ := further.trans owed
      rw [List.append_assoc] at all
      exact ⟨more, (List.append_cancel_left all).symm⟩
    have beyond := blocked e more rfl
    have length := (Frames.bytes_prefix further).length_le
    rw [Frames.bytes_append, List.length_append, Frames.bytes_cons, Frames.bytes_nil,
      List.append_nil] at length
    have position := h.position
    omega

/-- A reader gives the next frame unless it has given what was there. -/
theorem Owing.finds {due : Frames} (h : r.Owing v id image passed due) (sound : image.Sound)
    (blank : image.Blank) : Finds r v id image passed due (r.next v) := by
  obtain ⟨⟨known, amid, owed⟩, fits⟩ := h
  unfold next
  simp only [bind, Except.bind, pure, Except.pure, amid.unfinished, Bool.false_eq_true, false_or]
  by_cases ended : r.size ≤ r.position
  · rw [if_pos ended]
    apply Finds.finish
    apply amid.given owed fits
    intro e more he
    subst he
    have := Frame.leadSize_le_of_decode (amid.next_frame sound).1
    unfold Frame.leadSize at this
    omega
  obtain ⟨r₁, known₁, filled₁, amid₁, further₁, same₁, size₁⟩ :=
    fill_amid (n := 1) amid blank (by omega) (by omega)
  have owed₁ : due <+: passed ++ known₁ :=
    owed.trans ((List.prefix_append_right_inj _).mpr further₁)
  rw [if_neg ended, filled₁]
  dsimp only
  have head := amid₁.headD sound same₁.enough
  by_cases zero : r₁.buffered.headD 0 = 0
  · rw [if_pos zero]
    cases head.mp zero
    exact .finish (List.append_nil passed ▸ owed₁)
  rw [if_neg zero]
  rw [← size₁] at fits
  obtain ⟨e, more, rfl⟩ := List.exists_cons_of_ne_nil (mt head.mpr zero)
  obtain ⟨frame, record⟩ := e
  have beyond (short : r₁.size < r₁.position + frame.length) : due <+: passed := by
    apply amid₁.given owed₁ fits
    intro e' more' he
    cases he
    exact short
  have further : passed ≠ image.frames := by
    intro all
    have := amid₁.among.length_le
    rw [← all] at this
    simp at this
  obtain ⟨decoded, reach⟩ := amid₁.next_frame sound
  have lead := Frame.leadSize_le_of_decode decoded
  by_cases short : r₁.size < r₁.position + Frame.leadSize
  · rw [fill_none amid₁ short]
    exact .damaged (beyond (by omega)) further
  obtain ⟨r₂, more₂, filled₂, amid₂, further₂, same₂, size₂⟩ :=
    fill_frame amid₁ blank (Nat.le_of_not_lt short) lead
  rw [filled₂]
  dsimp only
  rw [amid₂.declared sound same₂.enough, size₂, same₂.position]
  by_cases past : r₁.size < r₁.position + frame.length
  · rw [if_pos past]
    exact .damaged (beyond past) further
  rw [if_neg past, if_neg (Nat.not_lt.mpr reach)]
  obtain ⟨r', known', found, amid', further', segment, size⟩ :=
    readFrame_amid amid₂ sound blank (by rw [same₂.position]; omega)
  rw [found, same₂.position, same₁.position, same₂.segment, same₁.segment]
  refine .record (by rw [segment, same₂.segment, same₁.segment]) ⟨⟨known', amid', ?_⟩, ?_⟩
  · rw [List.append_assoc]
    exact owed₁.trans ((List.prefix_append_right_inj _).mpr
      (List.cons_prefix_cons.mpr ⟨rfl, further₂.trans further'⟩))
  · rw [size, size₂]
    exact fits

/-- What is written to the segment does not concern the reader. -/
theorem Amid.extends (h : r.Amid v id image passed known) {v' : Volume} {image' : Image}
    (extended : image.Extends image') (stored : v'.bytes id = image'.bytes) :
    r.Amid v' id image' passed known :=
  ⟨h.content, stored, h.reads, h.size_le.trans extended.length,
    h.format.trans extended.format.symm, h.position, h.unfinished, h.within,
    h.among.trans extended.frames, h.fetched⟩

theorem Owing.extends {due : Frames} (h : r.Owing v id image passed due) {v' : Volume}
    {image' : Image} (extended : image.Extends image')
    (stored : v'.bytes id = image'.bytes) : r.Owing v' id image' passed due := by
  obtain ⟨⟨known, amid, owed⟩, fits⟩ := h
  exact ⟨⟨known, amid.extends extended stored, owed⟩, fits⟩

end Reader

/-- A segment that is there opens behind any of its frames, and all of them are due. -/
theorem Place.Shelves.openReader_owing {place : Place} {v : Volume} {removed k start : ℕ}
    {shelf : Shelf} {id : ContentId} {image : Image} {passed : Frames}
    (h : place.Shelves v removed shelf) (there : removed ≤ k) (hk : shelf[k]? = some (id, image))
    (front : passed <+: image.frames)
    (position : max start Header.size = Header.size + passed.bytes.length) (bufferSize : ℕ) :
    ∃ r, Directory.openReader { place } v bufferSize k start = .ok r ∧ r.segment = k ∧
      r.Owing v id image passed image.frames := by
  have within : Header.size + passed.bytes.length ≤ image.bytes.length := by
    have := (Frames.bytes_prefix front).length_le
    exact le_trans (Nat.add_le_add_left this _) image.stop_le
  obtain ⟨r, opened, on, segment, format, at_start, opens, buffered⟩ :=
    h.openReader there hk (position ▸ within) bufferSize
  obtain ⟨rest, all⟩ := front
  have size : r.size = image.bytes.length := on.size
  refine ⟨r, opened, segment, ⟨rest, ⟨opens.content, ?_, ?_, Nat.le_of_eq size, format,
    at_start.trans position, on.unfinished, ?_, ?_, ⟨0, ?_⟩⟩, ?_⟩, ?_⟩
  · exact h.stored _ (List.mem_of_getElem? hk)
  · rw [size, ← h.stored _ (List.mem_of_getElem? hk)]
    exact opens.reads
  · rw [buffered, size, at_start, position]
    exact within
  · simp only [all, List.prefix_refl]
  · rw [buffered]
    exact List.nil_prefix
  · simp only [all, List.prefix_refl]
  · rw [size]
    exact image.stop_le

end SegmentLog
