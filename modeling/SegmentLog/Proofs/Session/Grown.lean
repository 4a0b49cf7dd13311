import SegmentLog.Proofs.Session.Restart

/-!
# Segments that have grown

Segments `Grown` out of others hold what those held, and more: bytes behind those of the newest
segment, and newer segments behind that. A torn end of a segment may be cut off once there is a
newer one. A session that gets to the end of the segments gives the records that one over the
earlier segments gave, and then others: `Replayed.isPrefix`. That is so wherever the two start, also
amid a record.
-/
namespace SegmentLog

namespace Segment
variable {f g : Format} {segment index position stop stop' : ℕ} {bs bs' frame : Bytes}
  {record : Record} {items items' : List (Pointer × Record)}
  {ahead ahead' newer image image' image'' : List (ℕ × Bytes)}

/-- What becomes of the newest segment: more is written behind it, or, with a newer one there, a
torn end is cut off. -/
inductive Kept (newer : List (ℕ × Bytes)) (bs bs' : Bytes) : Prop
  | written (front : bs <+: bs')
  | cut (followed : newer ≠ []) (front : bs' <+: bs)
      (torn : ∀ f, Header.encode f <+: bs → ∀ frame record, ¬FrameAt f bs bs'.length frame record)

/-- The segments that come of others when a log is written to and opened. -/
inductive Grown : List (ℕ × Bytes) → List (ℕ × Bytes) → Prop
  | empty (image : List (ℕ × Bytes)) : Grown [] image
  | newest (index : ℕ) {bs bs' : Bytes} {newer : List (ℕ × Bytes)} (kept : Kept newer bs bs') :
      Grown [(index, bs)] ((index, bs') :: newer)
  | older (e : ℕ × Bytes) {image image' : List (ℕ × Bytes)} (grown : Grown image image') :
      Grown (e :: image) (e :: image')

/-! ## Growing in steps -/

theorem grown_refl : (image : List (ℕ × Bytes)) → Grown image image
  | [] => .empty []
  | e :: image => .older e (grown_refl image)

theorem grown_append (older : List (ℕ × Bytes)) (kept : Kept newer bs bs') :
    Grown (older ++ [(index, bs)]) (older ++ (index, bs') :: newer) := by
  induction older with
  | nil => exact .newest index kept
  | cons e older ih => exact .older e ih

theorem Grown.cons (h : Grown ((index, bs) :: ahead) image') :
    ∃ bs' ahead', image' = (index, bs') :: ahead' ∧ (bs <+: bs' ∨ bs' <+: bs) := by
  cases h with
  | newest _ kept =>
      cases kept with
      | written front => exact ⟨_, _, rfl, .inl front⟩
      | cut followed front torn => exact ⟨_, _, rfl, .inr front⟩
  | older _ grown => exact ⟨bs, _, rfl, .inl (List.prefix_refl _)⟩

theorem FrameAt.of_front (h : FrameAt f bs position frame record) (front : bs <+: bs') :
    FrameAt f bs' position frame record := by
  obtain ⟨rest, rfl⟩ := front
  refine ⟨h.wellFormed, h.written, h.there.trans ?_, h.inReach⟩
  rw [List.drop_append]
  exact List.prefix_append _ _

theorem Kept.trans {newer' : List (ℕ × Bytes)} {bs'' : Bytes} (h : Kept [] bs bs')
    (h' : Kept newer' bs' bs'') : Kept newer' bs bs'' := by
  cases h with
  | cut followed front torn => exact absurd rfl followed
  | written front =>
      cases h' with
      | written front' => exact .written (front.trans front')
      | cut followed front' torn =>
          rcases Nat.le_total bs.length bs''.length with le | le
          · exact .written (List.prefix_of_prefix_length_le front front' le)
          refine .cut followed (List.prefix_of_prefix_length_le front' front le) ?_
          exact fun f header frame record here =>
            torn f (header.trans front) frame record (here.of_front front)

theorem Grown.trans (h : Grown image image') (h' : Grown image' image'') : Grown image image'' := by
  induction h generalizing image'' with
  | empty => exact .empty _
  | @newest index bs bs' newer kept =>
      cases h' with
      | newest _ kept' => exact .newest index (kept.trans kept')
      | @older _ _ newer' grown =>
          refine .newest index ?_
          cases kept with
          | written front => exact .written front
          | cut followed front torn =>
              refine .cut ?_ front torn
              rintro rfl
              cases newer with
              | nil => exact followed rfl
              | cons e newer =>
                  obtain ⟨_, _, shown, -⟩ := grown.cons
                  cases shown
  | @older e image image' grown ih =>
      cases h' with
      | newest index kept =>
          cases image with
          | nil => exact .newest index kept
          | cons e image =>
              obtain ⟨_, _, shown, -⟩ := grown.cons
              cases shown
      | older _ grown' => exact .older e (ih grown')

/-! ## One segment -/

/-- Segments one of which goes on where the other ends are in one format. -/
theorem format_unique (front : bs <+: bs' ∨ bs' <+: bs) (header : Header.encode f <+: bs)
    (header' : Header.encode g <+: bs') : g = f := by
  have both : ∃ whole, Header.encode f <+: whole ∧ Header.encode g <+: whole := by
    rcases front with front | front
    · exact ⟨bs', header.trans front, header'⟩
    · exact ⟨bs, header, header'.trans front⟩
  obtain ⟨whole, header, header'⟩ := both
  rw [← Header.decode_eq_ok_iff] at header header'
  cases header.symm.trans header'
  rfl

/-- More bytes behind a segment prolong its run of frames. -/
theorem Run.isPrefix (h : Run f segment bs position items stop) (front : bs <+: bs')
    (h' : Run f segment bs' position items' stop') : items <+: items' := by
  induction h generalizing items' with
  | stop => exact List.nil_prefix
  | @frame position stop frame record items here later ih =>
      have there := here.of_front front
      cases h' with
      | stop none_there => exact absurd there (none_there frame record)
      | frame here' later' =>
          obtain ⟨rfl, rfl⟩ := there.unique here'
          exact List.prefix_cons_inj _ |>.mpr (ih later')

theorem Run.unique (h : Run f segment bs position items stop)
    (h' : Run f segment bs position items' stop') : items' = items :=
  (h'.isPrefix (List.prefix_refl _) h).eq_of_length_le
    (h.isPrefix (List.prefix_refl _) h').length_le

/-- Where no frame is torn apart, cutting a segment off does not shorten its run of frames. -/
theorem Run.eq_of_cut (h' : Run f segment bs' position items' stop') (front : bs' <+: bs)
    (torn : ∀ frame record, ¬FrameAt f bs bs'.length frame record) (within : position ≤ bs'.length)
    (ends : EndsAt bs' stop') (h : Run f segment bs position items stop) : items = items' := by
  induction h' generalizing items with
  | @stop position none_there =>
      cases h with
      | stop => rfl
      | @frame _ _ frame record _ here later =>
          rcases ends with past | zero
          · cases Nat.le_antisymm within past
            exact absurd here (torn frame record)
          · have zero' : EndsAt bs position := by
              obtain ⟨rest, rfl⟩ := front
              have lt := (List.getElem?_eq_some_iff.mp zero).1
              exact .inr (by rwa [List.getElem?_append_left lt])
            have found := read_of_frameAt segment here
            rw [read_eq_finish.mpr zero'] at found
            cases found
  | @frame position stop frame record items here later ih =>
      have there := here.of_front front
      cases h with
      | stop none_there => exact absurd there (none_there frame record)
      | frame here' later' =>
          obtain ⟨rfl, rfl⟩ := there.unique here'
          rw [ih here.within.2 ends later']

theorem Run.none_at_stop (h : Run f segment bs position items stop) (frame : Bytes)
    (record : Record) : ¬FrameAt f bs stop frame record := by
  induction h with
  | stop none_there => exact none_there frame record
  | frame here later ih => exact ih

/-- What is left of a segment once a newer one is there. -/
theorem Sealed.kept (h : Sealed f segment bs bs' items) (header : Header.encode f <+: bs)
    (followed : newer ≠ []) : Kept newer bs bs' := by
  obtain ⟨stop, run, ⟨-, rfl⟩ | ⟨goes_on, rfl⟩⟩ := h
  · exact .written (List.prefix_refl _)
  refine .cut followed (List.take_prefix ..) fun g header' frame record => ?_
  cases format_unique (.inl (List.prefix_refl bs)) header header'
  rw [List.length_take_of_le (Nat.le_of_not_le fun past => goes_on (.inl past))]
  exact run.none_at_stop frame record

/-! ## Segments in sequence -/

/-- What is read of grown segments starts with what was read before. -/
theorem Grown.parses (h : Grown image image') {ending ending' : Ending}
    (shown : image = (segment, bs) :: ahead) (shown' : image' = (segment, bs') :: ahead')
    (header : Header.encode f <+: bs) (within : position ≤ bs'.length)
    (parses : Parses f segment bs position ahead items ending) (sane : ∀ e, ending ≠ .failed e)
    (parses' : Parses f segment bs' position ahead' items' ending')
    (sane' : ∀ e, ending' ≠ .failed e) : items <+: items' := by
  induction h generalizing f segment bs bs' ahead ahead' position items items' with
  | empty => cases shown
  | newest index kept =>
      cases shown
      cases shown'
      obtain ⟨here, stop, later, rfl, run, -, last⟩ := parses.run_later
      obtain rfl : later = [] := last.resolve_right (by rintro ⟨_, _, _, _, ⟨⟩, -⟩)
      rw [List.append_nil]
      cases kept with
      | written front =>
          obtain ⟨here', stop', later', rfl, run', -⟩ := parses'.run_later
          exact (run.isPrefix front run').trans (List.prefix_append _ _)
      | cut followed front torn =>
          cases parses' with
          | finish => exact absurd rfl followed
          | torn => exact absurd rfl followed
          | badHeader => exact absurd rfl (sane' _)
          | damaged => exact absurd rfl (sane' _)
          | passOn run' ends _ _ =>
              rw [run'.eq_of_cut front (torn f header) within ends run]
              exact List.prefix_append _ _
  | older e grown ih =>
      cases shown
      cases shown'
      cases parses with
      | badHeader => exact absurd rfl (sane _)
      | damaged => exact absurd rfl (sane _)
      | finish run ends =>
          obtain ⟨here', stop', later', rfl, run', -⟩ := parses'.run_later
          rw [run.unique run']
          exact List.prefix_append _ _
      | torn run goes_on =>
          obtain ⟨here', stop', later', rfl, run', -⟩ := parses'.run_later
          rw [run.unique run']
          exact List.prefix_append _ _
      | passOn run ends next rest =>
          obtain ⟨_, _, rfl, front⟩ := grown.cons
          cases parses' with
          | badHeader => exact absurd rfl (sane' _)
          | damaged => exact absurd rfl (sane' _)
          | passOn run' ends' next' rest' =>
              cases format_unique front next next'
              rw [run.unique run', List.prefix_append_right_inj]
              refine ih rfl rfl next ?_ rest rest'
              rw [← Header.length_encode]
              exact next'.length_le

theorem Grown.tail {e e' : ℕ × Bytes} (h : Grown (e :: image) (e' :: image')) (more : image ≠ []) :
    Grown image image' := by
  cases h with
  | newest => exact absurd rfl more
  | older _ grown => exact grown

/-- The segments from one on that is in both. -/
theorem Grown.suffix {older older' : List (ℕ × Bytes)}
    (h : Grown (older ++ (index, bs) :: ahead) (older' ++ (index, bs') :: ahead'))
    (distinct : ((older ++ (index, bs) :: ahead).map (·.1)).Nodup)
    (distinct' : ((older' ++ (index, bs') :: ahead').map (·.1)).Nodup) :
    Grown ((index, bs) :: ahead) ((index, bs') :: ahead') := by
  induction older generalizing older' with
  | nil =>
      cases older' with
      | nil => exact h
      | cons e older' =>
          obtain ⟨_, _, shown, -⟩ := h.cons
          cases shown
          simp at distinct'
  | cons e older ih =>
      cases older' with
      | nil =>
          obtain ⟨_, _, shown, -⟩ := h.cons
          cases shown
          simp at distinct
      | cons e' older' =>
          exact ih (h.tail (by simp)) (List.nodup_cons.mp distinct).2
            (List.nodup_cons.mp distinct').2

/-- Of a segment that is in both, one goes on where the other ends. -/
theorem Grown.fronts (h : Grown image image') (distinct : (image.map (·.1)).Nodup)
    (distinct' : (image'.map (·.1)).Nodup) (there : (index, bs) ∈ image)
    (there' : (index, bs') ∈ image') : bs <+: bs' ∨ bs' <+: bs := by
  obtain ⟨older, ahead, rfl⟩ := List.append_of_mem there
  obtain ⟨older', ahead', rfl⟩ := List.append_of_mem there'
  obtain ⟨_, _, shown, fronts⟩ := (h.suffix distinct distinct').cons
  cases shown
  exact fronts

end Segment

theorem Directory.Shows.distinct {d : Directory} {v : Volume} {image : List (ℕ × Bytes)}
    (h : d.Shows v image) : (image.map (·.1)).Nodup :=
  h.ascending.imp Nat.ne_of_lt

theorem Directory.Shows.readRecord_eq_ok {d : Directory} {v : Volume} {image : List (ℕ × Bytes)}
    (h : d.Shows v image) {bufferSize : ℕ} {p : Pointer} {record : Record}
    (ok : d.readRecord v bufferSize p = .ok record) :
    ∃ bs f frame, (p.segment, bs) ∈ image ∧ Header.encode f <+: bs ∧
      Segment.FrameAt f bs p.offset frame record := by
  by_cases listed : p.segment ∈ image.map (·.1)
  · obtain ⟨⟨_, bs⟩, there, rfl⟩ := List.mem_map.mp listed
    obtain ⟨f, found, header, -, here⟩ := Directory.readRecord_eq_ok (h.stores _ there) ok
    obtain ⟨frame, here, -⟩ := Segment.frameAt_of_read here
    exact ⟨bs, f, frame, there, Header.decode_eq_ok_iff.mp header, here⟩
  · unfold readRecord openReader at ok
    rw [h.missing _ listed] at ok
    cases ok

/-- A record that is read from segments is not read differently from grown ones. -/
theorem Directory.Shows.readRecord_unique {d d' : Directory} {v v' : Volume}
    {image image' : List (ℕ × Bytes)} (h : d.Shows v image) (h' : d'.Shows v' image')
    (grown : Segment.Grown image image') {bufferSize : ℕ} {p : Pointer} {record record' : Record}
    (ok : d.readRecord v bufferSize p = .ok record)
    (ok' : d'.readRecord v' bufferSize p = .ok record') : record' = record := by
  obtain ⟨bs, f, frame, there, header, here⟩ := h.readRecord_eq_ok ok
  obtain ⟨bs', f', frame', there', header', here'⟩ := h'.readRecord_eq_ok ok'
  have fronts := grown.fronts h.distinct h'.distinct there there'
  cases Segment.format_unique fronts header header'
  rcases fronts with front | front
  · exact ((here.of_front front).unique here').2
  · exact (here.unique (here'.of_front front)).2

namespace Session
variable {image image' : List (ℕ × Bytes)} {start : Option Pointer}
  {items items' : List (Pointer × Record)} {ending ending' : Ending}

/-- What a session gives of grown segments starts with what it gave before, unless it fails. -/
theorem Replayed.isPrefix (h : Replayed image start items ending)
    (sane : ∀ e, ending ≠ .failed e) (h' : Replayed image' start items' ending')
    (sane' : ∀ e, ending' ≠ .failed e) (grown : Segment.Grown image image')
    (distinct : (image.map (·.1)).Nodup) (distinct' : (image'.map (·.1)).Nodup) :
    items <+: items' := by
  cases h with
  | empty => exact List.nil_prefix
  | @reads older ahead first bs f items ending shown starts consecutive header within parses =>
      have some_segment : image ≠ [] := by simp [shown]
      cases h' with
      | empty nothing' =>
          obtain ⟨e, rest, rfl⟩ := List.exists_cons_of_ne_nil some_segment
          obtain ⟨_, _, shown', -⟩ := grown.cons
          rw [nothing'] at shown'
          cases shown'
      | @reads older' ahead' first' bs' f' items' ending' shown' starts' consecutive' header'
          within' parses' =>
          obtain rfl : first' = first := by
            cases start with
            | some p => exact starts'.symm.trans starts
            | none =>
                obtain rfl : older = [] := starts
                obtain rfl : older' = [] := starts'
                rw [shown, shown'] at grown
                obtain ⟨_, _, same, -⟩ := grown.cons
                cases same
                rfl
          rw [shown] at distinct
          rw [shown'] at distinct'
          rw [shown, shown'] at grown
          have grown := grown.suffix distinct distinct'
          obtain ⟨_, _, same, fronts⟩ := grown.cons
          cases same
          cases Segment.format_unique fronts header header'
          refine grown.parses rfl rfl header (Nat.max_le.mpr ⟨within', ?_⟩) parses sane parses'
            sane'
          rw [← Header.length_encode f]
          exact header'.length_le

end Session
end SegmentLog
