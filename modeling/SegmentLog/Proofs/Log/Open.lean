import SegmentLog.Proofs.Log.Write

/-!
# What opening a log leaves

Opening cuts off the torn end of the newest segment, if it has one, before that segment stops being
the newest. Records are neither lost nor found on the way, and where opening fails the segments are
as they were but for that end: `openIn_opens`.
-/
namespace SegmentLog

/-- The volume holds images with these records. Only the newest may end in the front of a frame, and
only if `torn`. -/
def Volume.Shows (v : Volume) (torn : Prop) (items : List (Pointer × Record)) : Prop :=
  ∃ images, v.Holds images ∧ Image.itemsFrom 0 images = items ∧
    ∀ older newest, images = older ++ [newest] →
      (∀ i ∈ older, i.Sound ∧ i.Blank) ∧ newest.Sound ∧ (newest.Blank ∨ torn ∧ newest.Torn)

namespace Volume
variable {v : Volume} {torn : Prop} {items : List (Pointer × Record)}

theorem Shows.imp {torn' : Prop} (h : v.Shows torn items) (ht : torn → torn') :
    v.Shows torn' items := by
  obtain ⟨images, holds, same, kept⟩ := h
  refine ⟨images, holds, same, ?_⟩
  intro older newest e
  obtain ⟨before, sound, tail⟩ := kept older newest e
  exact ⟨before, sound, tail.imp_right (And.imp_left ht)⟩

theorem Shows.congr {v' : Volume} (h : v.Shows torn items) (segments : v'.segments = v.segments)
    (contents : v'.contents = v.contents) : v'.Shows torn items := by
  obtain ⟨images, holds, rest⟩ := h
  exact ⟨images, ⟨segments.trans holds.segments, contents.trans holds.contents⟩, rest⟩

/-- Reading everything gives the records, and ends well or at the torn end. -/
theorem Shows.drain (h : v.Shows torn items) {d : Directory} (place : d.place = .memory)
    (bufferSize : ℕ) :
    ∃ s, Session.openRange d v bufferSize none none = .ok s ∧ (s.drain v).items = items ∧
      ((s.drain v).ending = some .finish ∨ torn ∧ (s.drain v).ending = some .tornTail) := by
  obtain ⟨images, holds, same, kept⟩ := h
  obtain ⟨s, opened, found, ending⟩ := holds.drain place bufferSize
  refine ⟨s, opened, ?_⟩
  rw [found, ending, ← same]
  rcases List.eq_nil_or_concat images with rfl | ⟨older, newest, rfl⟩
  · exact ⟨rfl, Or.inl rfl⟩
  · rw [List.concat_eq_append] at *
    obtain ⟨before, sound, tail⟩ := kept older newest rfl
    have all : Image.Kept older newest := ⟨before, sound, tail.imp_right And.right⟩
    obtain ⟨items, finish, stops⟩ := all.scanAll 0
    refine ⟨items, tail.imp (fun blank => ?_) (fun end_ => ⟨end_.1, ?_⟩)⟩
    · rw [finish blank]
    · rw [stops end_.2]

theorem Shows.readRecord (h : v.Shows torn items) {d : Directory} (place : d.place = .memory)
    {p : Pointer} {record : Record} (mem : (p, record) ∈ items) (bufferSize : ℕ) :
    d.readRecord v bufferSize p = .ok record := by
  obtain ⟨images, holds, rfl, kept⟩ := h
  refine holds.readRecord place ?_ mem bufferSize
  rcases List.eq_nil_or_concat images with rfl | ⟨older, newest, rfl⟩
  · exact fun i hi => absurd hi List.not_mem_nil
  · rw [List.concat_eq_append] at *
    obtain ⟨before, sound, -⟩ := kept older newest rfl
    intro i hi
    rcases List.mem_append.mp hi with hi | hi
    · exact (before i hi).1
    · cases List.mem_singleton.mp hi
      exact sound

end Volume

namespace Log

theorem Laid.shows {log : Log} {v : Volume} {older : List Image} {image : Image}
    (h : log.Laid v older image) :
    v.Shows (log.directory.hasBlown v = true) (Image.itemsFrom 0 (older ++ [image])) := by
  refine ⟨_, h.holds, rfl, ?_⟩
  intro older' newest e
  obtain ⟨rfl, ⟨⟩⟩ := List.append_inj' e rfl
  refine ⟨h.older, h.sound, ?_⟩
  rcases h.tail with ⟨n, zeros, -⟩ | ⟨torn, blown⟩
  · exact Or.inl ⟨n, zeros⟩
  · exact Or.inr ⟨blown, torn⟩

variable {d : Directory} {v : Volume}

/-- The newest image without what followed its frames. Only the fuse may fail on the way, after
the end was cut off. -/
theorem cutAt_cases {older : List Image} {newest : Image} (place : d.place = .memory)
    (wired : d.Wired v) (holds : v.Holds (older ++ [newest])) :
    ∃ v', v'.Holds (older ++ [newest.withTail []]) ∧ v'.fuses.size = v.fuses.size ∧
      (d.hasBlown v = true → d.hasBlown v' = true) ∧
      (cutAt d older.length newest.stop v = .ok () v' ∨
        d.fuse ≠ none ∧ ∃ e, cutAt d older.length newest.stop v = .error e v') := by
  have content : v.segments.get? older.length = some older.length := by
    rw [holds.segments, Volume.get?_numbers, if_pos (by simp)]
  have opened : VolumeM.ofExcept id (d.openAppend v older.length) v =
      .ok ⟨older.length, .memory false, d.fuse.toList⟩ v :=
    VolumeM.ofExcept_eq_ok.mpr
      ⟨(Directory.openAppend_memory_eq_ok place).mpr ⟨_, content, rfl⟩, rfl⟩
  have bytes : v.bytes older.length = newest.bytes := holds.bytes List.getElem?_concat_length
  have within : ¬newest.bytes.length < newest.stop := Nat.not_lt.mpr newest.stop_le
  have truncated : (Store.run ⟨older.length, .memory false, d.fuse.toList⟩
      fun v s => s.truncate v newest.stop) v =
        .ok ((), ⟨older.length, .memory false, d.fuse.toList⟩)
          (v.setBytes older.length (newest.withTail []).bytes) := by
    rw [Store.run_truncate_memory rfl, bytes, if_neg within, newest.resize_stop]
  have holds' := holds.setBytes (newest.withTail [])
  have wired' : d.Wired (v.setBytes older.length (newest.withTail []).bytes) := wired
  unfold cutAt
  rw [run_get_bind, run_bind_of_ok opened,
    run_bind_of_ok truncated]
  rcases Directory.passFuses_cases wired' .sync with
    ⟨v', passed, alike, calm, still⟩ | ⟨v', stopped, alike, blown⟩
  · have calm : d.hasBlown v = false := calm
    exact ⟨v', holds'.alike alike, alike.fuses, by simp [calm],
      Or.inl (VolumeM.attempt_of_ok passed)⟩
  · exact ⟨v', holds'.alike alike, alike.fuses, fun _ => blown,
      Or.inr ⟨Directory.fuse_ne_none blown, _, VolumeM.attempt_of_error stopped⟩⟩

/-- The newest image without its torn end, if it has one. -/
theorem cutTornEnd_cases {older : List Image} {newest : Image} (place : d.place = .memory)
    (wired : d.Wired v) (holds : v.Holds (older ++ [newest])) (sound : newest.Sound)
    (tail : newest.Blank ∨ newest.Torn) (bufferSize : ℕ) :
    ∃ v' image, v'.Holds (older ++ [image]) ∧ image.Sound ∧ image.Blank ∧
      image.items older.length = newest.items older.length ∧ v'.fuses.size = v.fuses.size ∧
      (d.hasBlown v = true → d.hasBlown v' = true) ∧
      (cutTornEnd d bufferSize older.length v = .ok () v' ∨
        d.fuse ≠ none ∧ ∃ e, cutTornEnd d bufferSize older.length v = .error e v') := by
  have there : v.segment? older.length = some newest.bytes :=
    holds.segment? List.getElem?_concat_length
  obtain ⟨r, opened, on, segment, format, position⟩ := Directory.openReader_of_ok
    (Directory.stores_memory place there)
    newest.header 0 (by simpa using Header.size_le_of_decode newest.header) bufferSize
  rw [Nat.zero_max] at position
  have damage := Reader.firstDamage_spec on
  rw [segment, format, position] at damage
  have opening : (VolumeM.ofExcept id (d.openReader v bufferSize older.length 0)) v = .ok r v := by
    rw [opened]
    rfl
  unfold cutTornEnd
  rw [run_get_bind, run_bind_of_ok opening,
    run_get_bind, damage]
  rcases tail with blank | torn
  · rw [Image.scan_blank sound blank]
    exact ⟨v, newest, holds, sound, blank, rfl, rfl, id, Or.inl rfl⟩
  · obtain ⟨fault, found⟩ := Image.scan_torn sound torn older.length
    obtain ⟨v', holds', fuses, blown, result⟩ := cutAt_cases place wired holds
    rw [found]
    exact ⟨v', newest.withTail [], holds', ⟨sound.readable, sound.fits⟩, ⟨0, rfl⟩, rfl, fuses, blown,
      result⟩

/-- What opening checks of a configuration. -/
def Config.Accepted (c : Config) : Prop :=
  (Format.ofVersion? c.version).isSome ∧ Header.size < c.segmentSize ∧
    c.segmentSize ≤ Pointer.maxOffset

instance (c : Config) : Decidable c.Accepted := inferInstanceAs (Decidable (_ ∧ _ ∧ _))

/-- What comes of opening a log: it shows what the volume showed, or the volume still shows it, for
which without a fuse there must be a reason. -/
def Opens (x : VolumeM Log) (d : Directory) (v : Volume) (torn : Prop)
    (items : List (Pointer × Record)) (reason : Prop) : Prop :=
  (∃ v' log, x v = .ok log v' ∧ Shows (v', log) items ∧ log.directory = d ∧
    v'.fuses.size = v.fuses.size ∧ (d.hasBlown v = true → d.hasBlown v' = true)) ∨
  ∃ e v', x v = .error e v' ∧ v'.Shows torn items ∧ v'.fuses.size = v.fuses.size ∧
    (d.hasBlown v = true → d.hasBlown v' = true) ∧ (d.fuse = none → reason)

theorem Opens.imp {x : VolumeM Log} {torn : Prop} {items : List (Pointer × Record)}
    {reason reason' : Prop} (h : Opens x d v torn items reason) (imp : reason → reason') :
    Opens x d v torn items reason' := by
  rcases h with opened | ⟨e, v', failed, shows, fuses, blown, why⟩
  · exact Or.inl opened
  · exact Or.inr ⟨e, v', failed, shows, fuses, blown, fun none_fuse => imp (why none_fuse)⟩

/-- Nothing is done without a reason. -/
theorem Opens.refuse {x : VolumeM Log} {torn : Prop} {items : List (Pointer × Record)}
    {reason : Prop} {e : Error} (failed : x v = .error e v) (shows : v.Shows torn items)
    (why : reason) : Opens x d v torn items reason :=
  Or.inr ⟨e, v, failed, shows, rfl, id, fun _ => why⟩

theorem shows_of_blank {images : List Image} (holds : v.Holds images)
    (blank : ∀ i ∈ images, i.Sound ∧ i.Blank) (torn : Prop) :
    v.Shows torn (Image.itemsFrom 0 images) := by
  refine ⟨images, holds, rfl, ?_⟩
  intro older newest e
  obtain ⟨before, last⟩ := List.forall_mem_append.mp (e ▸ blank)
  obtain ⟨sound, zeros⟩ := last newest List.mem_cons_self
  exact ⟨before, sound, Or.inl zeros⟩

/-- A log starts on a segment of its own after images that all end in zeros, unless the fuse has
blown. -/
theorem startIn_opens {c : Config} {images : List Image} (format : Format)
    (place : d.place = .memory) (wired : d.Wired v) (bare : d.fuse = none ∨ c.preallocate = false)
    (bounded : c.segmentSize ≤ Pointer.maxOffset) (holds : v.Holds images)
    (blank : ∀ i ∈ images, i.Sound ∧ i.Blank) (torn : Prop) :
    Opens (startIn d c format images.length) d v torn (Image.itemsFrom 0 images) False := by
  unfold Opens startIn
  rcases create_cases format place bare holds with
    ⟨v', n, created, holds', few, fuses, calm⟩ | ⟨e, failed, blown⟩
  · left
    have wired' : d.Wired v' := wired.alike (Nat.le_of_eq (by rw [fuses]))
    rw [run_bind_of_ok created]
    refine ⟨v', _, rfl, ⟨images, fresh format n, ?_, ?_⟩, rfl, by rw [fuses], by simp [calm]⟩
    · exact ⟨place, wired', bounded, bare, rfl, rfl, holds', blank, fresh_sound ..,
        Or.inl ⟨n, rfl, few⟩⟩
    · exact itemsFrom_fresh ..
  · right
    rw [run_bind_of_error failed]
    exact ⟨e, v, rfl, shows_of_blank holds blank torn, rfl, id, Directory.fuse_ne_none blown⟩

/-- The log goes on after the newest image, whose torn end is cut off first, if there is an index
for another segment. -/
theorem resume_opens {c : Config} {older : List Image} {newest : Image} {torn : Prop}
    (format : Format) (place : d.place = .memory) (wired : d.Wired v)
    (bare : d.fuse = none ∨ c.preallocate = false) (bounded : c.segmentSize ≤ Pointer.maxOffset)
    (holds : v.Holds (older ++ [newest])) (before : ∀ i ∈ older, i.Sound ∧ i.Blank)
    (sound : newest.Sound) (tail : newest.Blank ∨ newest.Torn) :
    Opens (cutTornEnd d c.bufferSize older.length >>= fun _ =>
      startIn d c format (Directory.indexAfter older.length)) d v torn
      (Image.itemsFrom 0 (older ++ [newest])) v.Full := by
  obtain ⟨v₁, image, holds₁, sound₁, blank₁, same, fuses₁, blown₁, cut⟩ :=
    cutTornEnd_cases place wired holds sound tail c.bufferSize
  have items : Image.itemsFrom 0 (older ++ [newest]) = Image.itemsFrom 0 (older ++ [image]) := by
    rw [itemsFrom_concat, itemsFrom_concat, same]
  have next : older.length + 1 = (older ++ [image]).length := by
    rw [List.length_append, List.length_singleton]
  have blank : ∀ i ∈ older ++ [image], i.Sound ∧ i.Blank :=
    List.forall_mem_append.mpr ⟨before, List.forall_mem_singleton.mpr ⟨sound₁, blank₁⟩⟩
  rw [items, Opens]
  rcases cut with cut | ⟨fused, e, failed⟩
  · have wired₁ : d.Wired v₁ := wired.alike (Nat.le_of_eq fuses₁.symm)
    rw [run_bind_of_ok cut]
    rcases Directory.indexAfter_cases older.length with ⟨full, taken⟩ | after
    · rw [next] at taken
      obtain ⟨e, failed⟩ := create_taken place holds₁ taken c format
      have full : v.Full := holds.full_iff.mpr (by simpa using full)
      exact Or.inr ⟨e, v₁, run_bind_of_error failed, shows_of_blank holds₁ blank torn, fuses₁,
        blown₁, fun _ => full⟩
    rw [after, next]
    rcases startIn_opens format place wired₁ bare bounded holds₁ blank torn with
      ⟨v', log, started, shows, directory, fuses, blown⟩ | ⟨e, v', failed, shows, fuses, blown, why⟩
    · exact Or.inl ⟨v', log, started, shows, directory, fuses.trans fuses₁, blown ∘ blown₁⟩
    · exact Or.inr ⟨e, v', failed, shows, fuses.trans fuses₁, blown ∘ blown₁, fun h => (why h).elim⟩
  · rw [run_bind_of_error failed]
    exact Or.inr ⟨e, v₁, rfl, shows_of_blank holds₁ blank torn, fuses₁, blown₁,
      fun none_fuse => (fused none_fuse).elim⟩

/-- The log opens on a fresh segment after the others if its configuration is accepted and there is
an index for the segment. -/
theorem openIn_opens {c : Config} {torn : Prop} {items : List (Pointer × Record)}
    (place : d.place = .memory) (wired : d.Wired v) (bare : d.fuse = none ∨ c.preallocate = false)
    (shows : v.Shows torn items) : Opens (openIn d c) d v torn items (¬c.Accepted ∨ v.Full) := by
  unfold openIn
  cases version : Format.ofVersion? c.version with
  | none =>
      refine Opens.refuse rfl shows (.inl fun accepted => ?_)
      have := accepted.1
      rw [version] at this
      cases this
  | some format =>
      dsimp only
      by_cases size : c.segmentSize ≤ Header.size ∨ Pointer.maxOffset < c.segmentSize
      · rw [if_pos size]
        refine Opens.refuse rfl shows (.inl fun accepted => ?_)
        have := accepted.2
        omega
      rw [if_neg size]
      obtain ⟨images, holds, rfl, kept⟩ := shows
      have bounded : c.segmentSize ≤ Pointer.maxOffset := by omega
      have listed : (VolumeM.ofExcept id (d.list v)) v = .ok (List.range images.length) v := by
        rw [Directory.list, place, Place.list, holds.keys]
        rfl
      rw [Opens, run_get_bind,
        run_bind_of_ok listed]
      rcases List.eq_nil_or_concat images with rfl | ⟨older, newest, rfl⟩
      · exact (startIn_opens format place wired bare bounded holds (by simp) torn).imp False.elim
      · rw [List.concat_eq_append] at *
        obtain ⟨before, sound, tail⟩ := kept older newest rfl
        have last : (List.range (older ++ [newest]).length).getLast? = some older.length := by
          rw [List.length_append, List.length_singleton, List.range_succ, List.getLast?_concat]
        rw [last]
        exact (resume_opens format place wired bare bounded holds before sound
          (tail.imp_right And.right)).imp .inr

end Log
end SegmentLog
