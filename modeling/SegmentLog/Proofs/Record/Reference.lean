import SegmentLog.Proofs.Success
import SegmentLog.Record.Reference

/-!
# Resolved page updates

What it takes to resolve a record: `Record.resolve_eq_ok`. Nothing but the bytes of a page update
changes, and a record that needs none is left alone, without a look at what it refers to. A record
may as well be resolved in place: a failure leaves it as it was (`Record.fill_eq`).
-/
namespace SegmentLog

theorem PageUpdate.bytesOf_eq_ok {u : PageUpdate} {p : Pointer} {record : Record}
    {payload : Bytes} : u.bytesOf p record = .ok payload ↔
      payload.length = u.size.toNat ∧ ∃ key number, record = .data key number payload := by
  cases record with
  | data key number found =>
      unfold bytesOf
      dsimp only
      split
      · rename_i fits
        constructor
        · rintro ⟨⟩
          exact ⟨fits, key, number, rfl⟩
        · rintro ⟨-, _, _, ⟨⟩⟩
          rfl
      · rename_i other
        constructor
        · rintro ⟨⟩
        · rintro ⟨fits, _, _, ⟨⟩⟩
          exact absurd fits other
  | _ => simp [bytesOf]

namespace Record
variable {read : Pointer → Except Error Record} {record found : Record} {u : PageUpdate}

theorem resolve_of_unneeded (read : Pointer → Except Error Record)
    (unneeded : record.needsPayload = false) : record.resolve read = .ok record := by
  cases record with
  | pageUpdate u =>
      unfold resolve
      dsimp only
      split
      · exact if_neg (Bool.not_eq_true _ ▸ unneeded)
      · rfl
  | _ => rfl

theorem resolve_of_needed {p : Pointer} (needed : u.needsPayload = true)
    (reference : u.reference = some p) : (pageUpdate u).resolve read =
      (read p >>= u.bytesOf p).map fun payload => .pageUpdate { u with payload } := by
  unfold resolve
  dsimp only
  rw [reference]
  dsimp only
  rw [if_pos needed]
  cases read p with
  | error e => rfl
  | ok referent => rfl

theorem resolve_eq_ok : record.resolve read = .ok found ↔
    record.needsPayload = false ∧ found = record ∨
    ∃ u p payload key number, record = .pageUpdate u ∧ u.needsPayload = true ∧
      u.reference = some p ∧ read p = .ok (.data key number payload) ∧
      payload.length = u.size.toNat ∧ found = .pageUpdate { u with payload } := by
  by_cases needed : record.needsPayload = true
  · obtain ⟨u, rfl, needed⟩ : ∃ u, record = .pageUpdate u ∧ u.needsPayload = true := by
      cases record with
      | pageUpdate u => exact ⟨u, rfl, needed⟩
      | _ => cases needed
    obtain ⟨p, reference⟩ := Option.isSome_iff_exists.mp (of_decide_eq_true needed).1
    rw [resolve_of_needed needed reference, map_eq_ok]
    constructor
    · rintro ⟨payload, fetched, rfl⟩
      obtain ⟨referent, there, bytes⟩ := bind_eq_ok.mp fetched
      obtain ⟨fits, key, number, rfl⟩ := PageUpdate.bytesOf_eq_ok.mp bytes
      exact Or.inr ⟨u, p, payload, key, number, rfl, needed, reference, there, fits, rfl⟩
    · rintro (⟨unneeded, -⟩ | ⟨_, p', payload, key, number, ⟨⟩, -, reference', there, fits, rfl⟩)
      · exact absurd needed (Bool.not_eq_true _ ▸ unneeded)
      · cases reference.symm.trans reference'
        refine ⟨payload, bind_eq_ok.mpr ⟨_, there, ?_⟩, rfl⟩
        exact PageUpdate.bytesOf_eq_ok.mpr ⟨fits, key, number, rfl⟩
  · have unneeded : record.needsPayload = false := Bool.not_eq_true _ ▸ needed
    rw [resolve_of_unneeded read unneeded]
    constructor
    · rintro ⟨⟩
      exact Or.inl ⟨unneeded, rfl⟩
    · rintro (⟨-, rfl⟩ | ⟨u, _, _, _, _, rfl, needed', -⟩)
      · rfl
      · exact absurd needed' needed

/-- Only the bytes of a page update are filled in. -/
theorem resolve_changes (resolved : record.resolve read = .ok found) : found = record ∨
    ∃ u payload, record = .pageUpdate u ∧ found = .pageUpdate { u with payload } := by
  rcases resolve_eq_ok.mp resolved with ⟨-, same⟩ | ⟨u, _, payload, _, _, before, -, -, -, -, after⟩
  · exact Or.inl same
  · exact Or.inr ⟨u, payload, before, after⟩

theorem fill_eq (read : Pointer → Except Error Record) (record : Record) :
    fill read record = match record.resolve read with
      | .ok found => .ok () found
      | .error e => .error e record := by
  unfold fill
  rw [run_get_bind]
  cases record with
  | pageUpdate u =>
      unfold resolve
      dsimp only
      cases u.reference with
      | none => rfl
      | some p =>
          dsimp only
          split
          · cases read p with
            | error e => rfl
            | ok referent =>
                have fetched : (MonadExcept.ofExcept (.ok referent : Except Error Record) :
                    EStateM Error Record Record) (pageUpdate u) = .ok referent (pageUpdate u) := rfl
                rw [run_bind_of_ok fetched]
                dsimp only [bind, Except.bind]
                cases u.bytesOf p referent with
                | error e => rfl
                | ok payload => rfl
          · rfl
  | _ => rfl

/-- A record is resolved in place as a whole or not at all, and only bytes are filled in. -/
structure Fills (read : Pointer → Except Error Record) (record : Record) : Prop where
  unneeded : record.needsPayload = false → fill read record = .ok () record
  failed : ∀ e left, fill read record = .error e left →
    record.resolve read = .error e ∧ left = record
  filled : ∀ left, fill read record = .ok () left → record.resolve read = .ok left ∧
    (left = record ∨ ∃ u payload, record = .pageUpdate u ∧ left = .pageUpdate { u with payload })

theorem fills (read : Pointer → Except Error Record) (record : Record) : Fills read record := by
  have in_place := fill_eq read record
  cases resolved : record.resolve read with
  | error e =>
      rw [resolved] at in_place
      refine ⟨fun unneeded => ?_, fun e left failed => ?_, fun left filled => ?_⟩
      · cases (resolve_of_unneeded read unneeded).symm.trans resolved
      · cases in_place.symm.trans failed
        exact ⟨resolved, rfl⟩
      · cases in_place.symm.trans filled
  | ok found =>
      rw [resolved] at in_place
      refine ⟨fun unneeded => ?_, fun e left failed => ?_, fun left filled => ?_⟩
      · cases (resolve_of_unneeded read unneeded).symm.trans resolved
        exact in_place
      · cases in_place.symm.trans failed
      · cases in_place.symm.trans filled
        exact ⟨resolved, resolve_changes resolved⟩

end Record
end SegmentLog
