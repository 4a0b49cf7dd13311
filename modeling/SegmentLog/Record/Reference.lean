import SegmentLog.Error
import SegmentLog.Record

/-!
# References

A page update may name the data record that holds its bytes instead of carrying them. Resolving
it fetches them; a record that has its bytes is left alone, without a look at the log. A record can
also be filled in where it is.
-/

namespace SegmentLog

/-- The bytes that the record at a reference holds for a page update. -/
def PageUpdate.bytesOf (u : PageUpdate) (at_ : Pointer) : Record → Except Error Bytes
  | .data _ _ payload =>
    if payload.length = u.size.toNat then .ok payload
    else .error (.atPointer at_ (.payloadSize payload.length u.size.toNat))
  | record => .error (.atPointer at_ (.notData record.kind))

/-- Fill in the bytes that a page update refers to; `read` fetches the record at a pointer. -/
def Record.resolve (read : Pointer → Except Error Record) : Record → Except Error Record
  | .pageUpdate u =>
    match u.reference with
    | some p =>
      if u.needsPayload then do
        return .pageUpdate { u with payload := ← u.bytesOf p (← read p) }
      else .ok (.pageUpdate u)
    | none => .ok (.pageUpdate u)
  | record => .ok record

/-- Resolve a record in place. -/
def Record.fill (read : Pointer → Except Error Record) : EStateM Error Record Unit := do
  match ← get with
  | .pageUpdate u =>
    match u.reference with
    | some p =>
      if u.needsPayload then
        let referent ← MonadExcept.ofExcept (read p)
        let payload ← MonadExcept.ofExcept (u.bytesOf p referent)
        set (Record.pageUpdate { u with payload })
    | none => return
  | _ => return

end SegmentLog
