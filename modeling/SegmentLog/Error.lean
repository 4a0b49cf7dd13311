import SegmentLog.Numeral
import SegmentLog.Pointer
import SegmentLog.Record.Kind

/-!
# What can go wrong

Every failure is a cause with the numbers that describe it; the wording is in `message` alone.
A damaged record and a bad header say where they are, so a reader can decide whether the damage
may be the torn end of the newest segment (`Error.isRecordDamage`) or has to be reported.
-/

namespace SegmentLog

/-- The moments at which a simulated crash stops a writer. -/
inductive CrashPoint
  | append
  | write
  | flush
  | sync
  | creation
deriving DecidableEq, Repr

/-- Failures of the medium itself. -/
inductive IoFault
  | notFound
  | unexpectedEnd
  | alreadyExists
  | notAFolder
  | isAFolder
  | crash (point : CrashPoint)
deriving DecidableEq, Repr

/-- Failures of one byte store. -/
inductive StorageFault
  | io (fault : IoFault)
  | readPastEnd (offset len size : Nat)
  | readOnly (store : String)
  | truncateBeyond (requested size : Nat)
deriving DecidableEq, Repr

/-- Bytes that are not the external form of a pointer or of a counter snapshot. -/
inductive FormatFault
  | pointerTooShort (given : Nat)
  | negativePointer (segment offset length : Int)
  | snapshotTooShort (given : Nat)
  | snapshotLength (gaps expected given : Nat)
  | emptyGap (start : UInt64)
  | gapOutOfOrder (start floor : UInt64)
  | gapOverflow (start len : UInt64)
deriving DecidableEq, Repr

/-- Damage to one record. -/
inductive RecordFault
  | badMagic
  | referenceFlag (flag : UInt8)
  | endOfPayload (need position size : Nat)
  | trailingBytes (kind : RecordKind) (expected given : Nat)
  | format (fault : FormatFault)
  | frameTooShort (given : Nat)
  | unknownKind (byte : UInt8)
  | headerInBody
  | lengthMismatch (frame declared : Nat)
  | checksum (expected actual : UInt32)
  | truncatedPrefix
  | pastSegmentEnd (frame size : Nat)
  | beyondAddressing
  | truncatedFrame
  | noRecordHere
  | notData (kind : RecordKind)
  | payloadSize (given declared : Nat)
deriving DecidableEq, Repr

/-- Why the first bytes of a segment are not a usable header. -/
inductive HeaderFault
  | tooShort (given : Nat)
  | kind (byte : UInt8)
  | payloadLength (len : Nat)
  | checksum (expected actual : UInt32)
  | payload (fault : RecordFault)
  | unsupported (version : UInt16)
deriving DecidableEq, Repr

/-- Calls by which a counter is told something impossible, or more than it may hold. -/
inductive CounterFault
  | emptyCompletion (start : Nat)
  | zeroStart
  | overflow (start len : Nat)
  | straddles (start len applied : Nat)
  | overlaps (start len gapStart gapLen : Nat)
  | backwards (applied value : Nat)
  | tooManyGaps (limit start : Nat)
deriving DecidableEq, Repr

/-- Calls that ask for what cannot be done. -/
inductive ArgumentFault
  | pointerWithoutLength (pointer : Pointer)
  | pointerEndOverflow
  | pointerTooLarge (pointer : Pointer)
  | payloadMismatch (declared given : Nat)
  | payloadTooLarge (given : Nat)
  | tooManyPartitions
  | recordTooLarge
  | headerAppended
  | unknownVersion (version : UInt16)
  | segmentSize (size : Nat)
  | beyondAddressing (len offset : Nat)
  | startPastEnd (start segment size : Nat)
  | segmentExists (segment : Nat)
  | segmentTooShort (segment size : Nat)
  | noSuchFolder (path : String)
  | notAFolder (path : String)
  | refusedByStore
deriving DecidableEq, Repr

inductive Error
  | storage (fault : StorageFault)
  | io (fault : IoFault)
  | segmentMissing (segment : Nat)
  | segmentInUse (segment : Nat)
  | header (segment : Nat) (fault : HeaderFault)
  | record (segment offset : Nat) (fault : RecordFault)
  | counter (fault : CounterFault)
  | format (fault : FormatFault)
  | argument (fault : ArgumentFault)
  | locked
deriving DecidableEq, Repr

def CrashPoint.message : CrashPoint → String
  | append => "simulated crash during append"
  | write => "simulated crash during write"
  | flush => "simulated crash during flush"
  | sync => "simulated crash during sync"
  | creation => "simulated crash before segment creation"

def IoFault.message : IoFault → String
  | notFound => "No such file or directory (os error 2)"
  | unexpectedEnd => "failed to fill whole buffer"
  | alreadyExists => "File exists (os error 17)"
  | notAFolder => "Not a directory (os error 20)"
  | isAFolder => "Is a directory (os error 21)"
  | crash point => point.message

def StorageFault.message : StorageFault → String
  | io fault => "I/O error: " ++ fault.message
  | readPastEnd offset len size =>
    s!"read beyond end of storage: offset {offset}, len {len}, size {size}"
  | readOnly store => "storage is read-only: " ++ store
  | truncateBeyond requested size =>
    s!"cannot truncate to {requested} bytes, current size is {size}"

def FormatFault.message : FormatFault → String
  | pointerTooShort given => s!"log pointer needs 16 bytes, got {given}"
  | negativePointer segment offset length =>
    s!"negative log pointer field: ({segment}, {offset}, {length})"
  | snapshotTooShort given => s!"counter snapshot too short: {given} bytes"
  | snapshotLength gaps expected given =>
    s!"counter snapshot with {gaps} gaps must be {expected} bytes, got {given}"
  | emptyGap start => s!"empty gap at {start.toNat}"
  | gapOutOfOrder start floor => s!"gap at {start.toNat} overlaps or precedes {floor.toNat}"
  | gapOverflow start len => s!"gap ({start.toNat}, {len.toNat}) overflows"

/-- The two checks of a checksum that fails. -/
def checksumText (expected actual : UInt32) : String :=
  "expected " ++ Numeral.hex 8 expected.toNat ++ ", got " ++ Numeral.hex 8 actual.toNat

def RecordFault.message : RecordFault → String
  | badMagic => "bad segment magic"
  | referenceFlag flag => s!"invalid reference flag {flag.toNat}"
  | endOfPayload need position size =>
    s!"unexpected end of payload: need {need} bytes at {position}, have {size}"
  | trailingBytes kind expected given =>
    s!"trailing bytes in {kind.name} record: expected {expected} bytes, got {given}"
  | format fault => "invalid format: " ++ fault.message
  | frameTooShort given => s!"frame too short: {given} bytes"
  | unknownKind byte => s!"unknown record type {byte.toNat}"
  | headerInBody => "header record inside segment body"
  | lengthMismatch frame declared =>
    s!"frame length {frame} does not match declared payload {declared}"
  | checksum expected actual => checksumText expected actual
  | truncatedPrefix => "truncated frame prefix"
  | pastSegmentEnd frame size => s!"record of {frame} bytes runs past segment end at {size}"
  | beyondAddressing => "record extends beyond addressable segment range"
  | truncatedFrame => "truncated frame"
  | noRecordHere => "no record at pointer"
  | notData kind => s!"reference points at {kind.name}, expected data"
  | payloadSize given declared =>
    s!"referenced record holds {given} bytes, page update declares {declared}"

def CounterFault.message : CounterFault → String
  | emptyCompletion start => s!"empty completion at {start}"
  | zeroStart => "update numbers start at 1, got completion at 0"
  | overflow start len => s!"completion ({start}, {len}) overflows"
  | straddles start len applied => s!"completion ({start}, {len}) straddles applied {applied}"
  | overlaps start len gapStart gapLen =>
    s!"completion ({start}, {len}) overlaps gap ({gapStart}, {gapLen})"
  | backwards applied value => s!"cannot move applied back from {applied} to {value}"
  | tooManyGaps limit start =>
    s!"too many gaps in update counter (limit {limit}) while recording range starting at {start}"

def ArgumentFault.message : ArgumentFault → String
  | pointerWithoutLength pointer => s!"pointer {pointer.text} has no record length"
  | pointerEndOverflow => "pointer end overflows"
  | pointerTooLarge pointer => s!"pointer {pointer.text} does not fit the external form"
  | payloadMismatch declared given =>
    s!"page update declares {declared} bytes but carries {given}"
  | payloadTooLarge given => s!"payload too large: {given} bytes"
  | tooManyPartitions => "too many checkpoint partitions"
  | recordTooLarge => "WAL record payload too large"
  | headerAppended => "header records are written by segment rotation"
  | unknownVersion version => s!"unknown record format version {version.toNat}"
  | segmentSize size =>
    s!"segment size {size} must exceed the header and not exceed {Pointer.maxOffset}"
  | beyondAddressing len offset =>
    s!"record of {len} bytes at offset {offset} exceeds segment addressing"
  | startPastEnd start segment size =>
    s!"offset {start} is past the end of segment {segment} ({size} bytes)"
  | segmentExists segment => s!"segment {segment} already exists"
  | segmentTooShort segment size => s!"segment {segment} has only {size} bytes"
  | noSuchFolder path => "log directory does not exist: " ++ path
  | notAFolder path => "path is not a directory: " ++ path
  | refusedByStore => "store refused the record"

namespace Error

def recordMessage (segment offset : Nat) : RecordFault → String
  | .checksum expected actual =>
    s!"checksum mismatch in segment {segment} at offset {offset}: " ++ checksumText expected actual
  | fault => s!"WAL corruption in segment {segment} at offset {offset}: " ++ fault.message

def headerMessage (segment : Nat) : HeaderFault → String
  | .unsupported version =>
    s!"segment {segment} uses unsupported record format version {version.toNat}"
  | .tooShort given => corrupted s!"segment holds {given} bytes, header needs 15"
  | .kind byte => corrupted s!"first record has type {byte.toNat}, expected header"
  | .payloadLength len => corrupted s!"header payload length {len}"
  | .checksum expected actual =>
    corrupted <| "header checksum mismatch: " ++ checksumText expected actual
  | .payload fault => corrupted <| recordMessage segment 0 fault
where
  corrupted (text : String) : String := s!"segment {segment} header corrupted: " ++ text

def message : Error → String
  | storage fault => "storage error: " ++ fault.message
  | io fault => "I/O error: " ++ fault.message
  | segmentMissing segment => s!"log segment {segment} is missing"
  | segmentInUse segment => s!"log segment {segment} is in use by a reader"
  | header segment fault => headerMessage segment fault
  | record segment offset fault => recordMessage segment offset fault
  | counter (.tooManyGaps limit start) => (CounterFault.tooManyGaps limit start).message
  | counter fault => "update counter protocol violation: " ++ fault.message
  | format fault => "invalid format: " ++ fault.message
  | argument fault => "invalid argument: " ++ fault.message
  | locked => "log directory locked: another process has exclusive access"

/-- Damage that may be the torn end of a segment; header damage never is. -/
def isRecordDamage : Error → Bool
  | record .. => true
  | _ => false

/-- Say where a damaged record is. -/
def atPointer (p : Pointer) (fault : RecordFault) : Error :=
  .record p.segment p.offset fault

end Error

end SegmentLog
