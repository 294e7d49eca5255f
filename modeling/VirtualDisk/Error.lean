import VirtualDisk.DiskType
import VirtualDisk.Path
import VirtualDisk.Text.Hex
import VirtualDisk.Text.Utf8
import VirtualDisk.UniqueId

namespace VirtualDisk

inductive Outcome where
  | missing
  | unreadable (reason : String)
  | mismatch (found : UniqueId)
  | accepted
deriving DecidableEq

structure Attempt where
  path : Path
  outcome : Outcome
deriving DecidableEq

def Attempt.text (a : Attempt) : String :=
  a.path.text ++ match a.outcome with
    | .missing => " (not found)"
    | .unreadable reason => s!" (unreadable: {reason})"
    | .mismatch found => s!" (unique ID mismatch: found {found.text})"
    | .accepted => " (accepted)"

inductive FileFault where
  | notFound
  | notADirectory
  | isADirectory
  | invalidFilename
  | invalidInput
  | unexpectedEof
  | invalidData
deriving DecidableEq

inductive FormatFault where
  | footerTooShort
  | footerCookie (found : List UInt8)
  | footerVersion (version : UInt32)
  | diskType (code : Nat)
  | headerTooShort
  | headerCookie (found : List UInt8)
  | blockSizeNotPowerOfTwo (bytes : Nat)
  | blockSizeBelowSector (bytes : Nat)
  | tableLength
  | fileTooSmall
  | fixedTooShort (size needed : Nat)
  | noHeaderOffset
  | shortRead (what : String) (length offset : Nat)
  | rangeCut (missing start stop : Nat)
  | stated (message : String)
deriving DecidableEq

inductive PrecisionFault where
  | tooLarge (field : String) (value : Nat)
  | absent (field : String)
  | locatorOffset (value : Nat)
  | stated (message : String)
deriving DecidableEq

inductive ChecksumFault where
  | mismatch (what : String) (path : Path)
  | stated (message : String)
deriving DecidableEq

inductive SupportFault where
  | diskType (type : DiskType)
  | stated (message : String)
deriving DecidableEq

inductive LimitFault where
  | allocation (what : String) (size limit : Nat)
  | product (what : String)
  | machineSize (what : String) (value : Nat)
  | blockSize (bytes limit : Nat)
  | locatorLength (code : List UInt8) (length limit : Nat)
  | chainDepth (limit : Nat)
  | stated (message : String)
deriving DecidableEq

inductive StreamFault where
  | failedEarlier
  | destroyed
  | stated (message : String)
deriving DecidableEq

inductive Error where
  | file (fault : FileFault) (detail : String)
  | format (fault : FormatFault)
  | parentNotFound (child : Path) (attempts : List Attempt)
  | misaligned (start last sector : Nat)
  /-- Two sources that were merged had different lengths: the bytes left over
  of each, and the bytes received from each. -/
  | sizeMismatch (left received : Nat × Nat)
  | precision (fault : PrecisionFault)
  | checksum (fault : ChecksumFault)
  | unsupported (fault : SupportFault)
  | limit (fault : LimitFault)
  | unreadable (fault : StreamFault)
deriving DecidableEq

def hexText (width n : Nat) : String := "0x" ++ Hex.ofNat width n

def FormatFault.text : FormatFault → String
  | footerTooShort => "VHD footer too small"
  | footerCookie found =>
    s!"Invalid VHD footer cookie: expected 'conectix', got '{Utf8.text found}'"
  | footerVersion version => s!"Unsupported VHD file format version {hexText 8 version.toNat}"
  | diskType code => s!"Invalid VHD disk type: {code}"
  | headerTooShort => "VHD dynamic header too small"
  | headerCookie found =>
    s!"Invalid VHD dynamic header cookie: expected 'cxsparse', got '{Utf8.text found}'"
  | blockSizeNotPowerOfTwo bytes => s!"Block size {bytes} is not a power of 2"
  | blockSizeBelowSector bytes => s!"Block size {bytes} is smaller than a sector"
  | tableLength => "BAT size must be multiple of 4"
  | fileTooSmall => "File too small to be a VHD"
  | fixedTooShort size needed => s!"Fixed VHD is {size} bytes, expected at least {needed}"
  | noHeaderOffset => "Dynamic VHD has no dynamic header offset"
  | shortRead what length offset => s!"Short read of {what} ({length} bytes at offset {offset})"
  | rangeCut missing start stop =>
    s!"File ended {missing} bytes before the end of range {start}..{stop}"
  | stated message => message

def PrecisionFault.text : PrecisionFault → String
  | tooLarge field value => s!"{field} value {hexText 1 value} exceeds 2^53 - 1"
  | absent field => s!"{field} holds the all-ones sentinel"
  | locatorOffset value => s!"Parent locator data offset {hexText 1 value} exceeds 2^53 - 1"
  | stated message => message

def ChecksumFault.text : ChecksumFault → String
  | mismatch what path => s!"VHD {what} checksum mismatch in '{path.text}'"
  | stated message => message

def SupportFault.text : SupportFault → String
  | diskType type => s!"VHD disk type {type.code} ({type.name})"
  | stated message => message

def LimitFault.text : LimitFault → String
  | allocation what size limit => s!"{what} size {size} exceeds limit {limit}"
  | product what => s!"{what}: multiplication overflow"
  | machineSize what value => s!"{what}: value {value} exceeds platform usize limit"
  | blockSize bytes limit => s!"Block size {bytes} exceeds limit {limit}"
  | locatorLength code length limit =>
    s!"Parent locator '{Utf8.text code}' data length {length} exceeds limit {limit}"
  | chainDepth limit => s!"Differencing chain deeper than {limit} levels"
  | stated message => message

def StreamFault.text : StreamFault → String
  | failedEarlier => "stream failed earlier"
  | destroyed => "stream was destroyed"
  | stated message => message

def attemptsText (attempts : List Attempt) : String :=
  if attempts.isEmpty then "no candidates" else "; ".intercalate (attempts.map Attempt.text)

def Error.text : Error → String
  | file _ detail => s!"I/O error: {detail}"
  | format fault => s!"Invalid VHD format: {fault.text}"
  | parentNotFound child attempts =>
    s!"Parent of '{child.text}' not found; tried: {attemptsText attempts}"
  | misaligned start last sector =>
    s!"Range {start}..={last} is not aligned to {sector}-byte sectors"
  | sizeMismatch left received =>
    s!"Size mismatch: {left.1} and {left.2} bytes left over"
      ++ s!" after {received.1} and {received.2} bytes received"
  | precision fault => s!"Precision error: {fault.text}"
  | checksum fault => s!"Checksum verification failed: {fault.text}"
  | unsupported fault => s!"Unsupported: {fault.text}"
  | limit fault => s!"Limit exceeded: {fault.text}"
  | unreadable fault => s!"Stream is unreadable: {fault.text}"

/-- An error as a reader of plain bytes reports it. -/
inductive ReaderError where
  | file (fault : FileFault) (detail : String)
  | wrapped (error : Error)
deriving DecidableEq

def Error.toReader : Error → ReaderError
  | file fault detail => .file fault detail
  | error => .wrapped error

def ReaderError.text : ReaderError → String
  | file _ detail => detail
  | wrapped error => error.text

def Error.readerText (e : Error) : String := e.toReader.text

end VirtualDisk
