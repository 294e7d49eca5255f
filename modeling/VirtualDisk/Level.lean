import VirtualDisk.BlockTable
import VirtualDisk.Coverage
import VirtualDisk.Files
import VirtualDisk.Footer

namespace VirtualDisk

structure OpenOptions where
  creator : Option (Vector UInt8 4) := some #v[0x76, 0x68, 0x64, 0x66]
  verifyChecksums : Bool := true
  bufferSize : Nat := defaultBufferSize
deriving DecidableEq

structure SparseLayout where
  header : SparseHeader
  table : BlockTable
  coverage : Coverage

structure Level where
  path : Path
  place : Place
  options : OpenOptions
  footer : Footer
  flattenedFooter : Footer
  sparse : Option SparseLayout
  attempts : List Attempt

def lastFooter (contents : ByteArray) : Except Error Footer :=
  if contents.size < Footer.size then .error (.format .fileTooSmall)
  else Footer.parse (slice contents (contents.size - Footer.size) Footer.size)

/-- Succeeds if a checksum matched or does not matter. -/
def OpenOptions.checkIntact (o : OpenOptions) (isIntact : Bool) (what : String) (path : Path) :
    Except Error Unit :=
  if o.verifyChecksums && !isIntact then .error (.checksum (.mismatch what path)) else .ok ()

namespace SparseLayout

/-- The header of a sparse image, with the texts of its locators if the image
needs a parent. -/
def readHeader (options : OpenOptions) (path : Path) (contents : ByteArray) (footer : Footer) :
    Except Error SparseHeader := do
  let some offset := footer.dataOffset | .error (.format .noHeaderOffset)
  let bytes ← readAt contents offset SparseHeader.size "dynamic header"
  let header ← SparseHeader.parse bytes
  options.checkIntact header.isIntact "dynamic header" path
  if footer.diskType = .differencing then
    match header.loadLocators contents with
    | (loaded, none) => return loaded
    | (_, some e) => .error e
  else return header

def read (options : OpenOptions) (path : Path) (contents : ByteArray) (footer : Footer) :
    Except Error SparseLayout := do
  let header ← readHeader options path contents footer
  let table ← BlockTable.read contents header
  return { header, table, coverage := Coverage.compute table.indices table.length .orphan }

end SparseLayout

namespace Level

/-- The layout of an image: none if it is fixed. A fixed image must hold all
of its disk, and types that are neither fixed nor sparse are refused. -/
def readLayout (options : OpenOptions) (path : Path) (contents : ByteArray) (footer : Footer) :
    Except Error (Option SparseLayout) :=
  match footer.diskType with
  | .fixed =>
    if contents.size < footer.flattenedLength then
      .error (.format (.fixedTooShort contents.size footer.flattenedLength))
    else .ok none
  | .dynamic | .differencing => (SparseLayout.read options path contents footer).map some
  | type => .error (.unsupported (.diskType type))

def read (files : Files) (options : OpenOptions) (path : Path) : Except Error Level := do
  let place ← files.openFile path
  let footer ← lastFooter (files.contents place)
  options.checkIntact footer.isIntact "footer" path
  let sparse ← readLayout options path (files.contents place) footer
  return {
    path, place, options, footer, sparse
    flattenedFooter := footer.toFixed options.creator
    attempts := [] }

def isDifferencing (l : Level) : Bool := l.footer.diskType = .differencing

def indices (l : Level) : List Nat :=
  match l.sparse with
  | some s => s.table.indices
  | none => []

def dataOffsets (l : Level) : List Nat :=
  match l.sparse with
  | some s => s.table.dataOffsets
  | none => []

def physical? (l : Level) (offset : Nat) : Option Nat :=
  match l.sparse with
  | some s => s.table.physical? offset
  | none => if offset < l.footer.currentSize then some offset else none

def dataRange? (l : Level) (index : Nat) : Option (Nat × Nat) :=
  l.sparse.bind fun s => s.table.dataRange? index

def coverageForChild (l : Level) : ParentCoverage :=
  match l.sparse with
  | some s => s.coverage.asParent l.footer.diskType
  | none => .fixed

/-- The image above the given parent: its coverage takes in that of the parent. -/
def above (l parent : Level) : Level :=
  { l with sparse := l.sparse.map fun s =>
      { s with coverage :=
          Coverage.compute s.table.indices s.table.length parent.coverageForChild } }

end Level

end VirtualDisk
