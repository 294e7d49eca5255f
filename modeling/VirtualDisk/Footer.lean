import VirtualDisk.Checksum
import VirtualDisk.Geometry
import VirtualDisk.Instant
import VirtualDisk.StoredSize

namespace VirtualDisk

/-- A footer: what it says of the image, and its sector with any conversion. -/
structure Footer where
  features : UInt32
  dataOffset : Option Nat
  timestamp : UInt32
  creator : Vector UInt8 4
  creatorVersion : UInt32
  creatorSystem : UInt32
  initialSize : Nat
  currentSize : Nat
  geometry : Geometry
  diskType : DiskType
  /-- The type that the sector names now. -/
  convertedType : DiskType
  checksum : UInt32
  uniqueId : UniqueId
  savedState : UInt8
  raw : Vector UInt8 512

namespace Footer

def size : Nat := 512

def cookie : Vector UInt8 8 := #v[0x63, 0x6F, 0x6E, 0x65, 0x63, 0x74, 0x69, 0x78]

def version : UInt32 := 0x00010000

def checksumPosition : Nat := 64

def ofSector (raw : Vector UInt8 512) : Except Error Footer :=
  let found := field raw 0 8
  let foundVersion := UInt32.ofNat (number raw 12 4)
  let code := number raw 60 4
  if found ≠ cookie then .error (.format (.footerCookie found.toList))
  else if foundVersion ≠ version then .error (.format (.footerVersion foundVersion))
  else match DiskType.ofCode? code with
    | none => .error (.format (.diskType code))
    | some diskType => do
      let dataOffset ← StoredSize.optional (number raw 16 8) "footer data offset"
      let initialSize ← StoredSize.required (number raw 40 8) "footer original size"
      let currentSize ← StoredSize.required (number raw 48 8) "footer current size"
      return {
        features := UInt32.ofNat (number raw 8 4)
        dataOffset
        timestamp := UInt32.ofNat (number raw 24 4)
        creator := field raw 28 4
        creatorVersion := UInt32.ofNat (number raw 32 4)
        creatorSystem := UInt32.ofNat (number raw 36 4)
        initialSize
        currentSize
        geometry := Geometry.ofBytes (field raw 56 4)
        diskType
        convertedType := diskType
        checksum := UInt32.ofNat (number raw 64 4)
        uniqueId := ⟨field raw 68 16⟩
        savedState := raw[84]
        raw }

def parse (bytes : ByteArray) : Except Error Footer :=
  if h : size ≤ bytes.size then ofSector (vectorAt bytes 0 512 (by simpa [size] using h))
  else .error (.format .footerTooShort)

def bytes (f : Footer) : ByteArray := packed f.raw

def computedChecksum (f : Footer) : UInt32 := VirtualDisk.checksum f.raw checksumPosition

def isIntact (f : Footer) : Bool :=
  f.computedChecksum == UInt32.ofNat (number f.raw 64 4)

def withChecksum (f : Footer) : Footer :=
  { f with
    checksum := f.computedChecksum
    raw := overwrite f.raw checksumPosition (numberBytes 4 f.computedChecksum.toNat) }

/-- The footer of a fixed disk with the same contents. Its sector names the
fixed type and no header, and carries the tag of its creator if one is given.
A footer of a fixed disk stays as it is. -/
def toFixed (f : Footer) (creator : Option (Vector UInt8 4)) : Footer :=
  if f.convertedType = .fixed then f
  else
    let typed := overwrite f.raw 60 (numberBytes 4 DiskType.fixed.code)
    let unlinked := overwrite typed 16 (numberBytes 8 StoredSize.absent)
    let tagged := match creator with
      | some tag => overwrite unlinked 28 tag
      | none => unlinked
    withChecksum { f with convertedType := .fixed, raw := tagged }

/-- Bytes of the flattened disk: its contents and one footer. -/
def flattenedLength (f : Footer) : Nat := f.currentSize + size

def created (f : Footer) : Instant := Instant.ofTimestamp f.timestamp

def creatorText (f : Footer) : String := Utf8.text f.creator.toList

end Footer

end VirtualDisk
