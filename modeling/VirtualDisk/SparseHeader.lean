import VirtualDisk.Checksum
import VirtualDisk.ParentLocator
import VirtualDisk.StoredSize

namespace VirtualDisk

structure SparseHeader where
  dataOffset : Option Nat
  tableOffset : Nat
  version : UInt32
  tableLength : Nat
  blockSize : BlockSize
  checksum : UInt32
  parentId : UniqueId
  parentTimestamp : UInt32
  parentName : String
  locators : List ParentLocator
  length_locators : locators.length = 8
  raw : Vector UInt8 1024

namespace SparseHeader

def size : Nat := 1024

def cookie : Vector UInt8 8 := #v[0x63, 0x78, 0x73, 0x70, 0x61, 0x72, 0x73, 0x65]

def checksumPosition : Nat := 36

/-- The name of the parent: the units before the first zero, or all 256. -/
def nameOf (bytes : List UInt8) : String :=
  Utf16.text ((Utf16.unitsHighFirst bytes).takeWhile (· ≠ 0))

def locatorAt (raw : Vector UInt8 1024) (k : Fin 8) : ParentLocator :=
  ParentLocator.ofBytes (field raw (576 + 24 * k.val) 24 (by omega))

def ofBlock (raw : Vector UInt8 1024) : Except Error SparseHeader :=
  let found := field raw 0 8
  if found ≠ cookie then .error (.format (.headerCookie found.toList))
  else do
    let blockSize ← BlockSize.ofNat (number raw 32 4)
    let dataOffset ← StoredSize.optional (number raw 8 8) "dynamic header data offset"
    let tableOffset ← StoredSize.required (number raw 16 8) "dynamic header table offset"
    return {
      dataOffset
      tableOffset
      version := UInt32.ofNat (number raw 24 4)
      tableLength := number raw 28 4
      blockSize
      checksum := UInt32.ofNat (number raw 36 4)
      parentId := ⟨field raw 40 16⟩
      parentTimestamp := UInt32.ofNat (number raw 56 4)
      parentName := nameOf (field raw 64 512).toList
      locators := List.ofFn (locatorAt raw)
      length_locators := List.length_ofFn
      raw }

def parse (bytes : ByteArray) : Except Error SparseHeader :=
  if h : size ≤ bytes.size then ofBlock (vectorAt bytes 0 1024 (by simpa [size] using h))
  else .error (.format .headerTooShort)

def versionMajor (h : SparseHeader) : UInt16 := UInt16.ofNat (number h.raw 24 2)

def versionMinor (h : SparseHeader) : UInt16 := UInt16.ofNat (number h.raw 26 2)

def isIntact (h : SparseHeader) : Bool :=
  VirtualDisk.checksum h.raw checksumPosition == h.checksum

def activeLocators (h : SparseHeader) : List ParentLocator :=
  h.locators.filter fun l => !l.isEmpty

def texts (locators : List ParentLocator) (code : Vector UInt8 4) : List String :=
  (locators.filter fun l => !l.isEmpty && l.code == code).filterMap (·.text)

def loadLocators (contents : ByteArray) (h : SparseHeader) : SparseHeader × Option Error :=
  ({ h with
      locators := (ParentLocator.loadAll contents h.locators).1
      length_locators := by simp [h.length_locators] },
    (ParentLocator.loadAll contents h.locators).2)

end SparseHeader

end VirtualDisk
