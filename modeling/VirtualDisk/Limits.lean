import VirtualDisk.Error

namespace VirtualDisk

/-- Bytes of a sector, the unit of alignment and of the block bitmaps. -/
def sectorSize : Nat := 512

def defaultBufferSize : Nat := 65536

namespace Limits

/-- The largest number that a 64-bit field may hold: 53 bits, all ones. -/
def safeNumber : Nat := 0x1FFFFFFFFFFFFF

def allocation : Nat := 0x10000000

def blockSize : Nat := 0x10000000

def locatorLength : Nat := 65536

/-- How many levels may lie above the last one of a chain. -/
def chainDepth : Nat := 64

def machineWord : Nat := 0x10000000000000000

def checkAllocation (size limit : Nat) (what : String) : Except Error Nat :=
  if limit < size then .error (.limit (.allocation what size limit)) else .ok size

def checkProduct (a b : Nat) (what : String) : Except Error Nat :=
  if a * b < machineWord then .ok (a * b) else .error (.limit (.product what))

def checkMachineSize (value : Nat) (what : String) : Except Error Nat :=
  if value < machineWord then .ok value else .error (.limit (.machineSize what value))

/-- Succeeds if a level at this depth may be opened; the topmost level has
depth zero. -/
def checkChainDepth (depth : Nat) : Except Error Unit :=
  if chainDepth < depth then .error (.limit (.chainDepth chainDepth)) else .ok ()

end Limits

/-- The size of the blocks of a sparse image: a power of two, at least one
sector and within the limit. -/
structure BlockSize where
  bytes : Nat
  isPowerOfTwo : bytes.isPowerOfTwo
  sectorSize_le : sectorSize ≤ bytes
  le_limit : bytes ≤ Limits.blockSize

namespace BlockSize

def ofNat (n : Nat) : Except Error BlockSize :=
  if power : n.isPowerOfTwo then
    if least : sectorSize ≤ n then
      if most : n ≤ Limits.blockSize then .ok ⟨n, power, least, most⟩
      else .error (.limit (.blockSize n Limits.blockSize))
    else .error (.format (.blockSizeBelowSector n))
  else .error (.format (.blockSizeNotPowerOfTwo n))

theorem bytes_pos (s : BlockSize) : 0 < s.bytes :=
  Nat.lt_of_lt_of_le (by decide) s.sectorSize_le

end BlockSize

end VirtualDisk
