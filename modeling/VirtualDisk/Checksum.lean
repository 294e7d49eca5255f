import VirtualDisk.Bytes

namespace VirtualDisk

def byteSum (bytes : List UInt8) : Nat :=
  bytes.foldl (fun sum b => sum + b.toNat) 0

/-- The bytes outside of the checksum at `pos`. -/
def outside {n : Nat} (v : Vector UInt8 n) (pos : Nat) : List UInt8 :=
  v.toList.take pos ++ v.toList.drop (pos + 4)

def checksum {n : Nat} (v : Vector UInt8 n) (pos : Nat) : UInt32 :=
  ~~~ UInt32.ofNat (byteSum (outside v pos))

end VirtualDisk
