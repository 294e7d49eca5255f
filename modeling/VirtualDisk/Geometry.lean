import VirtualDisk.Bytes

namespace VirtualDisk

structure Geometry where
  cylinders : UInt16
  heads : UInt8
  sectors : UInt8
deriving DecidableEq

namespace Geometry

def ofBytes (v : Vector UInt8 4) : Geometry :=
  ⟨UInt16.ofNat (number v 0 2), v[2], v[3]⟩

def toBytes (g : Geometry) : Vector UInt8 4 :=
  #v[UInt8.ofNat (g.cylinders.toNat / 256), UInt8.ofNat g.cylinders.toNat, g.heads, g.sectors]

end Geometry

end VirtualDisk
