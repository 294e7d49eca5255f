import VirtualDisk.Bytes
import VirtualDisk.Error

namespace VirtualDisk

/-- An open file: what it contains, and where the next read starts. -/
structure Handle where
  contents : ByteArray
  position : Nat

namespace Handle

def seek (h : Handle) (position : Nat) : Handle := { h with position }

def read (h : Handle) (count : Nat) : ByteArray × Handle :=
  let bytes := slice h.contents h.position count
  (bytes, { h with position := h.position + bytes.size })

def readExact (h : Handle) (offset length : Nat) (what : String) :
    Except Error ByteArray × Handle :=
  let (bytes, next) := (h.seek offset).read length
  if bytes.size = length then (.ok bytes, next)
  else (.error (.format (.shortRead what length offset)), next)

end Handle

def readAt (contents : ByteArray) (offset length : Nat) (what : String) :
    Except Error ByteArray :=
  (Handle.readExact ⟨contents, 0⟩ offset length what).1

theorem readAt_eq (contents : ByteArray) (offset length : Nat) (what : String) :
    readAt contents offset length what =
      if offset + length ≤ contents.size ∨ length = 0 then .ok (slice contents offset length)
      else .error (.format (.shortRead what length offset)) := by
  simp only [readAt, Handle.readExact, Handle.seek, Handle.read, size_slice]
  by_cases h : offset + length ≤ contents.size ∨ length = 0
  · rw [if_pos (by omega), if_pos h]
  · rw [if_neg (by omega), if_neg h]

end VirtualDisk
