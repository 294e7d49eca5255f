import VirtualDisk.Limits

namespace VirtualDisk.StoredSize

/-- The pattern that stands for no number. -/
def absent : Nat := 0xFFFFFFFFFFFFFFFF

def checked (value : Nat) (field : String) : Except Error Nat :=
  if Limits.safeNumber < value then .error (.precision (.tooLarge field value)) else .ok value

def optional (value : Nat) (field : String) : Except Error (Option Nat) :=
  if value = absent then .ok none else (checked value field).map some

def required (value : Nat) (field : String) : Except Error Nat :=
  if value = absent then .error (.precision (.absent field)) else checked value field

def stored (value : Option Nat) : Nat := value.getD absent

end VirtualDisk.StoredSize
