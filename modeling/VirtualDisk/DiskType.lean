namespace VirtualDisk

inductive DiskType where
  | unspecified
  | reserved1
  | fixed
  | dynamic
  | differencing
  | reserved5
  | reserved6
deriving DecidableEq

namespace DiskType

def code : DiskType → Nat
  | unspecified => 0
  | reserved1 => 1
  | fixed => 2
  | dynamic => 3
  | differencing => 4
  | reserved5 => 5
  | reserved6 => 6

def ofCode? : Nat → Option DiskType
  | 0 => some unspecified
  | 1 => some reserved1
  | 2 => some fixed
  | 3 => some dynamic
  | 4 => some differencing
  | 5 => some reserved5
  | 6 => some reserved6
  | _ => none

theorem ofCode?_eq_some_iff {n : Nat} {t : DiskType} : ofCode? n = some t ↔ t.code = n := by
  constructor
  · intro h
    unfold ofCode? at h
    split at h <;> first | (cases h; rfl) | contradiction
  · rintro rfl
    cases t <;> rfl

def name : DiskType → String
  | unspecified => "None"
  | fixed => "Fixed"
  | dynamic => "Dynamic"
  | differencing => "Differencing"
  | reserved1 | reserved5 | reserved6 => "Reserved"

/-- The types that store only some blocks, found through a header and a table. -/
def isSparse : DiskType → Bool
  | dynamic | differencing => true
  | _ => false

def description : DiskType → String
  | fixed => "Microsoft VHD (Fixed)"
  | dynamic => "Microsoft VHD (Dynamic)"
  | differencing => "Microsoft VHD (Differencing)"
  | _ => "Microsoft VHD"

end DiskType

end VirtualDisk
