import VirtualDisk.DiskType

namespace VirtualDisk

/-- What one level knows about the blocks of its chain. -/
structure Coverage where
  full : Option (List Nat)
  inParent : Option (Array Bool)
deriving DecidableEq

/-- What a level knows about its parent when its coverage is computed. -/
inductive ParentCoverage where
  | orphan
  | fixed
  | sparse (full : Option (List Nat))

namespace Coverage

def unknown : Coverage := ⟨none, none⟩

def flags (length : Nat) (full : List Nat) : Array Bool :=
  let span := match full.getLast? with
    | some last => max length (last + 1)
    | none => length
  full.foldl (fun flags i => flags.setIfInBounds i true) (Array.replicate span false)

/-- The numbers of two lists in ascending order, each once. -/
def union (a b : List Nat) : List Nat :=
  ((a ++ b).mergeSort fun x y => decide (x ≤ y)).eraseReps

def compute (indices : List Nat) (length : Nat) : ParentCoverage → Coverage
  | .orphan => ⟨some indices, none⟩
  | .fixed => unknown
  | .sparse none => unknown
  | .sparse (some full) => ⟨some (union indices full), some (flags length full)⟩

/-- Whether an ancestor may store a block. Where nothing is known it may. -/
def mayBeInParent (c : Coverage) (index : Nat) : Bool :=
  match c.inParent with
  | some flags => flags[index]?.getD false
  | none => true

def asParent (c : Coverage) (type : DiskType) : ParentCoverage :=
  if type = .fixed then .fixed else .sparse c.full

end Coverage

end VirtualDisk
