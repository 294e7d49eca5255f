import VirtualDisk.ParentSearch

namespace VirtualDisk

/-- An opened chain: the image that was asked for, and its ancestors from the
parent on. -/
structure Disk where
  top : Level
  ancestors : List Level

namespace Disk

def levels (d : Disk) : List Level := d.top :: d.ancestors

def depth (d : Disk) : Nat := d.levels.length

def above (top : Level) (parent : Disk) : Disk := ⟨top.above parent.top, parent.levels⟩

/-- Opens the image at a path and its ancestors, at most `room` images in all. -/
def openWithin (files : Files) (options : OpenOptions) :
    (room : Nat) → Path → Except Error Disk
  | 0, _ => .error (.limit (.chainDepth Limits.chainDepth))
  | room + 1, path => do
    let level ← Level.read files options path
    match level.isDifferencing, level.sparse with
    | true, some layout =>
      let (parentPath, attempts) ← ParentSearch.find files path layout.header
      let parent ← openWithin files options room parentPath
      return above { level with attempts } parent
    | _, _ => return ⟨level, []⟩

def «open» (files : Files) (options : OpenOptions) (path : Path) : Except Error Disk :=
  openWithin files options (Limits.chainDepth + 1) path

def size (d : Disk) : Nat := d.top.footer.currentSize

def flattenedLength (d : Disk) : Nat := d.top.footer.flattenedLength

end Disk

end VirtualDisk
