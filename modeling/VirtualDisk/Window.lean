import VirtualDisk.Handle

namespace VirtualDisk

/-- The `length` bytes from `start` on, of which `position` are read. -/
structure Window where
  start : Nat
  length : Nat
  position : Nat
deriving DecidableEq

namespace Window

def ofRange (start length : Nat) : Window := ⟨start, length, 0⟩

def remaining (w : Window) : Nat := w.length - w.position

/-- Reads `count` bytes, or as many as the window and the file still have. -/
def read (w : Window) (count : Nat) (h : Handle) : ByteArray × Window × Handle :=
  if w.remaining = 0 ∨ count = 0 then (ByteArray.empty, w, h)
  else
    let (bytes, next) := (h.seek (w.start + w.position)).read (min count w.remaining)
    (bytes, { w with position := w.position + bytes.size }, next)

theorem size_read_le (w : Window) (count : Nat) (h : Handle) :
    (w.read count h).1.size ≤ min count w.remaining := by
  unfold read
  split
  · simp
  · simp only [Handle.read, size_slice]; omega

theorem remaining_read (w : Window) (count : Nat) (h : Handle) :
    (w.read count h).2.1.remaining = w.remaining - (w.read count h).1.size := by
  unfold read
  split
  · simp
  · simp only [remaining]; omega

end Window

end VirtualDisk
