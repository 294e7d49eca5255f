import VirtualDisk.Limits
import VirtualDisk.Source
import VirtualDisk.Window

namespace VirtualDisk

structure BufferSize where
  bytes : Nat
  bytes_pos : 0 < bytes

/-- A size that is asked for; zero asks for the default. -/
def BufferSize.ofNat (n : Nat) : BufferSize :=
  if h : 0 < n then ⟨n, h⟩ else ⟨defaultBufferSize, by decide⟩

/-- A range of a file on its way out. It fails once, when the file ends inside
of the range, and then gives nothing more. -/
structure FileRange where
  window : Window
  buffer : BufferSize
  done : Bool

namespace FileRange

def ofRange (start length : Nat) (buffer : BufferSize) : FileRange :=
  ⟨Window.ofRange start length, buffer, false⟩

def remaining (r : FileRange) : Nat := r.window.remaining

def want (r : FileRange) : Nat := min r.buffer.bytes r.remaining

/-- The next chunk of the range, from what the file contains now. A chunk that
the file cuts short is not given. -/
def pull (contents : ByteArray) (r : FileRange) : Pulled × FileRange :=
  if r.done ∨ r.remaining = 0 then (.ended, r)
  else
    let got := r.window.read r.want ⟨contents, 0⟩
    let rest := { r with window := got.2.1 }
    if got.1.size = r.want then (.chunk got.1, rest)
    else
      let stop := r.window.start + r.window.length
      (.failed (.format (.rangeCut rest.remaining r.window.start stop)),
        { rest with done := true })

def source : Source ByteArray FileRange where
  pull := pull
  budget := remaining
  budget_pull contents r := by
    have hs := r.window.size_read_le r.want ⟨contents, 0⟩
    have hl := r.window.remaining_read r.want ⟨contents, 0⟩
    have hb := r.buffer.bytes_pos
    unfold pull
    generalize r.window.read r.want ⟨contents, 0⟩ = got at *
    split
    · simp [Pulled.cost]
    · next h =>
      have hr : r.remaining ≠ 0 := fun e => h (.inr e)
      simp only
      split <;> simp only [Pulled.cost, remaining, want] at * <;> omega

end FileRange

structure ZeroRun where
  remaining : Nat
  buffer : BufferSize

namespace ZeroRun

def pull (z : ZeroRun) : Pulled × ZeroRun :=
  if z.remaining = 0 then (.ended, z)
  else
    let count := min z.buffer.bytes z.remaining
    (.chunk (zeros count), { z with remaining := z.remaining - count })

def source {ε : Type} : Source ε ZeroRun where
  pull _ := pull
  budget := remaining
  budget_pull _ z := by
    unfold pull
    have hb := z.buffer.bytes_pos
    split
    · simp [Pulled.cost]
    · simp only [Pulled.cost, size_zeros]; omega

end ZeroRun

end VirtualDisk
