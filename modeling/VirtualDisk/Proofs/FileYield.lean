import VirtualDisk.FileRange
import VirtualDisk.Proofs.Yield

namespace VirtualDisk

def byteAt (contents : ByteArray) (offset : Nat) : Option UInt8 := (octets contents)[offset]?

theorem map_some_octets_slice (contents : ByteArray) (start count : Nat) :
    (octets (slice contents start count)).map some
      = span (byteAt contents) start (min (start + count) contents.size) := by
  rw [octets_slice, map_some_take_drop, length_octets]
  rfl

namespace FileRange

def place (r : FileRange) : Nat := r.window.start + r.window.position

theorem pull_of_le {contents : ByteArray} {r : FileRange} (hd : r.done = false)
    (hr : 0 < r.remaining) (h : r.place + r.want ≤ contents.size) :
    ∃ rest : FileRange, r.pull contents = (.chunk (slice contents r.place r.want), rest) ∧
      rest.done = false ∧ rest.place = r.place + r.want ∧
      rest.remaining = r.remaining - r.want := by
  have hb := r.buffer.bytes_pos
  have hw : r.want ≠ 0 := by unfold want; omega
  have hm : min r.want r.window.remaining = r.want := by unfold want remaining; omega
  have hsize : (slice contents r.place r.want).size = r.want := by
    rw [size_slice]
    omega
  have hread : r.window.read r.want ⟨contents, 0⟩ = (slice contents r.place r.want,
      { r.window with position := r.window.position + r.want },
      ⟨contents, r.place + r.want⟩) := by
    have hn : ¬(r.window.remaining = 0 ∨ r.want = 0) := by
      rintro (h0 | h0)
      · exact Nat.ne_of_gt hr h0
      · exact hw h0
    rw [Window.read, if_neg hn]
    simp only [Handle.seek, Handle.read, hm]
    rw [show r.window.start + r.window.position = r.place from rfl, hsize]
  have hn : ¬(r.done = true ∨ r.remaining = 0) := by
    rintro (h0 | h0)
    · rw [hd] at h0
      cases h0
    · omega
  refine ⟨{ r with window := { r.window with position := r.window.position + r.want } },
    ?_, hd, ?_, ?_⟩
  · rw [pull, if_neg hn]
    simp only [hread, hsize, if_true]
  · simp only [place]
    omega
  · simp only [remaining, Window.remaining]
    omega

theorem pull_of_lt {contents : ByteArray} {r : FileRange} (hd : r.done = false)
    (hr : 0 < r.remaining) (h : contents.size < r.place + r.want) :
    ∃ e rest, r.pull contents = (.failed e, rest) := by
  have hsize : (r.window.read r.want ⟨contents, 0⟩).1.size ≠ r.want := by
    unfold Window.read
    have hw : r.want ≤ r.window.remaining := Nat.min_le_right _ _
    split
    · next h0 =>
      have : r.window.remaining ≠ 0 := Nat.ne_of_gt hr
      have := r.buffer.bytes_pos
      unfold want remaining at *
      rw [ByteArray.size_empty]
      omega
    · simp only [Handle.seek, Handle.read, size_slice]
      unfold place at h
      omega
  have hn : ¬(r.done = true ∨ r.remaining = 0) := by
    rintro (h0 | h0)
    · rw [hd] at h0
      cases h0
    · omega
  refine ⟨.format (.rangeCut (r.window.read r.want ⟨contents, 0⟩).2.1.remaining
    r.window.start (r.window.start + r.window.length)),
    { r with window := (r.window.read r.want ⟨contents, 0⟩).2.1, done := true }, ?_⟩
  rw [pull, if_neg hn]
  simp only [hsize, if_false]
  rfl

theorem stays_ended : FileRange.source.StaysEnded := by
  intro contents r rest h
  have hr : r.done ∨ r.remaining = 0 := by
    apply Decidable.byContradiction
    intro hn
    have hp : r.pull contents = (.ended, rest) := h
    rw [pull, if_neg hn] at hp
    simp only at hp
    split at hp <;> cases hp
  have hp : FileRange.source.pull contents r = (.ended, r) := by
    change r.pull contents = _
    rw [pull, if_pos hr]
  rw [hp] at h
  cases h
  exact hp

/-- A range of a file gives the bytes of the file, and fails just if the file
ends before the range does. -/
theorem yields {contents : ByteArray} {r : FileRange} (hd : r.done = false) :
    FileRange.source.Yields contents r
      (span (byteAt contents) r.place (r.place + r.remaining))
      (r.remaining = 0 ∨ r.place + r.remaining ≤ contents.size) := by
  induction hn : r.remaining using Nat.strongRecOn generalizing r with
  | ind n ih =>
    by_cases hr : r.remaining = 0
    · have hp : FileRange.source.pull contents r = (.ended, r) := by
        change r.pull contents = _
        rw [pull, if_pos (.inr hr)]
      rw [Source.Yields, Source.total_of_ended hp, span_eq_nil (by omega)]
      exact Total.yields_nil (.inl (by omega))
    · have hb := r.buffer.bytes_pos
      have hw : 0 < r.want ∧ r.want ≤ r.remaining := by unfold want; omega
      by_cases hc : r.place + r.want ≤ contents.size
      · obtain ⟨rest, hp, hd', hplace, hleft⟩ := pull_of_le hd (by omega) hc
        have hrest := ih rest.remaining (by omega) hd' rfl
        have hfront : (octets (slice contents r.place r.want)).map some
            = span (byteAt contents) r.place (r.place + r.want) := by
          rw [map_some_octets_slice]
          congr 1
          omega
        have hsplit : (octets (slice contents r.place r.want)).map some
            ++ span (byteAt contents) rest.place (rest.place + rest.remaining)
            = span (byteAt contents) r.place (r.place + n) := by
          rw [hfront, hplace, span_append (by omega) (by omega)]
          congr 1
          omega
        have ht := Source.total_of_chunk (s := FileRange.source) hp
        rw [Source.Yields, ht, ← hsplit]
        apply (hrest.prepend _).congr
        omega
      · have hcut : contents.size < r.place + r.want := by omega
        obtain ⟨e, rest, hp⟩ := pull_of_lt hd (by omega) hcut
        rw [Source.Yields, Source.total_of_failed (s := FileRange.source) hp]
        apply Total.yields_of_not
        omega

theorem yields_ofRange (contents : ByteArray) (start length : Nat) (buffer : BufferSize) :
    FileRange.source.Yields contents (.ofRange start length buffer)
      (span (byteAt contents) start (start + length))
      (length = 0 ∨ start + length ≤ contents.size) :=
  yields rfl

end FileRange

namespace ZeroRun

variable {ε : Type}

theorem stays_ended : (ZeroRun.source (ε := ε)).StaysEnded := by
  intro env z rest h
  have hz : z.pull = (.ended, rest) := h
  unfold pull at hz
  split at hz
  · cases hz
    exact h
  · cases hz

theorem yields (env : ε) (z : ZeroRun) :
    ZeroRun.source.Yields env z (List.replicate z.remaining (some 0)) True := by
  induction hn : z.remaining using Nat.strongRecOn generalizing z with
  | ind n ih =>
    by_cases hz : z.remaining = 0
    · have hp : ZeroRun.source.pull env z = (.ended, z) := by
        change z.pull = _
        rw [pull, if_pos hz]
      rw [Source.Yields, Source.total_of_ended hp, show n = 0 by omega]
      exact Total.yields_nil trivial
    · have hb := z.buffer.bytes_pos
      have hp : ZeroRun.source.pull env z = (.chunk (zeros (min z.buffer.bytes z.remaining)),
          { z with remaining := z.remaining - min z.buffer.bytes z.remaining }) := by
        change z.pull = _
        rw [pull, if_neg hz]
      have hrest := ih (z.remaining - min z.buffer.bytes z.remaining) (by omega)
        { z with remaining := z.remaining - min z.buffer.bytes z.remaining } rfl
      have hsplit : (octets (zeros (min z.buffer.bytes z.remaining))).map some
          ++ List.replicate (z.remaining - min z.buffer.bytes z.remaining) (some 0)
          = List.replicate n (some 0) := by
        rw [octets_zeros, List.map_replicate, List.replicate_append_replicate]
        congr 1
        omega
      rw [Source.Yields, Source.total_of_chunk hp, ← hsplit]
      exact hrest.prepend _

end ZeroRun

end VirtualDisk
