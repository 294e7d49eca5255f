import VirtualDisk.Proofs.Chunking
import VirtualDisk.Proofs.FileYield

namespace VirtualDisk

section slice

variable {contents : ByteArray} {start : Nat}

theorem eq_empty_of_size {b : ByteArray} (h : b.size = 0) : b = ByteArray.empty :=
  octets_injective ((octets_eq_nil_iff.mpr h).trans octets_empty.symm)

theorem slice_zero (contents : ByteArray) (start : Nat) :
    slice contents start 0 = ByteArray.empty :=
  eq_empty_of_size (by rw [size_slice, Nat.zero_min])

theorem slice_add (contents : ByteArray) (start m n : Nat) :
    slice contents start (m + n) = slice contents start m ++ slice contents (start + m) n := by
  apply octets_injective
  rw [octets_append, octets_slice, octets_slice, octets_slice, List.take_add, List.drop_drop]

theorem slice_size (contents : ByteArray) (start count : Nat) :
    slice contents start (slice contents start count).size = slice contents start count := by
  apply octets_injective
  rw [octets_slice, octets_slice, List.take_eq_take_iff, size_slice, List.length_drop,
    length_octets]
  omega

theorem slice_append_slice {count want : Nat} (h : count ≤ want) :
    slice contents start count ++ slice contents (start + (slice contents start count).size)
      (want - (slice contents start count).size) = slice contents start want := by
  have hsize := size_slice contents start count
  have hsplit := slice_add contents start (slice contents start count).size
    (want - (slice contents start count).size)
  rw [slice_size, Nat.add_sub_cancel' (by omega)] at hsplit
  exact hsplit.symm

end slice

namespace Window

variable {contents bytes : ByteArray} {w last : Window} {want count : Nat}

def advance (w : Window) (count : Nat) : Window := { w with position := w.position + count }

theorem advance_advance (w : Window) (m n : Nat) :
    (w.advance m).advance n = w.advance (m + n) := by
  simp only [advance, Nat.add_assoc]

def place (w : Window) : Nat := w.start + w.position

theorem place_advance (w : Window) (count : Nat) :
    (w.advance count).place = w.place + count := (Nat.add_assoc ..).symm

theorem read_of_le (h : count ≤ w.remaining) (file : Handle) :
    (w.read count file).1 = slice file.contents w.place count ∧
      (w.read count file).2.1
        = w.advance (slice file.contents w.place count).size := by
  unfold read
  split
  · next hnone =>
    have hcount : count = 0 := by omega
    rw [hcount, slice_zero]
    exact ⟨rfl, rfl⟩
  · rw [Nat.min_eq_left h]
    exact ⟨rfl, rfl⟩

/-- The ways to read `want` bytes from a window. Each read brings some of the bytes that are
still wanted, wherever the file stood before it, until they are all there or a read brings none. -/
inductive Fills (contents : ByteArray) : Nat → Window → ByteArray → Window → Prop
  | full {w : Window} : Fills contents 0 w ByteArray.empty w
  | cut {want position : Nat} {w : Window} : 0 < want →
      (w.read want ⟨contents, position⟩).1.size = 0 → Fills contents want w ByteArray.empty w
  | more {want count position : Nat} {w last : Window} {rest : ByteArray} : count ≤ want →
      0 < (w.read count ⟨contents, position⟩).1.size →
      Fills contents (want - (w.read count ⟨contents, position⟩).1.size)
        (w.read count ⟨contents, position⟩).2.1 rest last →
      Fills contents want w ((w.read count ⟨contents, position⟩).1 ++ rest) last

theorem Fills.eq (h : Fills contents want w bytes last) (hw : want ≤ w.remaining) :
    bytes = slice contents w.place want ∧ last = w.advance bytes.size := by
  induction h with
  | full => exact ⟨(slice_zero ..).symm, rfl⟩
  | cut _ hnone =>
    rw [(read_of_le hw _).1] at hnone
    exact ⟨(eq_empty_of_size hnone).symm, rfl⟩
  | @more want count position w last rest hcount _ _ ih =>
    obtain ⟨hbytes, hnext⟩ := read_of_le (Nat.le_trans hcount hw) ⟨contents, position⟩
    have hsize := size_slice contents w.place count
    rw [hbytes, hnext] at ih
    obtain ⟨hrest, rfl⟩ := ih (by unfold remaining advance at *; simp only; omega)
    have hall : (w.read count ⟨contents, position⟩).1 ++ rest = slice contents w.place want := by
      rw [hbytes, hrest, place_advance, slice_append_slice hcount]
    refine ⟨hall, ?_⟩
    rw [ByteArray.size_append, hbytes, advance_advance]

theorem Fills.of_slice {rest : ByteArray} (hw : want ≤ w.remaining)
    (hsome : 0 < (slice contents w.place want).size)
    (hrest : Fills contents (want - (slice contents w.place want).size)
      (w.advance (slice contents w.place want).size) rest last) :
    Fills contents want w (slice contents w.place want ++ rest) last := by
  obtain ⟨hbytes, hnext⟩ := read_of_le hw ⟨contents, 0⟩
  have hmore : 0 < (w.read want ⟨contents, 0⟩).1.size →
      Fills contents (want - (w.read want ⟨contents, 0⟩).1.size)
        (w.read want ⟨contents, 0⟩).2.1 rest last →
      Fills contents want w ((w.read want ⟨contents, 0⟩).1 ++ rest) last :=
    .more (Nat.le_refl want)
  rw [hbytes, hnext] at hmore
  exact hmore hsome hrest

theorem fills_slice (hw : want ≤ w.remaining) :
    Fills contents want w (slice contents w.place want)
      (w.advance (slice contents w.place want).size) := by
  induction want using Nat.strongRecOn generalizing w with
  | ind want ih =>
    have hsize := size_slice contents w.place want
    by_cases hzero : want = 0
    · rw [hzero, slice_zero]
      exact .full
    by_cases hnone : (slice contents w.place want).size = 0
    · have hread := (read_of_le hw ⟨contents, 0⟩).1
      rw [eq_empty_of_size hnone]
      exact .cut (Nat.pos_of_ne_zero hzero) (by rw [hread]; exact hnone)
    · have hrest := ih (want - (slice contents w.place want).size) (by omega)
        (w := w.advance (slice contents w.place want).size)
        (by unfold remaining advance at *; simp only; omega)
      have hwhole := Fills.of_slice hw (Nat.pos_of_ne_zero hnone) hrest
      rwa [advance_advance, ← ByteArray.size_append, place_advance,
        slice_append_slice (Nat.le_refl want)] at hwhole

/-- However a range is read in parts, what comes is what one read brings. -/
theorem fills_iff (hw : want ≤ w.remaining) :
    Fills contents want w bytes last ↔
      bytes = slice contents w.place want ∧ last = w.advance bytes.size := by
  refine ⟨fun h => h.eq hw, ?_⟩
  rintro ⟨rfl, rfl⟩
  exact fills_slice hw

end Window

namespace Source

variable {ε σ : Type} {s : Source ε σ} {env : ε} {a last : σ}

/-- What all pulls bring, from what the first ones bring and what the pull behind them does. -/
theorem nth_eq_of_chunks {chunks : List ByteArray} {fault : Option Error}
    (hchunks : ∀ k (hk : k < chunks.length), s.nth env k a = .chunk chunks[k])
    (hlast : s.pull env (s.behind env chunks.length a) = (fault.elim .ended .failed, last))
    (hend : s.pull env last = (.ended, last)) (n : Nat) :
    s.nth env n a = ((chunks.map .chunk ++ fault.toList.map .failed)[n]?).getD .ended := by
  obtain hn | rfl | hn := Nat.lt_trichotomy n chunks.length
  · rw [List.getElem?_append_left (by rwa [List.length_map]), List.getElem?_map,
      List.getElem?_eq_getElem hn, hchunks n hn]
    rfl
  · rw [nth_eq, hlast, List.getElem?_append_right (Nat.le_of_eq (List.length_map ..)),
      List.length_map, Nat.sub_self]
    cases fault <;> rfl
  · obtain ⟨m, rfl⟩ := Nat.exists_eq_add_of_lt hn
    rw [Nat.add_assoc, Nat.add_comm m, nth_eq, behind_add, behind_add, behind, behind, hlast,
      ← nth_eq, nth_of_ended hend, List.getElem?_eq_none]
    · rfl
    · have hfault : fault.toList.length ≤ 1 := Option.length_toList_le
      rw [List.length_append, List.length_map, List.length_map]
      omega

end Source

theorem BufferSize.bytes_ofNat (size : Nat) :
    (BufferSize.ofNat size).bytes = if size = 0 then 65536 else size := by
  unfold ofNat
  split
  · next hpos => rw [if_neg (Nat.ne_of_gt hpos)]
  · next hzero => rw [if_pos (by omega)]; rfl

namespace FileRange

variable {contents : ByteArray} {r rest : FileRange} {p : Pulled}

/-- One call for the next chunk. It is what the reads bring if that is all of it, and is dropped
if the file ends before. -/
inductive Gives (contents : ByteArray) (r : FileRange) : Pulled → FileRange → Prop
  | ended : r.done ∨ r.remaining = 0 → Gives contents r .ended r
  | chunk {bytes : ByteArray} {last : Window} : ¬(r.done ∨ r.remaining = 0) →
      Window.Fills contents r.want r.window bytes last → bytes.size = r.want →
      Gives contents r (.chunk bytes) { r with window := last }
  | cut {bytes : ByteArray} {last : Window} : ¬(r.done ∨ r.remaining = 0) →
      Window.Fills contents r.want r.window bytes last → bytes.size ≠ r.want →
      Gives contents r
        (.failed (.format (.rangeCut last.remaining last.start (last.start + last.length))))
        { r with window := last, done := true }

theorem want_le_remaining (r : FileRange) : r.want ≤ r.window.remaining := Nat.min_le_right _ _

theorem pull_eq (h : ¬(r.done ∨ r.remaining = 0)) {bytes : ByteArray} {last : Window}
    (hfill : Window.Fills contents r.want r.window bytes last) :
    r.pull contents =
      if bytes.size = r.want then (.chunk bytes, { r with window := last })
      else (.failed (.format (.rangeCut last.remaining last.start (last.start + last.length))),
        { r with window := last, done := true }) := by
  obtain ⟨hbytes, hnext⟩ := Window.read_of_le r.want_le_remaining ⟨contents, 0⟩
  obtain ⟨rfl, rfl⟩ := (Window.fills_iff r.want_le_remaining).mp hfill
  rw [pull, if_neg h]
  simp only [hbytes, hnext]
  rfl

theorem gives_iff : r.Gives contents p rest ↔ r.pull contents = (p, rest) := by
  constructor
  case mp =>
    intro h
    cases h with
    | ended h => rw [pull, if_pos h]
    | chunk h hfill hsize => rw [pull_eq h hfill, if_pos hsize]
    | cut h hfill hsize => rw [pull_eq h hfill, if_neg hsize]
  case mpr =>
    intro hp
    by_cases h : r.done ∨ r.remaining = 0
    · rw [pull, if_pos h] at hp
      cases hp
      exact .ended h
    · have hfill : Window.Fills contents r.want r.window _ _ :=
        (Window.fills_iff r.want_le_remaining).mpr ⟨rfl, rfl⟩
      rw [pull_eq h hfill] at hp
      split at hp
      · next hsize => cases hp; exact .chunk h hfill hsize
      · next hsize => cases hp; exact .cut h hfill hsize

theorem eq_of_pull_ended (h : r.pull contents = (.ended, rest)) : rest = r := by
  cases gives_iff.mpr h with
  | ended => rfl

def available (contents : ByteArray) (start length : Nat) : Nat :=
  min length (contents.size - start)

def reached (start length : Nat) (buffer : BufferSize) (position : Nat) : FileRange :=
  ⟨⟨start, length, position⟩, buffer, false⟩

section reached

variable {start length position : Nat} {buffer : BufferSize}

theorem pull_of_reached_end (h : length ≤ position) :
    (reached start length buffer position).pull contents
      = (.ended, reached start length buffer position) := by
  have hzero : (reached start length buffer position).remaining = 0 := Nat.sub_eq_zero_of_le h
  rw [pull, if_pos (.inr hzero)]

theorem not_ended_of_reached (h : position < length) :
    ¬((reached start length buffer position).done ∨
      (reached start length buffer position).remaining = 0) := by
  rintro (hdone | hzero)
  · cases hdone
  · exact Nat.sub_ne_zero_of_lt h hzero

theorem pull_of_reached (hp : position < length) {bytes : ByteArray}
    (hbytes : bytes = slice contents (start + position) (min buffer.bytes (length - position))) :
    (reached start length buffer position).pull contents =
      if bytes.size = min buffer.bytes (length - position) then
        (.chunk bytes, reached start length buffer (position + bytes.size))
      else
        (.failed (.format (.rangeCut (length - (position + bytes.size)) start (start + length))),
          { reached start length buffer (position + bytes.size) with done := true }) := by
  subst hbytes
  exact pull_eq (not_ended_of_reached hp) (Window.fills_slice (want_le_remaining _))

theorem pull_of_reached_whole (hp : position < length)
    (h : position + min buffer.bytes (length - position) ≤ available contents start length) :
    (reached start length buffer position).pull contents
      = (.chunk (slice contents (start + position) (min buffer.bytes (length - position))),
          reached start length buffer (position + min buffer.bytes (length - position))) := by
  have hpos := buffer.bytes_pos
  have hsize := size_slice contents (start + position) (min buffer.bytes (length - position))
  have hwhole : (slice contents (start + position) (min buffer.bytes (length - position))).size
      = min buffer.bytes (length - position) := by
    unfold available at h
    omega
  rw [pull_of_reached hp rfl, if_pos hwhole, hwhole]

theorem pull_of_reached_cut (hp : position < length)
    (hle : position ≤ available contents start length)
    (h : available contents start length < position + min buffer.bytes (length - position)) :
    (reached start length buffer position).pull contents
      = (.failed (.format (.rangeCut (length - available contents start length) start
            (start + length))),
          { reached start length buffer (available contents start length) with done := true }) := by
  have hsize := size_slice contents (start + position) (min buffer.bytes (length - position))
  have hcut : position + (slice contents (start + position)
      (min buffer.bytes (length - position))).size = available contents start length := by
    unfold available at *
    omega
  rw [pull_of_reached hp rfl, if_neg (by omega), hcut]

theorem succ_mul_min (b n : Nat) (h : n * b < length) :
    n * b + min b (length - n * b) = min ((n + 1) * b) length := by
  rw [Nat.succ_mul]
  omega

theorem behind_eq {n : Nat} (h : min (n * buffer.bytes) length ≤ available contents start length) :
    source.behind contents n (ofRange start length buffer)
      = reached start length buffer (min (n * buffer.bytes) length) := by
  induction n with
  | zero => rw [Nat.zero_mul, Nat.zero_min]; rfl
  | succ n ih =>
    have hmul := Nat.add_one_mul n buffer.bytes
    rw [Source.behind_add, ih (by omega)]
    change (pull contents _).2 = _
    by_cases hn : n * buffer.bytes < length
    · rw [Nat.min_eq_left (Nat.le_of_lt hn), pull_of_reached_whole hn, succ_mul_min _ _ hn]
      rwa [succ_mul_min _ _ hn]
    · rw [pull_of_reached_end (by omega), Nat.min_eq_right (by omega), Nat.min_eq_right (by omega)]

theorem nth_eq_chunk {n : Nat} (hn : n * buffer.bytes < length)
    (h : min ((n + 1) * buffer.bytes) length ≤ available contents start length) :
    source.nth contents n (ofRange start length buffer) = .chunk
      (slice contents (start + n * buffer.bytes)
        (min buffer.bytes (length - n * buffer.bytes))) := by
  have hmul := Nat.add_one_mul n buffer.bytes
  rw [Source.nth_eq, behind_eq (by omega), Nat.min_eq_left (Nat.le_of_lt hn)]
  change (pull contents _).1 = _
  rw [pull_of_reached_whole hn (by rwa [succ_mul_min _ _ hn])]

theorem remaining_behind {n : Nat}
    (h : min (n * buffer.bytes) length ≤ available contents start length) :
    (source.behind contents n (ofRange start length buffer)).remaining
      = length - n * buffer.bytes := by
  rw [behind_eq h]
  change length - min (n * buffer.bytes) length = _
  omega

def chunksOf (contents : ByteArray) (start length b count : Nat) : List ByteArray :=
  (List.range count).map fun k => slice contents (start + k * b) (min b (length - k * b))

theorem length_chunksOf (contents : ByteArray) (start length b count : Nat) :
    (chunksOf contents start length b count).length = count := by
  rw [chunksOf, List.length_map, List.length_range]

theorem getElem_chunksOf {b count k : Nat}
    (hk : k < (chunksOf contents start length b count).length) :
    (chunksOf contents start length b count)[k]
      = slice contents (start + k * b) (min b (length - k * b)) := by
  simp only [chunksOf, List.getElem_map, List.getElem_range]

theorem size_chunk {b k : Nat} (hk : k * b < length)
    (h : min ((k + 1) * b) length ≤ available contents start length) :
    (slice contents (start + k * b) (min b (length - k * b))).size = min b (length - k * b) := by
  have hmul := Nat.add_one_mul k b
  rw [size_slice]
  unfold available at h
  omega

theorem flatMap_chunksOf {b count : Nat} (hb : ∀ k < count, k * b < length) :
    (chunksOf contents start length b count).flatMap octets
      = octets (slice contents start (min (count * b) length)) := by
  induction count with
  | zero => simp [chunksOf, octets_slice]
  | succ count ih =>
    have hlast := hb count (Nat.lt_succ_self count)
    have hfront := ih fun k hk => hb k (Nat.lt_succ_of_lt hk)
    rw [chunksOf, List.range_succ, List.map_append, List.flatMap_append] at *
    rw [hfront, Nat.min_eq_left (Nat.le_of_lt hlast), ← succ_mul_min _ _ hlast]
    simp only [octets_slice, List.map_singleton, List.flatMap_singleton, List.take_add,
      List.drop_drop]

/-- The chunks of a range, each time a smaller rest, and how the range ends. -/
structure Delivers (contents : ByteArray) (r : FileRange) (chunks : List ByteArray)
    (fault : Option Error) (left : Nat) : Prop where
  nth_eq : ∀ n, source.nth contents n r
    = ((chunks.map .chunk ++ fault.toList.map .failed)[n]?).getD .ended
  remaining_add : ∀ k (hk : k < chunks.length),
    (source.behind contents (k + 1) r).remaining + chunks[k].size
      = (source.behind contents k r).remaining
  remaining_eq : ∀ n, chunks.length + fault.toList.length ≤ n →
    (source.behind contents n r).remaining = left

theorem delivers_of_count {count left : Nat} {fault : Option Error} {last : FileRange}
    (hb : ∀ k < count, k * buffer.bytes < length)
    (h : min (count * buffer.bytes) length ≤ available contents start length)
    (hlast : (reached start length buffer (min (count * buffer.bytes) length)).pull contents
      = (fault.elim .ended .failed, last))
    (hend : last.pull contents = (.ended, last)) (hleft : last.remaining = left) :
    Delivers contents (ofRange start length buffer)
      (chunksOf contents start length buffer.bytes count) fault left := by
  have hlen := length_chunksOf contents start length buffer.bytes count
  have hfile : ∀ k < count,
      min ((k + 1) * buffer.bytes) length ≤ available contents start length := by
    intro k hk
    have hmul : (k + 1) * buffer.bytes ≤ count * buffer.bytes := Nat.mul_le_mul_right _ hk
    omega
  have hbehind : source.pull contents (source.behind contents
      (chunksOf contents start length buffer.bytes count).length (ofRange start length buffer))
      = (fault.elim .ended .failed, last) := by
    rw [hlen, behind_eq h]
    exact hlast
  constructor
  case nth_eq =>
    refine Source.nth_eq_of_chunks (fun k hk => ?_) hbehind hend
    rw [hlen] at hk
    rw [getElem_chunksOf, nth_eq_chunk (hb k hk) (hfile k hk)]
  case remaining_add =>
    intro k hk
    rw [hlen] at hk
    have hmul := Nat.add_one_mul k buffer.bytes
    have hthis := hfile k hk
    rw [getElem_chunksOf, size_chunk (hb k hk) hthis, remaining_behind hthis,
      remaining_behind (by omega)]
    have := hb k hk
    omega
  case remaining_eq =>
    intro n hn
    obtain ⟨m, rfl⟩ := Nat.exists_eq_add_of_le hn
    have hstop : source.behind contents ((chunksOf contents start length buffer.bytes count).length
        + fault.toList.length) (ofRange start length buffer) = last := by
      cases fault with
      | none => exact (eq_of_pull_ended hbehind).symm
      | some e => rw [Source.behind_add]; exact congrArg Prod.snd hbehind
    rw [Source.behind_add, hstop, Source.behind_of_ended hend, hleft]

structure Whole (contents : ByteArray) (start length b : Nat) (r : FileRange)
    (chunks : List ByteArray) : Prop where
  delivers : Delivers contents r chunks none 0
  length_eq : chunks.length = (length + b - 1) / b
  size_eq : ∀ k (_ : k + 1 < chunks.length), chunks[k].size = b
  size_le : ∀ c ∈ chunks, 0 < c.size ∧ c.size ≤ b
  bytes_eq : chunks.flatMap octets = octets (slice contents start length)

/-- Of a range that the file cuts off, the chunks come that the file has in whole, and then one
error that tells how much is missing. -/
structure Cut (contents : ByteArray) (start length b : Nat) (r : FileRange)
    (chunks : List ByteArray) : Prop where
  delivers : Delivers contents r chunks
    (some (.format (.rangeCut (length - available contents start length) start (start + length))))
    (length - available contents start length)
  length_eq : chunks.length = available contents start length / b
  size_eq : ∀ c ∈ chunks, c.size = b
  bytes_eq : chunks.flatMap octets
    = octets (slice contents start (available contents start length / b * b))

theorem mem_chunksOf {b count : Nat} {c : ByteArray}
    (hc : c ∈ chunksOf contents start length b count) :
    ∃ k < count, c = slice contents (start + k * b) (min b (length - k * b)) := by
  obtain ⟨k, hk, rfl⟩ := List.mem_map.mp hc
  exact ⟨k, List.mem_range.mp hk, rfl⟩

theorem whole (h : available contents start length = length) :
    Whole contents start length buffer.bytes (ofRange start length buffer)
      (chunksOf contents start length buffer.bytes
        ((length + buffer.bytes - 1) / buffer.bytes)) := by
  have hpos := buffer.bytes_pos
  generalize hcount : (length + buffer.bytes - 1) / buffer.bytes = count
  have hb : ∀ k < count, k * buffer.bytes < length := by
    intro k hk
    rw [← hcount] at hk
    have := (Nat.le_div_iff_mul_le hpos).mp hk
    have := Nat.succ_mul k buffer.bytes
    omega
  have hend : length ≤ count * buffer.bytes := by
    have := Nat.lt_mul_div_succ (length + buffer.bytes - 1) hpos
    rw [hcount, Nat.mul_comm] at this
    have := Nat.add_one_mul count buffer.bytes
    omega
  have hmin := Nat.min_eq_right hend
  have hsize : ∀ k < count, (slice contents (start + k * buffer.bytes)
      (min buffer.bytes (length - k * buffer.bytes))).size
        = min buffer.bytes (length - k * buffer.bytes) := fun k hk =>
    size_chunk (hb k hk) (by omega)
  constructor
  case delivers =>
    have hended : (reached start length buffer length).pull contents
        = (.ended, reached start length buffer length) := pull_of_reached_end (Nat.le_refl length)
    refine delivers_of_count hb (by omega) ?_ hended (Nat.sub_self length)
    rw [hmin]
    exact hended
  case length_eq => rw [length_chunksOf, hcount]
  case size_eq =>
    intro k hk
    rw [length_chunksOf] at hk
    have := hb (k + 1) hk
    have := Nat.add_one_mul k buffer.bytes
    rw [getElem_chunksOf, hsize k (by omega)]
    omega
  case size_le =>
    intro c hc
    obtain ⟨k, hk, rfl⟩ := mem_chunksOf hc
    have := hb k hk
    rw [hsize k hk]
    omega
  case bytes_eq => rw [flatMap_chunksOf hb, hmin]

theorem cut (h : available contents start length < length) :
    Cut contents start length buffer.bytes (ofRange start length buffer)
      (chunksOf contents start length buffer.bytes
        (available contents start length / buffer.bytes)) := by
  have hpos := buffer.bytes_pos
  generalize hcount : available contents start length / buffer.bytes = count
  have hle : count * buffer.bytes ≤ available contents start length := by
    rw [← hcount]
    exact Nat.div_mul_le_self _ _
  have hlt : available contents start length < count * buffer.bytes + buffer.bytes := by
    have := Nat.lt_mul_div_succ (available contents start length) hpos
    rwa [hcount, Nat.mul_comm, Nat.add_one_mul] at this
  have hb : ∀ k < count, (k + 1) * buffer.bytes ≤ available contents start length := fun k hk =>
    Nat.le_trans (Nat.mul_le_mul_right _ hk) hle
  have hb' : ∀ k < count, k * buffer.bytes < length := fun k hk => by
    have := hb k hk
    have := Nat.add_one_mul k buffer.bytes
    omega
  have hmin : min (count * buffer.bytes) length = count * buffer.bytes := by omega
  constructor
  case delivers =>
    have hcut : (reached start length buffer (count * buffer.bytes)).pull contents = _ :=
      pull_of_reached_cut (by omega) hle (by omega)
    rw [← hmin] at hcut
    refine delivers_of_count hb' (by omega) hcut ?_ rfl
    rw [pull, if_pos (.inl rfl)]
  case length_eq => rw [length_chunksOf, hcount]
  case size_eq =>
    intro c hc
    obtain ⟨k, hk, rfl⟩ := mem_chunksOf hc
    have := hb k hk
    have := Nat.add_one_mul k buffer.bytes
    rw [size_chunk (hb' k hk) (by omega)]
    omega
  case bytes_eq => rw [flatMap_chunksOf hb', hmin, hcount]

end reached

/-- A range comes as the file has it if it lies in the file, and else fails once. However the
reads of a call are cut, the call does the same. -/
theorem exact_or_fails_once (contents : ByteArray) (start length size : Nat) :
    (available contents start length = length → ∃ chunks, Whole contents start length
      (if size = 0 then 65536 else size) (ofRange start length (.ofNat size)) chunks) ∧
    (available contents start length < length → ∃ chunks, Cut contents start length
      (if size = 0 then 65536 else size) (ofRange start length (.ofNat size)) chunks) ∧
    ∀ (r : FileRange) p rest, r.Gives contents p rest ↔ r.pull contents = (p, rest) := by
  rw [← BufferSize.bytes_ofNat]
  exact ⟨fun h => ⟨_, whole h⟩, fun h => ⟨_, cut h⟩, fun _ _ _ => gives_iff⟩

end FileRange

end VirtualDisk
