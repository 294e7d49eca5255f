import VirtualDisk.SectorMerge
import VirtualDisk.Proofs.Yield

namespace VirtualDisk

section interleave

variable {α γ : Type} (bitmap : ByteArray) (size : Nat)

/-- Sectors from `ys` where their bits are set and from `xs` where they are
clear, `count` of them. -/
def interleave : (bit : UInt64) → (count : Nat) → (xs ys : List α) → List α
  | _, 0, _, _ => []
  | bit, count + 1, xs, ys =>
    (if bitmapBit bitmap bit.toNat then ys else xs).take size
      ++ interleave (bitAfter bit 1) count (xs.drop size) (ys.drop size)

theorem interleave_add (bit : UInt64) (j k : Nat) (xs ys : List α) :
    interleave bitmap size bit (j + k) xs ys
      = interleave bitmap size bit j xs ys
        ++ interleave bitmap size (bitAfter bit j) k (xs.drop (j * size)) (ys.drop (j * size)) := by
  induction j generalizing bit xs ys with
  | zero => simp [interleave]
  | succ j ih =>
    have hj : j + 1 + k = (j + k) + 1 := by omega
    have hb : bitAfter (bitAfter bit 1) j = bitAfter bit (j + 1) := by
      rw [← bitAfter_add, Nat.add_comm]
    have hd : size + j * size = (j + 1) * size := by rw [Nat.succ_mul, Nat.add_comm]
    rw [hj, interleave, interleave, ih, List.append_assoc, hb, List.drop_drop, List.drop_drop, hd]

theorem interleave_append {bit : UInt64} {count : Nat} {xs ys : List α} (xs' ys' : List α)
    (hx : count * size ≤ xs.length) (hy : count * size ≤ ys.length) :
    interleave bitmap size bit count (xs ++ xs') (ys ++ ys')
      = interleave bitmap size bit count xs ys := by
  induction count generalizing bit xs ys with
  | zero => rfl
  | succ count ih =>
    rw [Nat.succ_mul] at hx hy
    have hxs : size ≤ xs.length := by omega
    have hys : size ≤ ys.length := by omega
    rw [interleave, interleave, List.drop_append_of_le_length hxs,
      List.drop_append_of_le_length hys,
      ih (by rw [List.length_drop]; omega) (by rw [List.length_drop]; omega)]
    congr 1
    split
    · exact List.take_append_of_le_length hys
    · exact List.take_append_of_le_length hxs

theorem length_interleave {bit : UInt64} {count : Nat} {xs ys : List α}
    (hx : count * size ≤ xs.length) (hy : count * size ≤ ys.length) :
    (interleave bitmap size bit count xs ys).length = count * size := by
  induction count generalizing bit xs ys with
  | zero => rw [Nat.zero_mul]; rfl
  | succ count ih =>
    rw [Nat.succ_mul] at hx hy ⊢
    have hfirst : ((if bitmapBit bitmap bit.toNat then ys else xs).take size).length = size := by
      rw [List.length_take]
      split <;> omega
    rw [interleave, List.length_append, hfirst, ih (by rw [List.length_drop]; omega)
      (by rw [List.length_drop]; omega), Nat.add_comm]

theorem map_interleave (f : α → γ) (bit : UInt64) (count : Nat) (xs ys : List α) :
    (interleave bitmap size bit count xs ys).map f
      = interleave bitmap size bit count (xs.map f) (ys.map f) := by
  induction count generalizing bit xs ys with
  | zero => rfl
  | succ count ih =>
    rw [interleave, interleave, List.map_append, ih, List.map_drop, List.map_drop, List.map_take]
    congr 2
    split <;> rfl

theorem interleave_span (f g : Nat → α) {bit : UInt64} {count lo hi : Nat} (hs : 0 < size)
    (h : count * size ≤ hi - lo) :
    interleave bitmap size bit count (span f lo hi) (span g lo hi)
      = span (fun o => if bitmapBit bitmap (bitAfter bit ((o - lo) / size)).toNat then g o else f o)
        lo (lo + count * size) := by
  induction count generalizing bit lo with
  | zero =>
    rw [Nat.zero_mul, Nat.add_zero, span_eq_nil (Nat.le_refl lo)]
    rfl
  | succ count ih =>
    rw [Nat.succ_mul] at h ⊢
    have hfirst : (if bitmapBit bitmap bit.toNat then span g lo hi else span f lo hi).take size
        = span (fun o => if bitmapBit bitmap (bitAfter bit ((o - lo) / size)).toNat then g o
          else f o) lo (lo + size) := by
      rw [show (if bitmapBit bitmap bit.toNat then span g lo hi else span f lo hi)
        = span (if bitmapBit bitmap bit.toNat then g else f) lo hi by split <;> rfl, take_span,
        Nat.min_eq_right (by omega)]
      apply span_congr
      intro o h1 h2
      rw [Nat.div_eq_of_lt (by omega), bitAfter_zero]
      split <;> rfl
    have hrest : span (fun o => if bitmapBit bitmap
            (bitAfter (bitAfter bit 1) ((o - (lo + size)) / size)).toNat then g o else f o)
          (lo + size) (lo + size + count * size)
        = span (fun o => if bitmapBit bitmap (bitAfter bit ((o - lo) / size)).toNat then g o
          else f o) (lo + size) (lo + size + count * size) := by
      apply span_congr
      intro o h1 h2
      have hd : (o - lo) / size = (o - (lo + size)) / size + 1 := by
        rw [← Nat.add_div_right _ hs]
        congr 1
        omega
      rw [hd, Nat.add_comm _ 1, bitAfter_add]
    rw [interleave, drop_span, drop_span, ih (by omega), hfirst, hrest,
      span_append (by omega) (by omega)]
    congr 1
    omega

end interleave

/-- How a merge of two sources ends that give `x` and `y`. If both fail, the
error of the side with fewer whole sectors comes first, and that of the base
if they have equally many. -/
def mergeFault (size : Nat) (x y : Total) (received : Nat × Nat) : Option Error :=
  let count := min (x.bytes.length / size) (y.bytes.length / size) * size
  match x.fault, y.fault with
  | none, none =>
    if x.bytes.length = count ∧ y.bytes.length = count then none
    else some (.sizeMismatch (x.bytes.length - count, y.bytes.length - count) received)
  | some e, none => some e
  | none, some f => some f
  | some e, some f =>
    if x.bytes.length / size ≤ y.bytes.length / size then some e else some f

def mergeTotal (bitmap : ByteArray) (size : Nat) (bit : UInt64) (x y : Total)
    (received : Nat × Nat) : Total :=
  ⟨interleave bitmap size bit (min (x.bytes.length / size) (y.bytes.length / size)) x.bytes y.bytes,
    mergeFault size x y received⟩

namespace MergeSide

variable {ε σ : Type}

def rest (source : Source ε σ) (env : ε) (side : MergeSide σ) : Total :=
  if side.ended then ⟨[], none⟩ else source.total env side.source

def total (source : Source ε σ) (env : ε) (side : MergeSide σ) : Total :=
  ⟨octets side.pending ++ (side.rest source env).bytes, (side.rest source env).fault⟩

def receivedInAll (source : Source ε σ) (env : ε) (side : MergeSide σ) : Nat :=
  side.received + (side.rest source env).bytes.length

variable {source : Source ε σ} {env : ε} {side : MergeSide σ} {s : σ}

theorem rest_receive {bytes : ByteArray} (he : side.ended = false)
    (h : source.pull env side.source = (.chunk bytes, s)) :
    (side.receive bytes s).total source env = side.total source env ∧
      (side.receive bytes s).receivedInAll source env = side.receivedInAll source env := by
  have hr : (side.receive bytes s).rest source env = source.total env s := by
    unfold rest receive
    simp only [he, Bool.false_eq_true, if_false]
  have hs : side.rest source env
      = ⟨octets bytes ++ (source.total env s).bytes, (source.total env s).fault⟩ := by
    rw [rest, he, if_neg Bool.false_ne_true, Source.total_of_chunk h]
  constructor
  · rw [total, total, hr, hs]
    simp only [receive, octets_append, List.append_assoc]
  · rw [receivedInAll, receivedInAll, hr, hs]
    simp only [receive, List.length_append, length_octets, Nat.add_assoc]

theorem total_end (he : side.ended = false) (h : source.pull env side.source = (.ended, s)) :
    { side with source := s, ended := true }.total source env = side.total source env ∧
      { side with source := s, ended := true }.receivedInAll source env
        = side.receivedInAll source env := by
  have hs : side.rest source env = ⟨[], none⟩ := by
    rw [rest, he, if_neg Bool.false_ne_true, Source.total_of_ended h]
  have hr : { side with source := s, ended := true }.rest source env = ⟨[], none⟩ := by
    rw [rest, if_pos rfl]
  constructor
  · rw [total, total, hr, hs]
  · rw [receivedInAll, receivedInAll, hr, hs]

theorem total_of_failed {e : Error} (he : side.ended = false)
    (h : source.pull env side.source = (.failed e, s)) :
    side.total source env = ⟨octets side.pending, some e⟩ := by
  rw [total, rest, he, if_neg Bool.false_ne_true, Source.total_of_failed h, List.append_nil]

theorem total_of_ended (he : side.ended = true) :
    side.total source env = ⟨octets side.pending, none⟩ ∧
      side.receivedInAll source env = side.received := by
  have hr : side.rest source env = ⟨[], none⟩ := by rw [rest, if_pos he]
  constructor
  · rw [total, hr, List.append_nil]
  · rw [receivedInAll, hr]
    rfl

theorem total_drain (count : Nat) (hc : count ≤ side.pending.size) :
    (side.drain count).total source env
      = ⟨(side.total source env).bytes.drop count, (side.total source env).fault⟩ ∧
      (side.drain count).receivedInAll source env = side.receivedInAll source env := by
  have hr : (side.drain count).rest source env = side.rest source env := rfl
  constructor
  · rw [total, total, hr]
    simp only [drain, octets_slice]
    rw [List.take_of_length_le (by rw [List.length_drop, length_octets]; omega),
      List.drop_append_of_le_length (by rw [length_octets]; exact hc)]
  · rfl

end MergeSide

theorem mergeFault_drop {size : Nat} (hs : 0 < size) (k : Nat) {x y : Total}
    (hx : k * size ≤ x.bytes.length) (hy : k * size ≤ y.bytes.length) (received : Nat × Nat) :
    mergeFault size ⟨x.bytes.drop (k * size), x.fault⟩ ⟨y.bytes.drop (k * size), y.fault⟩ received
      = mergeFault size x y received := by
  have hdiv (n : Nat) : (n - k * size) / size = n / size - k := by
    rw [Nat.mul_comm, Nat.sub_mul_div]
  have hkx : k ≤ x.bytes.length / size := (Nat.le_div_iff_mul_le hs).mpr hx
  have hky : k ≤ y.bytes.length / size := (Nat.le_div_iff_mul_le hs).mpr hy
  have hmin : min (x.bytes.length / size - k) (y.bytes.length / size - k) * size
      = min (x.bytes.length / size) (y.bytes.length / size) * size - k * size := by
    rw [← Nat.sub_mul]
    congr 1
    omega
  have hle : k * size ≤ min (x.bytes.length / size) (y.bytes.length / size) * size :=
    Nat.mul_le_mul_right _ (by omega)
  unfold mergeFault
  simp only [List.length_drop, hdiv, hmin]
  cases x.fault with
  | none =>
    cases y.fault with
    | none =>
      simp only
      generalize min (x.bytes.length / size) (y.bytes.length / size) * size = count at *
      have hsub (n : Nat) : n - k * size - (count - k * size) = n - count := by omega
      rw [hsub, hsub]
      congr 1
      apply propext
      omega
    | some f => rfl
  | some e =>
    cases y.fault with
    | none => rfl
    | some f =>
      simp only
      congr 1
      apply propext
      omega

theorem mergeFault_eq_none_iff {size : Nat} {x y : Total} {received : Nat × Nat} :
    mergeFault size x y received = none ↔ (x.fault = none ∧ y.fault = none) ∧
      x.bytes.length = min (x.bytes.length / size) (y.bytes.length / size) * size ∧
      y.bytes.length = min (x.bytes.length / size) (y.bytes.length / size) * size := by
  unfold mergeFault
  cases x.fault with
  | none =>
    cases y.fault with
    | none => simp
    | some f => simp
  | some e =>
    cases y.fault with
    | none => simp
    | some f =>
      simp only [reduceCtorEq, false_and, iff_false]
      split <;> exact fun h => nomatch h

/-- The merge of two ranges is the range of the bytes that its bits pick. It
fails if a side fails, and also if the ranges end within a sector. -/
theorem yields_mergeTotal {bitmap : ByteArray} {size lo hi : Nat} {bit : UInt64} {x y : Total}
    {f g : Nat → Option UInt8} {ok ok' : Prop} {received : Nat × Nat} (hs : 0 < size)
    (hx : x.Yields (span f lo hi) ok) (hy : y.Yields (span g lo hi) ok') :
    (mergeTotal bitmap size bit x y received).Yields
      (span (fun o => if bitmapBit bitmap (bitAfter bit ((o - lo) / size)).toNat then g o else f o)
        lo hi) (ok ∧ ok' ∧ (hi - lo) % size = 0) := by
  obtain ⟨restx, hrx⟩ := hx.front
  obtain ⟨resty, hry⟩ := hy.front
  have hlx : x.bytes.length ≤ hi - lo := length_span f lo hi ▸ hx.length_le
  have hfullx (h : x.fault = none) : x.bytes.length = hi - lo :=
    length_span f lo hi ▸ hx.length_eq h
  have hfully (h : y.fault = none) : y.bytes.length = hi - lo :=
    length_span g lo hi ▸ hy.length_eq h
  have hcx : min (x.bytes.length / size) (y.bytes.length / size) * size ≤ x.bytes.length :=
    Nat.le_trans (Nat.mul_le_mul_right _ (Nat.min_le_left _ _)) (Nat.div_mul_le_self _ _)
  have hcy : min (x.bytes.length / size) (y.bytes.length / size) * size ≤ y.bytes.length :=
    Nat.le_trans (Nat.mul_le_mul_right _ (Nat.min_le_right _ _)) (Nat.div_mul_le_self _ _)
  have hbytes : (mergeTotal bitmap size bit x y received).bytes.map some
      = span (fun o => if bitmapBit bitmap (bitAfter bit ((o - lo) / size)).toNat then g o else f o)
        lo (lo + min (x.bytes.length / size) (y.bytes.length / size) * size) := by
    rw [mergeTotal, map_interleave, ← interleave_append _ _ restx resty
      (by rw [List.length_map]; exact hcx) (by rw [List.length_map]; exact hcy), hrx, hry]
    exact interleave_span _ _ _ _ hs (by omega)
  have hfault := @mergeFault_eq_none_iff size x y received
  constructor
  · rw [hbytes]
    exact span_prefix (by omega)
  · intro h
    obtain ⟨⟨hfx, -⟩, hlen, -⟩ := hfault.mp h
    rw [hbytes, ← hlen, hfullx hfx]
    by_cases hle : lo ≤ hi
    · rw [Nat.add_sub_cancel' hle]
    · rw [span_eq_nil (by omega), span_eq_nil (by omega)]
  · rw [show (mergeTotal bitmap size bit x y received).fault
      = mergeFault size x y received from rfl,
      hfault]
    constructor
    · rintro ⟨⟨hfx, hfy⟩, hlen, -⟩
      refine ⟨hx.fault_iff.mp hfx, hy.fault_iff.mp hfy, ?_⟩
      rw [← hfullx hfx, hlen]
      exact Nat.mul_mod_left _ _
    · rintro ⟨hox, hoy, hmod⟩
      have hfx := hx.fault_iff.mpr hox
      have hfy := hy.fault_iff.mpr hoy
      have hcount : (hi - lo) / size * size = hi - lo :=
        Nat.div_mul_cancel (Nat.dvd_of_mod_eq_zero hmod)
      rw [hfullx hfx, hfully hfy, Nat.min_self, hcount]
      exact ⟨⟨hfx, hfy⟩, rfl, rfl⟩

theorem mergeTotal_of_fault_left {bitmap : ByteArray} {size : Nat} {bit : UInt64} {x y : Total}
    {e : Error}
    {received : Nat × Nat} (hx : x.fault = some e)
    (h : x.bytes.length / size = 0 ∨ y.bytes.length / size = 0 ∧ y.fault = none) :
    mergeTotal bitmap size bit x y received = ⟨[], some e⟩ := by
  have hmin : min (x.bytes.length / size) (y.bytes.length / size) = 0 := by
    obtain h | h := h
    · rw [h, Nat.zero_min]
    · rw [h.1, Nat.min_zero]
  rw [mergeTotal, mergeFault, hmin, hx]
  cases hy : y.fault with
  | none => rfl
  | some f =>
    obtain h | h := h
    · simp only [h, Nat.zero_le, if_true]
      rfl
    · rw [hy] at h
      exact nomatch h.2

theorem mergeTotal_of_fault_right {bitmap : ByteArray} {size : Nat} {bit : UInt64} {x y : Total}
    {f : Error}
    {received : Nat × Nat} (hy : y.fault = some f)
    (h : y.bytes.length / size = 0 ∧ 0 < x.bytes.length / size ∨
      x.fault = none ∧ (x.bytes.length / size = 0 ∨ y.bytes.length / size = 0)) :
    mergeTotal bitmap size bit x y received = ⟨[], some f⟩ := by
  have hmin : min (x.bytes.length / size) (y.bytes.length / size) = 0 := by
    obtain h | ⟨-, h | h⟩ := h
    · rw [h.1, Nat.min_zero]
    · rw [h, Nat.zero_min]
    · rw [h, Nat.min_zero]
  rw [mergeTotal, mergeFault, hmin, hy]
  cases hx : x.fault with
  | none => rfl
  | some e =>
    obtain h | h := h
    · simp only [h.1, Nat.not_le.mpr h.2, if_false]
      rfl
    · rw [hx] at h
      exact nomatch h.1

namespace SectorMerge

variable {ε β ω : Type}

/-- What a merge that is not finished is to give. -/
def outcome (base : Source ε β) (own : Source ε ω) (env : ε) (m : SectorMerge β ω) : Total :=
  mergeTotal m.bitmap m.sectorSize m.bit (m.base.total base env) (m.own.total own env)
    (m.base.receivedInAll base env, m.own.receivedInAll own env)

theorem octets_sectors (m : SectorMerge β ω) (count : Nat) :
    octets (m.sectors count) = interleave m.bitmap m.sectorSize m.bit count
      (octets m.base.pending) (octets m.own.pending) := by
  induction count with
  | zero => rfl
  | succ count ih =>
    rw [sectors, List.range_succ, List.foldl_append, interleave_add]
    simp only [List.foldl_cons, List.foldl_nil, octets_append]
    rw [show (List.range count).foldl (fun out k => out ++ m.sector k) ByteArray.empty
      = m.sectors count from rfl, ih]
    congr 1
    simp only [interleave, List.append_nil, sector]
    split <;> exact octets_slice _ _ _

theorem ready_mul_le_own (m : SectorMerge β ω) : m.ready * m.sectorSize ≤ m.own.pending.size :=
  Nat.le_trans (Nat.mul_le_mul_right _ (Nat.min_le_right _ _)) (Nat.div_mul_le_self _ _)

theorem size_sectors (m : SectorMerge β ω) :
    (m.sectors m.ready).size = m.ready * m.sectorSize := by
  have hb := m.ready_mul_le
  have ho := m.ready_mul_le_own
  rw [← length_octets] at hb ho
  rw [← length_octets, octets_sectors, length_interleave _ _ hb ho]

variable {base : Source ε β} {own : Source ε ω} {env : ε} {m : SectorMerge β ω}

theorem outcome_drain (hs : 0 < m.sectorSize) :
    m.outcome base own env = ⟨octets (m.sectors m.ready)
      ++ ((m.drain m.ready).outcome base own env).bytes,
      ((m.drain m.ready).outcome base own env).fault⟩ := by
  have hb : m.ready * m.sectorSize ≤ m.base.pending.size := m.ready_mul_le
  have ho : m.ready * m.sectorSize ≤ m.own.pending.size := m.ready_mul_le_own
  obtain ⟨hbt, hbr⟩ := @MergeSide.total_drain _ _ base env _ _ hb
  obtain ⟨hot, hor⟩ := @MergeSide.total_drain _ _ own env _ _ ho
  have hx : m.ready * m.sectorSize ≤ (m.base.total base env).bytes.length := by
    simp only [MergeSide.total, List.length_append, length_octets]
    omega
  have hy : m.ready * m.sectorSize ≤ (m.own.total own env).bytes.length := by
    simp only [MergeSide.total, List.length_append, length_octets]
    omega
  have hdrain : (m.drain m.ready).outcome base own env
      = mergeTotal m.bitmap m.sectorSize (bitAfter m.bit m.ready)
        ⟨(m.base.total base env).bytes.drop (m.ready * m.sectorSize), (m.base.total base env).fault⟩
        ⟨(m.own.total own env).bytes.drop (m.ready * m.sectorSize), (m.own.total own env).fault⟩
        (m.base.receivedInAll base env, m.own.receivedInAll own env) := by
    rw [← hbt, ← hot, ← hbr, ← hor]
    rfl
  have hfront : octets (m.sectors m.ready) = interleave m.bitmap m.sectorSize m.bit m.ready
      (m.base.total base env).bytes (m.own.total own env).bytes := by
    rw [octets_sectors, MergeSide.total, MergeSide.total]
    simp only
    rw [interleave_append _ _ _ _ (by rw [length_octets]; exact hb)
      (by rw [length_octets]; exact ho)]
  have hdiv (n : Nat) : (n - m.ready * m.sectorSize) / m.sectorSize
      = n / m.sectorSize - m.ready := by
    rw [Nat.mul_comm, Nat.sub_mul_div]
  have hkx := (Nat.le_div_iff_mul_le hs).mpr hx
  have hky := (Nat.le_div_iff_mul_le hs).mpr hy
  rw [hdrain, hfront, outcome, mergeTotal, mergeTotal, mergeFault_drop hs _ hx hy]
  simp only [List.length_drop, hdiv]
  rw [← interleave_add]
  congr 2
  omega

theorem pull_base (hf : m.finished = false) (hr : ¬0 < m.ready)
    (he : ¬(m.base.ended = true ∧ m.own.ended = true)) (hw : m.wantsBase = true) :
    pull base own env m = match base.pull env m.base.source with
      | (.chunk bytes, s) => pull base own env { m with base := m.base.receive bytes s }
      | (.failed e, s) => (.failed e, { m with base.source := s, finished := true })
      | (.ended, s) => pull base own env { m with base.source := s, base.ended := true } := by
  rw [pull, if_neg (by rw [hf]; exact Bool.false_ne_true), if_neg hr, if_neg he, if_pos hw]
  split <;> rename_i h <;> rw [h]

theorem pull_own (hf : m.finished = false) (hr : ¬0 < m.ready)
    (he : ¬(m.base.ended = true ∧ m.own.ended = true)) (hw : ¬m.wantsBase = true) :
    pull base own env m = match own.pull env m.own.source with
      | (.chunk bytes, s) => pull base own env { m with own := m.own.receive bytes s }
      | (.failed e, s) => (.failed e, { m with own.source := s, finished := true })
      | (.ended, s) => pull base own env { m with own.source := s, own.ended := true } := by
  rw [pull, if_neg (by rw [hf]; exact Bool.false_ne_true), if_neg hr, if_neg he, if_neg hw]
  split <;> rename_i h <;> rw [h]

theorem short_of_not_ready (hr : ¬0 < m.ready) :
    m.base.pending.size / m.sectorSize = 0 ∨ m.own.pending.size / m.sectorSize = 0 := by
  unfold ready at hr
  generalize m.base.pending.size / m.sectorSize = p at *
  generalize m.own.pending.size / m.sectorSize = q at *
  omega

theorem outcome_of_base_failed {e : Error} {s : β} (hs : 0 < m.sectorSize) (hr : ¬0 < m.ready)
    (hw : m.wantsBase = true) (h : base.pull env m.base.source = (.failed e, s)) :
    m.outcome base own env = ⟨[], some e⟩ := by
  have hx := MergeSide.total_of_failed (ended_of_wantsBase hw) h
  rw [outcome, hx]
  apply mergeTotal_of_fault_left rfl
  simp only [length_octets]
  by_cases hp : m.base.pending.size / m.sectorSize = 0
  · exact .inl hp
  · have hq : m.own.pending.size / m.sectorSize = 0 := (short_of_not_ready hr).resolve_left hp
    have hbase : ¬m.base.pending.size < m.sectorSize := fun hlt => hp (Nat.div_eq_of_lt hlt)
    have hown : m.own.pending.size < m.sectorSize := (Nat.div_eq_zero_iff_lt hs).mp hq
    have he : m.own.ended = true := by
      simpa [wantsBase, isShort, hbase, hown, ended_of_wantsBase hw] using hw
    have hy := (@MergeSide.total_of_ended _ _ own env _ he).1
    rw [hy]
    exact .inr ⟨by rw [length_octets]; exact hq, rfl⟩

theorem outcome_of_own_failed {f : Error} {s : ω} (hs : 0 < m.sectorSize) (hr : ¬0 < m.ready)
    (he : ¬(m.base.ended = true ∧ m.own.ended = true)) (hw : ¬m.wantsBase = true)
    (h : own.pull env m.own.source = (.failed f, s)) :
    m.outcome base own env = ⟨[], some f⟩ := by
  have hy := MergeSide.total_of_failed (ended_of_not_wantsBase hw he) h
  rw [outcome, hy]
  apply mergeTotal_of_fault_right rfl
  simp only [length_octets]
  by_cases hb : m.base.ended = true
  · have hx := (@MergeSide.total_of_ended _ _ base env _ hb).1
    rw [hx]
    simp only [length_octets]
    exact .inr ⟨trivial, short_of_not_ready hr⟩
  · -- The base is live and not short, so the own side is short.
    have hshort : m.sectorSize ≤ m.base.pending.size ∧ m.own.pending.size < m.sectorSize := by
      simpa [wantsBase, isShort, hb, ended_of_not_wantsBase hw he] using hw
    refine .inl ⟨Nat.div_eq_of_lt hshort.2, Nat.div_pos ?_ hs⟩
    simp only [MergeSide.total, List.length_append, length_octets]
    omega

theorem outcome_of_ended (hr : ¬0 < m.ready) (hb : m.base.ended = true)
    (ho : m.own.ended = true) :
    m.outcome base own env = ⟨[],
      if m.base.pending.size = 0 ∧ m.own.pending.size = 0 then none
      else some (.sizeMismatch (m.base.pending.size, m.own.pending.size) m.received)⟩ := by
  obtain ⟨hx, hrx⟩ := @MergeSide.total_of_ended _ _ base env _ hb
  obtain ⟨hy, hry⟩ := @MergeSide.total_of_ended _ _ own env _ ho
  have hmin : min (m.base.pending.size / m.sectorSize) (m.own.pending.size / m.sectorSize) = 0 := by
    have := short_of_not_ready hr
    generalize m.base.pending.size / m.sectorSize = p at *
    generalize m.own.pending.size / m.sectorSize = q at *
    omega
  rw [outcome, mergeTotal, mergeFault, hx, hy, hrx, hry]
  simp only [length_octets, hmin, Nat.zero_mul, Nat.sub_zero]
  rfl

def effort (base : Source ε β) (own : Source ε ω) (m : SectorMerge β ω) : Nat :=
  2 * m.work base own + m.base.pending.size

theorem effort_drain (hs : 0 < m.sectorSize) (hr : 0 < m.ready) :
    (m.drain m.ready).effort base own < m.effort base own := by
  have hw : (m.drain m.ready).work base own = m.work base own := rfl
  have hpos := Nat.mul_pos hr hs
  have hle := m.ready_mul_le
  rw [effort, effort, hw]
  simp only [drain, MergeSide.drain, size_slice]
  omega

variable {s : β} {t : ω}

theorem base_receive {bytes : ByteArray} (hw : m.wantsBase = true)
    (h : base.pull env m.base.source = (.chunk bytes, s)) :
    { m with base := m.base.receive bytes s }.outcome base own env = m.outcome base own env ∧
      { m with base := m.base.receive bytes s }.effort base own < m.effort base own := by
  obtain ⟨ht, hrec⟩ := MergeSide.rest_receive (ended_of_wantsBase hw) h
  constructor
  · rw [outcome, outcome, ht, hrec]
  · have hcost := base.budget_of_pull h
    simp only [effort, work, MergeSide.receive, ByteArray.size_append, Pulled.cost] at *
    omega

theorem base_end (hw : m.wantsBase = true) (h : base.pull env m.base.source = (.ended, s)) :
    { m with base.source := s, base.ended := true }.outcome base own env = m.outcome base own env ∧
      { m with base.source := s, base.ended := true }.effort base own < m.effort base own := by
  obtain ⟨ht, hrec⟩ := MergeSide.total_end (ended_of_wantsBase hw) h
  constructor
  · rw [outcome, outcome, ht, hrec]
  · have hcost := base.budget_of_pull h
    have hlive := ended_of_wantsBase hw
    simp only [effort, work, hlive, Pulled.cost, Bool.not_true, Bool.not_false, Bool.toNat_true,
      Bool.toNat_false] at *
    omega

theorem own_receive {bytes : ByteArray} (he : ¬(m.base.ended = true ∧ m.own.ended = true))
    (hw : ¬m.wantsBase = true) (h : own.pull env m.own.source = (.chunk bytes, t)) :
    { m with own := m.own.receive bytes t }.outcome base own env = m.outcome base own env ∧
      { m with own := m.own.receive bytes t }.effort base own < m.effort base own := by
  obtain ⟨ht, hrec⟩ := MergeSide.rest_receive (ended_of_not_wantsBase hw he) h
  constructor
  · rw [outcome, outcome, ht, hrec]
  · have hcost := own.budget_of_pull h
    have hpos := Pulled.cost_pos bytes
    simp only [effort, work, MergeSide.receive] at *
    omega

theorem own_end (he : ¬(m.base.ended = true ∧ m.own.ended = true)) (hw : ¬m.wantsBase = true)
    (h : own.pull env m.own.source = (.ended, t)) :
    { m with own.source := t, own.ended := true }.outcome base own env = m.outcome base own env ∧
      { m with own.source := t, own.ended := true }.effort base own < m.effort base own := by
  obtain ⟨ht, hrec⟩ := MergeSide.total_end (ended_of_not_wantsBase hw he) h
  constructor
  · rw [outcome, outcome, ht, hrec]
  · have hcost := own.budget_of_pull h
    have hlive := ended_of_not_wantsBase hw he
    simp only [effort, work, hlive, Pulled.cost, Bool.not_true, Bool.not_false, Bool.toNat_true,
      Bool.toNat_false] at *
    omega

theorem total_of_both_ended (hf : m.finished = false) (hr : ¬0 < m.ready)
    (he : m.base.ended = true ∧ m.own.ended = true) :
    (SectorMerge.source base own).total env m = m.outcome base own env := by
  have hpull : (SectorMerge.source base own).pull env m = pull base own env m := rfl
  rw [outcome_of_ended hr he.1 he.2]
  by_cases hz : m.base.pending.size = 0 ∧ m.own.pending.size = 0
  · have hp : pull base own env m = (.ended, { m with finished := true }) := by
      rw [pull, if_neg (by rw [hf]; exact Bool.false_ne_true), if_neg hr, if_pos he,
        if_pos (by simpa [ByteArray.isEmpty] using hz)]
    rw [Source.total_of_ended (hpull.trans hp), if_pos hz]
  · have hp : pull base own env m = (.failed (.sizeMismatch
        (m.base.pending.size, m.own.pending.size) m.received), { m with finished := true }) := by
      rw [pull, if_neg (by rw [hf]; exact Bool.false_ne_true), if_neg hr, if_pos he,
        if_neg (by simpa [ByteArray.isEmpty] using hz)]
    rw [Source.total_of_failed (hpull.trans hp), if_neg hz]

/-- A merge gives what its two sides together make. -/
theorem total_eq_outcome (hs : 0 < m.sectorSize) (hf : m.finished = false) :
    (SectorMerge.source base own).total env m = m.outcome base own env := by
  induction hn : m.effort base own using Nat.strongRecOn generalizing m with
  | ind n ih =>
    subst hn
    have hpull : (SectorMerge.source base own).pull env m = pull base own env m := rfl
    by_cases hr : 0 < m.ready
    · have hp : pull base own env m = (.chunk (m.sectors m.ready), m.drain m.ready) := by
        rw [pull, if_neg (by rw [hf]; exact Bool.false_ne_true), if_pos hr]
      rw [Source.total_of_chunk (hpull.trans hp), outcome_drain hs,
        @ih _ (effort_drain hs hr) (m.drain m.ready) hs hf rfl]
    -- From here on no sector is ready, so a chunk, an error or the end is pulled from one side.
    by_cases he : m.base.ended = true ∧ m.own.ended = true
    · exact total_of_both_ended hf hr he
    by_cases hw : m.wantsBase = true
    · have hp := hpull.trans (pull_base hf hr he hw)
      rcases h : base.pull env m.base.source with ⟨pulled, s⟩
      rw [h] at hp
      cases pulled with
      | chunk bytes =>
        obtain ⟨ho, hlt⟩ := @base_receive _ _ _ base own env m _ _ hw h
        rw [Source.total_congr hp, @ih _ hlt { m with base := m.base.receive bytes s } hs hf
          rfl, ho]
      | failed e => rw [Source.total_of_failed hp, outcome_of_base_failed hs hr hw h]
      | ended =>
        obtain ⟨ho, hlt⟩ := @base_end _ _ _ base own env m _ hw h
        rw [Source.total_congr hp,
          @ih _ hlt { m with base.source := s, base.ended := true } hs hf rfl, ho]
    · have hp := hpull.trans (pull_own hf hr he hw)
      rcases h : own.pull env m.own.source with ⟨pulled, s⟩
      rw [h] at hp
      cases pulled with
      | chunk bytes =>
        obtain ⟨ho, hlt⟩ := @own_receive _ _ _ base own env m _ _ he hw h
        rw [Source.total_congr hp, @ih _ hlt { m with own := m.own.receive bytes s } hs hf rfl, ho]
      | failed e => rw [Source.total_of_failed hp, outcome_of_own_failed hs hr he hw h]
      | ended =>
        obtain ⟨ho, hlt⟩ := @own_end _ _ _ base own env m _ he hw h
        rw [Source.total_congr hp,
          @ih _ hlt { m with own.source := s, own.ended := true } hs hf rfl, ho]

theorem total_ofSources {bitmap : ByteArray} {size bit : Nat} (hs : 0 < size) (b : β) (o : ω) :
    (SectorMerge.source base own).total env (.ofSources b o bitmap bit size)
      = mergeTotal bitmap size (UInt64.ofNat bit) (base.total env b) (own.total env o)
        ((base.total env b).bytes.length, (own.total env o).bytes.length) := by
  rw [total_eq_outcome (m := .ofSources b o bitmap bit size) hs rfl, outcome]
  exact congrArg (mergeTotal bitmap size (UInt64.ofNat bit) (base.total env b) (own.total env o))
    (Prod.ext (Nat.zero_add _) (Nat.zero_add _))

theorem yields_ofSources {bitmap : ByteArray} {size bit lo hi : Nat} {b : β} {o : ω}
    {f g : Nat → Option UInt8} {ok ok' : Prop} (hs : 0 < size)
    (hbits : bit + (hi - lo) / size < UInt64.size)
    (hb : base.Yields env b (span f lo hi) ok) (ho : own.Yields env o (span g lo hi) ok') :
    (SectorMerge.source base own).Yields env (.ofSources b o bitmap bit size)
      (span (fun o => if bitmapBit bitmap (bit + (o - lo) / size) then g o else f o) lo hi)
      (ok ∧ ok' ∧ (hi - lo) % size = 0) := by
  have hplace (o : Nat) (h1 : lo ≤ o) (h2 : o < hi) :
      (bitAfter (UInt64.ofNat bit) ((o - lo) / size)).toNat = bit + (o - lo) / size := by
    have hle : (o - lo) / size ≤ (hi - lo) / size := Nat.div_le_div_right (by omega)
    have hbit : (UInt64.ofNat bit).toNat = bit :=
      UInt64.toNat_ofNat_of_lt' (Nat.lt_of_le_of_lt (Nat.le_add_right _ _) hbits)
    have hlt : (UInt64.ofNat bit).toNat + (o - lo) / size < UInt64.size := by omega
    rw [toNat_bitAfter hlt, hbit]
  rw [Source.Yields, total_ofSources hs, ← span_congr fun o h1 h2 =>
    congrArg (fun k => if bitmapBit bitmap k then g o else f o) (hplace o h1 h2)]
  exact yields_mergeTotal hs hb ho

end SectorMerge

end VirtualDisk
