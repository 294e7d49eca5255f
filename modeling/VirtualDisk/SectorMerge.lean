import VirtualDisk.Bytes
import VirtualDisk.Source

namespace VirtualDisk

/-- A bit of a bitmap, the highest bit of each byte first. Bits past the end
are clear. -/
def bitmapBit (bitmap : ByteArray) (bit : Nat) : Bool :=
  if h : bit / 8 < bitmap.size then bitmap[bit / 8].toNat.testBit (7 - bit % 8) else false

/-- The bit that lies so many bits behind another. Bits are counted in a machine word: behind the
last one comes the first. -/
def bitAfter (bit : UInt64) (count : Nat) : UInt64 := bit + UInt64.ofNat count

@[simp] theorem bitAfter_zero (bit : UInt64) : bitAfter bit 0 = bit := UInt64.add_zero bit

theorem bitAfter_add (bit : UInt64) (m n : Nat) :
    bitAfter bit (m + n) = bitAfter (bitAfter bit m) n := by
  rw [bitAfter, bitAfter, bitAfter, UInt64.ofNat_add, UInt64.add_assoc]

theorem toNat_bitAfter {bit : UInt64} {count : Nat} (h : bit.toNat + count < UInt64.size) :
    (bitAfter bit count).toNat = bit.toNat + count := by
  have hcount : count < UInt64.size := Nat.lt_of_le_of_lt (Nat.le_add_left _ _) h
  rw [bitAfter, UInt64.toNat_add, UInt64.toNat_ofNat_of_lt' hcount, Nat.mod_eq_of_lt h]

structure MergeSide (σ : Type) where
  source : σ
  pending : ByteArray
  ended : Bool
  received : Nat

def MergeSide.ofSource {σ : Type} (source : σ) : MergeSide σ := ⟨source, ByteArray.empty, false, 0⟩

def MergeSide.receive {σ : Type} (side : MergeSide σ) (bytes : ByteArray) (source : σ) :
    MergeSide σ :=
  { side with source, pending := side.pending ++ bytes, received := side.received + bytes.size }

def MergeSide.drain {σ : Type} (side : MergeSide σ) (count : Nat) : MergeSide σ :=
  { side with pending := slice side.pending count side.pending.size }

structure SectorMerge (β ω : Type) where
  base : MergeSide β
  own : MergeSide ω
  bitmap : ByteArray
  bit : UInt64
  sectorSize : Nat
  finished : Bool

namespace SectorMerge

variable {ε β ω : Type}

/-- The merge of two sources whose first sectors belong to `bit`, as a machine word. -/
def ofSources (base : β) (own : ω) (bitmap : ByteArray) (bit sectorSize : Nat) :
    SectorMerge β ω :=
  ⟨.ofSource base, .ofSource own, bitmap, UInt64.ofNat bit, sectorSize, false⟩

def received (m : SectorMerge β ω) : Nat × Nat := (m.base.received, m.own.received)

def ready (m : SectorMerge β ω) : Nat :=
  min (m.base.pending.size / m.sectorSize) (m.own.pending.size / m.sectorSize)

/-- The sector `k` of those pending, from the side to which its bit assigns it. -/
def sector (m : SectorMerge β ω) (k : Nat) : ByteArray :=
  slice (if bitmapBit m.bitmap (bitAfter m.bit k).toNat then m.own.pending else m.base.pending)
    (k * m.sectorSize) m.sectorSize

def sectors (m : SectorMerge β ω) (count : Nat) : ByteArray :=
  (List.range count).foldl (fun out k => out ++ m.sector k) ByteArray.empty

def drain (m : SectorMerge β ω) (count : Nat) : SectorMerge β ω :=
  { m with
    base := m.base.drain (count * m.sectorSize)
    own := m.own.drain (count * m.sectorSize)
    bit := bitAfter m.bit count }

/-- Whether less than a sector is pending on a side that has more to come. -/
def isShort {σ : Type} (m : SectorMerge β ω) (side : MergeSide σ) : Bool :=
  !side.ended && decide (side.pending.size < m.sectorSize)

/-- Whether the next chunk is to come from the base: if the base is short, or
has more to come and the own side is not short. -/
def wantsBase (m : SectorMerge β ω) : Bool :=
  !m.base.ended && (m.isShort m.base || !m.isShort m.own)

theorem ended_of_wantsBase {m : SectorMerge β ω} (h : m.wantsBase = true) :
    m.base.ended = false := by
  simp only [wantsBase, Bool.and_eq_true, Bool.not_eq_true'] at h
  exact h.1

theorem ended_of_not_wantsBase {m : SectorMerge β ω} (h : ¬m.wantsBase = true)
    (hm : ¬(m.base.ended = true ∧ m.own.ended = true)) : m.own.ended = false := by
  cases hb : m.base.ended <;> cases ho : m.own.ended <;> simp_all [wantsBase, isShort]

def work (base : Source ε β) (own : Source ε ω) (m : SectorMerge β ω) : Nat :=
  base.budget m.base.source + own.budget m.own.source
    + (!m.base.ended).toNat + (!m.own.ended).toNat

/-- Pulls chunks from the two sides until sectors can be given, an error comes,
or both sides have ended. Then bytes may only be left over if there are none. -/
def pull (base : Source ε β) (own : Source ε ω) (env : ε) (m : SectorMerge β ω) :
    Pulled × SectorMerge β ω :=
  if m.finished then (.ended, m)
  else if 0 < m.ready then (.chunk (m.sectors m.ready), m.drain m.ready)
  else if m.base.ended ∧ m.own.ended then
    if m.base.pending.isEmpty ∧ m.own.pending.isEmpty then (.ended, { m with finished := true })
    else
      (.failed (.sizeMismatch (m.base.pending.size, m.own.pending.size) m.received),
        { m with finished := true })
  else if m.wantsBase then
    match _h : base.pull env m.base.source with
    | (.chunk bytes, s) => pull base own env { m with base := m.base.receive bytes s }
    | (.failed e, s) => (.failed e, { m with base.source := s, finished := true })
    | (.ended, s) => pull base own env { m with base.source := s, base.ended := true }
  else
    match _h : own.pull env m.own.source with
    | (.chunk bytes, s) => pull base own env { m with own := m.own.receive bytes s }
    | (.failed e, s) => (.failed e, { m with own.source := s, finished := true })
    | (.ended, s) => pull base own env { m with own.source := s, own.ended := true }
termination_by m.work base own
decreasing_by
  · have hb := base.budget_of_pull _h
    have hc := Pulled.cost_pos bytes
    simp only [work, MergeSide.receive]
    omega
  · have hb := base.budget_of_pull _h
    rename_i hw
    simp only [work, ended_of_wantsBase hw, Bool.not_true, Bool.not_false, Bool.toNat_true,
      Bool.toNat_false]
    omega
  · have hb := own.budget_of_pull _h
    have hc := Pulled.cost_pos bytes
    simp only [work, MergeSide.receive]
    omega
  · have hb := own.budget_of_pull _h
    rename_i hm hw
    simp only [work, ended_of_not_wantsBase hw hm, Bool.not_true, Bool.not_false, Bool.toNat_true,
      Bool.toNat_false]
    omega

theorem size_sectors_le (m : SectorMerge β ω) (count : Nat) :
    (m.sectors count).size ≤ count * m.sectorSize := by
  induction count with
  | zero => simp [sectors]
  | succ count ih =>
    have hs : (m.sector count).size ≤ m.sectorSize := by
      simp only [sector, size_slice]; omega
    simp only [sectors, List.range_succ, List.foldl_append, List.foldl_cons, List.foldl_nil,
      ByteArray.size_append] at ih ⊢
    rw [Nat.succ_mul]
    omega

theorem ready_mul_le (m : SectorMerge β ω) : m.ready * m.sectorSize ≤ m.base.pending.size :=
  Nat.le_trans (Nat.mul_le_mul_right _ (Nat.min_le_left _ _)) (Nat.div_mul_le_self _ _)

theorem sectorSize_pos_of_ready {m : SectorMerge β ω} (h : 0 < m.ready) : 0 < m.sectorSize := by
  apply Nat.pos_of_ne_zero
  intro e
  simp [ready, e] at h

/-- Merges as sources. What the base has given or still has bounds the bytes
that a merge can give. -/
def source (base : Source ε β) (own : Source ε ω) : Source ε (SectorMerge β ω) where
  pull := pull base own
  budget m := m.base.pending.size + base.budget m.base.source
  budget_pull env m := by
    fun_induction pull base own env m with
    | case1 => simp [Pulled.cost]
    | case2 m _ h =>
      have h1 := m.size_sectors_le m.ready
      have h2 := m.ready_mul_le
      have h3 := Nat.mul_pos h (sectorSize_pos_of_ready h)
      simp only [Pulled.cost, drain, MergeSide.drain, size_slice]
      omega
    | case3 => simp [Pulled.cost]
    | case4 => simp [Pulled.cost]
    | case5 m _ _ _ _ bytes s h ih =>
      have := base.budget_of_pull h
      simp only [MergeSide.receive, ByteArray.size_append, Pulled.cost] at this ih ⊢
      omega
    | case6 m _ _ _ _ e s h =>
      have := base.budget_of_pull h
      simp only [Pulled.cost] at this ⊢
      omega
    | case7 m _ _ _ _ s h ih =>
      have := base.budget_of_pull h
      simp only [Pulled.cost] at this ih ⊢
      omega
    | case8 m _ _ _ _ bytes s h ih => exact ih
    | case9 m _ _ _ _ e s h => simp [Pulled.cost]
    | case10 m _ _ _ _ s h ih => exact ih

end SectorMerge

end VirtualDisk
