import VirtualDisk.Proofs.StreamLedger

namespace VirtualDisk

namespace Word

variable {a b : Nat} {bytes : ByteArray}

def add? (a b : Nat) : Option Nat := if a + b < Limits.machineWord then some (a + b) else none

def mul? (a b : Nat) : Option Nat := if a * b < Limits.machineWord then some (a * b) else none

def sub? (a b : Nat) : Option Nat := if b ≤ a then some (a - b) else none

def slice? (bytes : ByteArray) (lo hi : Nat) : Option ByteArray :=
  if lo ≤ hi ∧ hi ≤ bytes.size then some (slice bytes lo (hi - lo)) else none

/-- The next number, or the last that there is. -/
def increase (n : Nat) : Nat := min (n + 1) (Limits.machineWord - 1)

theorem add?_eq (h : a + b < Limits.machineWord) : add? a b = some (a + b) := if_pos h

theorem mul?_eq (h : a * b < Limits.machineWord) : mul? a b = some (a * b) := if_pos h

theorem sub?_eq (h : b ≤ a) : sub? a b = some (a - b) := if_pos h

theorem slice?_eq {lo hi : Nat} (hle : lo ≤ hi) (hsize : hi ≤ bytes.size) :
    slice? bytes lo hi = some (slice bytes lo (hi - lo)) := if_pos ⟨hle, hsize⟩

theorem lt_of_le_sizes {n : Nat} (h : n ≤ 4 * Limits.safeNumber) : n < Limits.machineWord :=
  Nat.lt_of_le_of_lt h (by decide)

theorem footerEnd_lt {size : Nat} (h : size ≤ Limits.safeNumber) :
    size + Footer.size < Limits.machineWord := by
  have hfooter : Footer.size ≤ Limits.safeNumber := by decide
  exact lt_of_le_sizes (by omega)

theorem min_increase {n total : Nat} (h : total < Limits.machineWord) :
    min (increase n) total = min (n + 1) total := by
  unfold increase
  omega

end Word

namespace BlockTable

variable {t : BlockTable} {offset sector index : Nat}

def blockEnd? (t : BlockTable) (offset : Nat) : Option Nat := do
  let next ← Word.add? (t.blockOf offset) 1
  Word.mul? next t.blockSize

def dataStart? (t : BlockTable) (sector : Nat) : Option Nat := do
  let first ← Word.add? sector t.bitmapSectors
  Word.mul? first sectorSize

theorem sector_lt (h : t.sector? index = some sector) : sector < 4294967296 := by
  unfold sector? at h
  split at h
  · split at h
    · cases h
    · cases h
      exact UInt32.toNat_lt _
  · cases h

theorem Fits.bitmapSectors_le (h : t.Fits) : t.bitmapSectors ≤ 128 := by
  have hsize := h.blockSize_le
  unfold Limits.blockSize at hsize
  unfold bitmapSectors bitmapSize sectorSize
  omega

theorem Fits.blockSize_le_safeNumber (h : t.Fits) : t.blockSize ≤ Limits.safeNumber :=
  Nat.le_trans h.blockSize_le (by decide)

theorem Fits.blockEnd?_eq (h : t.Fits) (hoffset : offset ≤ Limits.safeNumber) :
    t.blockEnd? offset = some (Plan.blockEnd t offset) := by
  have hsize := h.blockSize_le_safeNumber
  have hpos := t.blockSize_pos
  have hblock : t.blockOf offset ≤ offset := Nat.div_le_self _ _
  have hnext : t.blockOf offset + 1 < Limits.machineWord := Word.lt_of_le_sizes (by omega)
  have hend : (t.blockOf offset + 1) * t.blockSize < Limits.machineWord :=
    Word.lt_of_le_sizes (Nat.le_trans (Plan.blockEnd_le t offset) (by omega))
  rw [blockEnd?, Word.add?_eq hnext, Option.bind_eq_bind, Option.bind_some, Word.mul?_eq hend]
  rfl

theorem Fits.data_le (h : t.Fits) (hsector : t.sector? index = some sector) :
    (sector + t.bitmapSectors) * sectorSize ≤ Limits.safeNumber := by
  have hlt := sector_lt hsector
  have hsectors := h.bitmapSectors_le
  unfold sectorSize Limits.safeNumber
  omega

theorem Fits.bitmap_lt (h : t.Fits) (hsector : t.sector? index = some sector) :
    sector * sectorSize < Limits.machineWord := by
  have hle : sector * sectorSize ≤ (sector + t.bitmapSectors) * sectorSize :=
    Nat.mul_le_mul_right _ (Nat.le_add_right _ _)
  have hdata := h.data_le hsector
  exact Word.lt_of_le_sizes (by omega)

theorem Fits.dataStart?_eq (h : t.Fits) (hsector : t.sector? index = some sector) :
    t.dataStart? sector = some ((sector + t.bitmapSectors) * sectorSize) := by
  have hdata := h.data_le hsector
  have hle : sector + t.bitmapSectors ≤ (sector + t.bitmapSectors) * sectorSize :=
    Nat.le_mul_of_pos_right _ (by decide)
  have hfirst : sector + t.bitmapSectors < Limits.machineWord := Word.lt_of_le_sizes (by omega)
  have hproduct : (sector + t.bitmapSectors) * sectorSize < Limits.machineWord :=
    Word.lt_of_le_sizes (by omega)
  rw [dataStart?, Word.add?_eq hfirst, Option.bind_eq_bind, Option.bind_some, Word.mul?_eq hproduct]

end BlockTable

/-- The image can be planned in machine words. -/
structure Level.Fits (level : Level) : Prop where
  size_le : level.footer.currentSize ≤ Limits.safeNumber
  table : ∀ layout, level.sparse = some layout → layout.table.Fits

def BlockSource.Fits {π : Type} : BlockSource π → Prop
  | .own data | .both _ data _ => data ≤ Limits.safeNumber
  | .inherited _ => True

namespace Plan

variable {π : Type}

def blockSource? (layout : SparseLayout) (parent : Option (ParentView π)) (index : Nat) :
    Option (Option (BlockSource π)) :=
  match layout.table.sector? index,
      parent.filter fun _ => layout.coverage.mayBeInParent index with
  | none, none => some none
  | some sector, none => do
    let data ← layout.table.dataStart? sector
    return some (.own data)
  | none, some parent => some (some (.inherited parent))
  | some sector, some parent => do
    let bitmap ← Word.mul? sector sectorSize
    let data ← layout.table.dataStart? sector
    return some (.both bitmap data parent)

def fileRange? (buffer : BufferSize) (start length : Nat) : Option FileRange := do
  let _ ← Word.add? start length
  return .ofRange start length buffer

def ownRange? (table : BlockTable) (buffer : BufferSize) (data lo hi : Nat) : Option FileRange := do
  let start ← Word.add? data (table.withinBlock lo)
  let length ← Word.sub? hi lo
  fileRange? buffer start length

def parentRange? (parent : ParentView π) (buffer : BufferSize) (lo hi : Nat) :
    Option (Inherited π) := do
  let stop := max (min hi parent.size) lo
  let beyond ← Word.sub? hi stop
  return (parent.openAt lo stop buffer, ⟨beyond, buffer⟩)

def blockPiece? (table : BlockTable) (contents : ByteArray) (buffer : BufferSize) (lo hi : Nat) :
    BlockSource π → Option (Except Error (Piece π))
  | .own data => do return .ok (.file (← ownRange? table buffer data lo hi))
  | .inherited parent => do return .ok (.inherited (← parentRange? parent buffer lo hi))
  | .both bitmapOffset data parent =>
    match readAt contents bitmapOffset table.bitmapSize "block bitmap" with
    | .error e => some (.error e)
    | .ok bitmap => do
      let length ← Word.sub? hi lo
      let bit := table.withinBlock lo / sectorSize
      let sectors := (length + (sectorSize - 1)) / sectorSize
      let _ ← Word.add? bit sectors
      match uniformBits bitmap (.ofNat bit) (.ofNat sectors) with
      | some true => return .ok (.file (← ownRange? table buffer data lo hi))
      | some false => return .ok (.inherited (← parentRange? parent buffer lo hi))
      | none =>
        let base ← parentRange? parent buffer lo hi
        let own ← ownRange? table buffer data lo hi
        return .ok (.merge (.ofSources base own bitmap bit sectorSize))

def afterBlocks? (flattened : Footer) (p : Plan) : Option (Option (Piece π) × Plan) :=
  if 0 < p.owed then some (some (.zeros p.owedRun), p.paid)
  else if p.footerDone then some (none, p)
  else if p.footerStart < p.stop then do
    let lo ← Word.sub? p.footerStart p.size
    let hi ← Word.sub? p.stop p.size
    let bytes ← Word.slice? flattened.bytes lo hi
    return (some (.footer (some bytes)), { p with footerDone := true })
  else some (none, { p with footerDone := true })

/-- The next piece and the plan behind it. The part of a block must not be empty, and must
start with a sector. -/
def next? (level : Level) (parent : Option (ParentView π)) (contents : ByteArray) (p : Plan) :
    Option (Except Error (Option (Piece π)) × Plan) :=
  if p.cursor < p.dataEnd then
    match level.sparse with
    | none => do
      let length ← Word.sub? p.dataEnd p.cursor
      let range ← fileRange? p.buffer p.cursor length
      return (.ok (some (.file range)), { p with cursor := p.dataEnd })
    | some layout =>
      let index := layout.table.blockOf p.cursor
      if layout.table.length ≤ index then do
        let rest ← Word.sub? p.dataEnd p.cursor
        let owed ← Word.add? p.owed rest
        let (piece, plan) ← afterBlocks? level.flattenedFooter { p with owed, cursor := p.dataEnd }
        return (.ok piece, plan)
      else do
        let blockEnd ← layout.table.blockEnd? p.cursor
        let hi := min blockEnd p.dataEnd
        if _h : p.cursor < hi ∧ sectorSize ∣ p.cursor then
          match ← blockSource? layout parent index with
          | none =>
            let gap ← Word.sub? hi p.cursor
            let owed ← Word.add? p.owed gap
            next? level parent contents { p with owed, cursor := hi }
          | some source =>
            if 0 < p.owed then return (.ok (some (.zeros p.owedRun)), p.paid)
            else
              let piece ← blockPiece? layout.table contents p.buffer p.cursor hi source
              return (piece.map some, { p with cursor := hi })
        else none
  else do
    let (piece, plan) ← afterBlocks? level.flattenedFooter p
    return (.ok piece, plan)
termination_by p.dataEnd - p.cursor
decreasing_by
  simp only [dataEnd] at *
  omega

/-- What is known of the plan of a stream through a chain that was opened. -/
structure Sound (p : Plan) : Prop where
  size_le : p.size ≤ Limits.safeNumber
  stop_lt : p.stop < Limits.machineWord
  start_le_stop : p.start ≤ p.stop
  endsByFooter : p.EndsByFooter
  dvd_start : sectorSize ∣ p.start
  start_le : p.start ≤ p.cursor
  cursor_le : p.cursor ≤ p.dataEnd
  /-- Only the end of the disk may lie within a sector. -/
  aligned : p.cursor < p.dataEnd → sectorSize ∣ p.cursor
  owed_le : p.owed ≤ p.cursor - p.start

section exact

variable {level : Level} {layout : SparseLayout} {table : BlockTable}
  {parent : Option (ParentView π)} {contents : ByteArray} {buffer : BufferSize} {p : Plan}
  {index data lo hi : Nat}

theorem blockSource?_eq (h : layout.table.Fits) :
    blockSource? layout parent index = some (blockSource layout parent index) := by
  unfold blockSource? blockSource
  cases hs : layout.table.sector? index with
  | none => cases parent.filter fun _ => layout.coverage.mayBeInParent index <;> rfl
  | some sector =>
    cases parent.filter fun _ => layout.coverage.mayBeInParent index with
    | none =>
      simp only [h.dataStart?_eq hs]
      rfl
    | some v =>
      simp only [h.dataStart?_eq hs, Word.mul?_eq (h.bitmap_lt hs)]
      rfl

theorem fits_blockSource {source : BlockSource π} (h : layout.table.Fits)
    (hs : blockSource layout parent index = some source) : source.Fits := by
  unfold blockSource at hs
  split at hs
  · cases hs
  · next hsector _ =>
    cases hs
    exact h.data_le hsector
  · cases hs
    trivial
  · next hsector _ =>
    cases hs
    exact h.data_le hsector

theorem fileRange?_eq {start length : Nat} (h : start + length < Limits.machineWord) :
    fileRange? buffer start length = some (.ofRange start length buffer) := by
  rw [fileRange?, Word.add?_eq h]
  rfl

theorem ownRange?_eq (h : table.Fits) (hdata : data ≤ Limits.safeNumber) (hlo : lo ≤ hi)
    (hhi : hi ≤ Limits.safeNumber) :
    ownRange? table buffer data lo hi = some (ownRange table buffer data lo hi) := by
  have hsize := h.blockSize_le_safeNumber
  have hwithin : table.withinBlock lo < table.blockSize := Nat.mod_lt _ table.blockSize_pos
  have hstart : data + table.withinBlock lo < Limits.machineWord :=
    Word.lt_of_le_sizes (by omega)
  have hend : data + table.withinBlock lo + (hi - lo) < Limits.machineWord :=
    Word.lt_of_le_sizes (by omega)
  simp only [ownRange?, Word.add?_eq hstart, Word.sub?_eq hlo, Option.bind_eq_bind,
    Option.bind_some, fileRange?_eq hend]
  rfl

theorem parentRange?_eq (v : ParentView π) (hlo : lo ≤ hi) :
    parentRange? v buffer lo hi = some (parentRange v buffer lo hi) := by
  have hstop : max (min hi v.size) lo ≤ hi := Nat.max_le.mpr ⟨Nat.min_le_left _ _, hlo⟩
  rw [parentRange?, Word.sub?_eq hstop]
  rfl

theorem blockPiece?_eq {source : BlockSource π} (h : table.Fits) (hs : source.Fits) (hlo : lo ≤ hi)
    (hhi : hi ≤ Limits.safeNumber) : blockPiece? table contents buffer lo hi source
      = some (blockPiece table contents buffer lo hi source) := by
  cases source with
  | own data =>
    rw [blockPiece?, ownRange?_eq h hs hlo hhi]
    rfl
  | inherited v =>
    rw [blockPiece?, parentRange?_eq v hlo]
    rfl
  | both bitmapOffset data v =>
    have hwithin : table.withinBlock lo ≤ lo := Nat.mod_le _ _
    have hbits : table.withinBlock lo / sectorSize + (hi - lo + (sectorSize - 1)) / sectorSize
        < Limits.machineWord := by
      apply Word.lt_of_le_sizes
      unfold sectorSize
      omega
    simp only [blockPiece?, blockPiece]
    cases readAt contents bitmapOffset table.bitmapSize "block bitmap" with
    | error e => rfl
    | ok bitmap =>
      simp only [Word.sub?_eq hlo, Option.bind_eq_bind, Option.bind_some, Word.add?_eq hbits,
        ownRange?_eq h hs hlo hhi, parentRange?_eq v hlo]
      cases huniform : uniformBits bitmap (.ofNat (table.withinBlock lo / sectorSize))
        (.ofNat ((hi - lo + (sectorSize - 1)) / sectorSize)) with
      | none =>
        simp only [bind, Except.bind, huniform]
        rfl
      | some own =>
        simp only [bind, Except.bind, huniform]
        cases own <;> rfl

theorem afterBlocks?_eq (flattened : Footer) (hp : p.EndsByFooter) :
    @afterBlocks? π flattened p = some (afterBlocks flattened p) := by
  have hsize : flattened.bytes.size = Footer.size := size_packed _
  unfold afterBlocks? afterBlocks
  by_cases ho : 0 < p.owed
  · rw [if_pos ho, if_pos ho]
  rw [if_neg ho, if_neg ho]
  by_cases hdone : p.footerDone = true
  · rw [if_pos hdone, if_pos hdone]
  rw [if_neg hdone, if_neg hdone]
  by_cases hs : p.footerStart < p.stop
  · have hlo : p.size ≤ p.footerStart := Nat.le_max_right _ _
    have hhi : p.stop ≤ p.size + Footer.size := by
      unfold EndsByFooter at hp
      unfold footerStart at hs
      omega
    have hslice : p.footerStart - p.size ≤ p.stop - p.size :=
      Nat.sub_le_sub_right (Nat.le_of_lt hs) _
    have hwithin : p.stop - p.size ≤ flattened.bytes.size := by omega
    have hlength : p.stop - p.size - (p.footerStart - p.size) = p.stop - p.footerStart := by omega
    simp only [if_pos hs, Word.sub?_eq hlo, Word.sub?_eq (Nat.le_trans hlo (Nat.le_of_lt hs)),
      Option.bind_eq_bind, Option.bind_some, Word.slice?_eq hslice hwithin, hlength]
    rfl
  · simp only [if_neg hs]

/-- A range that starts with a sector and ends with the footer at the latest. -/
theorem sound_ofRange {size start stop : Nat} (hsize : size ≤ Limits.safeNumber)
    (hstart : start < Limits.machineWord) (hdvd : sectorSize ∣ start)
    (hstop : stop ≤ max (size + Footer.size) start) : (ofRange size start stop buffer).Sound where
  size_le := hsize
  stop_lt := by
    have hend := Word.footerEnd_lt hsize
    change max stop start < _
    omega
  start_le_stop := Nat.le_max_right _ _
  endsByFooter := Nat.max_le.mpr ⟨hstop, Nat.le_max_right _ _⟩
  dvd_start := hdvd
  start_le := Nat.le_refl _
  cursor_le := Nat.le_max_right _ _
  aligned := fun _ => hdvd
  owed_le := Nat.zero_le _

namespace Sound

theorem dataEnd_le_size (h : p.Sound) (hlt : p.cursor < p.dataEnd) : p.dataEnd ≤ p.size := by
  have hstart := h.start_le
  unfold dataEnd at hlt ⊢
  omega

theorem dataEnd_lt (h : p.Sound) : p.dataEnd < Limits.machineWord :=
  Nat.lt_of_le_of_lt (Nat.max_le.mpr ⟨Nat.min_le_left _ _, h.start_le_stop⟩) h.stop_lt

theorem owed_lt (h : p.Sound) : p.owed < Limits.machineWord := by
  have howed := h.owed_le
  have hcursor := h.cursor_le
  have hword := h.dataEnd_lt
  omega

theorem advance (h : p.Sound) {owed : Nat} (hc : p.cursor ≤ hi) (hd : hi ≤ p.dataEnd)
    (ha : hi < p.dataEnd → sectorSize ∣ hi) (ho : owed ≤ hi - p.start) :
    Plan.Sound { p with owed, cursor := hi } where
  size_le := h.size_le
  stop_lt := h.stop_lt
  start_le_stop := h.start_le_stop
  endsByFooter := h.endsByFooter
  dvd_start := h.dvd_start
  start_le := Nat.le_trans h.start_le hc
  cursor_le := hd
  aligned := ha
  owed_le := ho

theorem paid (h : p.Sound) : p.paid.Sound :=
  h.advance (Nat.le_refl _) h.cursor_le h.aligned (Nat.zero_le _)

theorem finish (h : p.Sound) : Plan.Sound { p with footerDone := true } :=
  ⟨h.size_le, h.stop_lt, h.start_le_stop, h.endsByFooter, h.dvd_start, h.start_le, h.cursor_le,
    h.aligned, h.owed_le⟩

theorem owe (h : p.Sound) (hc : p.cursor ≤ hi) (hd : hi ≤ p.dataEnd)
    (ha : hi < p.dataEnd → sectorSize ∣ hi) :
    Plan.Sound { p with owed := p.owed + (hi - p.cursor), cursor := hi } := by
  have hstart := h.start_le
  have howed := h.owed_le
  exact h.advance hc hd ha (by omega)

theorem afterBlocks (h : p.Sound) (flattened : Footer) :
    (@Plan.afterBlocks π flattened p).2.Sound := by
  unfold Plan.afterBlocks
  split
  · exact h.paid
  split
  · exact h
  · simp only
    split <;> exact h.finish

theorem dvd_blockEnd (h : table.Fits) (hlt : min (blockEnd table p.cursor) p.dataEnd < p.dataEnd) :
    sectorSize ∣ min (blockEnd table p.cursor) p.dataEnd := by
  rw [Nat.min_eq_left (by omega)]
  exact Nat.dvd_mul_left_of_dvd h.sectorSize_dvd _

theorem next (h : p.Sound) (hl : level.Fits) : (Plan.next level parent contents p).2.Sound := by
  fun_induction Plan.next level parent contents p with
  | case1 p hlt =>
    exact h.advance (Nat.le_of_lt hlt) (Nat.le_refl _) (fun h => absurd h (Nat.lt_irrefl _))
      (Nat.le_trans h.owed_le (Nat.sub_le_sub_right (Nat.le_of_lt hlt) _))
  | case2 p hlt _ _ _ _ piece rest hr =>
    have howe := h.owe (Nat.le_of_lt hlt) (Nat.le_refl _) fun h => absurd h (Nat.lt_irrefl _)
    have hafter := @afterBlocks π _ howe level.flattenedFooter
    rwa [hr] at hafter
  | case3 p hlt layout hsparse _ _ hi _ ih =>
    obtain ⟨hc, hd⟩ : p.cursor < hi ∧ hi ≤ p.dataEnd := blockEnd_bounds hlt
    exact ih (h.owe (Nat.le_of_lt hc) hd (dvd_blockEnd (hl.table layout hsparse)))
  | case4 p => exact h.paid
  | case5 p hlt layout hsparse _ _ hi =>
    obtain ⟨hc, hd⟩ : p.cursor < hi ∧ hi ≤ p.dataEnd := blockEnd_bounds hlt
    exact h.advance (Nat.le_of_lt hc) hd (dvd_blockEnd (hl.table layout hsparse))
      (Nat.le_trans h.owed_le (Nat.sub_le_sub_right (Nat.le_of_lt hc) _))
  | case6 p _ piece rest hr =>
    have hafter := @afterBlocks π _ h level.flattenedFooter
    rwa [hr] at hafter

end Sound

theorem next?_block (h : p.Sound) (hlt : p.cursor < p.dataEnd)
    (hsparse : level.sparse = some layout)
    (hindex : ¬layout.table.length ≤ layout.table.blockOf p.cursor) (ht : layout.table.Fits)
    (hhi : min (blockEnd layout.table p.cursor) p.dataEnd = hi) :
    next? level parent contents p =
      match blockSource layout parent (layout.table.blockOf p.cursor) with
      | none => do
        let owed ← Word.add? p.owed (hi - p.cursor)
        next? level parent contents { p with owed, cursor := hi }
      | some source =>
        if 0 < p.owed then some (.ok (some (.zeros p.owedRun)), p.paid)
        else do
          let piece ← blockPiece? layout.table contents p.buffer p.cursor hi source
          return (piece.map some, { p with cursor := hi }) := by
  have hc : p.cursor < hi := hhi ▸ (blockEnd_bounds hlt).1
  have hcursor : p.cursor ≤ Limits.safeNumber :=
    Nat.le_trans (Nat.le_of_lt (Nat.lt_of_lt_of_le hlt (h.dataEnd_le_size hlt))) h.size_le
  rw [next?, if_pos hlt, hsparse]
  simp only [if_neg hindex, ht.blockEnd?_eq hcursor, Option.bind_eq_bind, Option.bind_some, hhi,
    blockSource?_eq ht]
  rw [dif_pos ⟨hc, h.aligned hlt⟩]
  cases blockSource layout parent (layout.table.blockOf p.cursor) with
  | none =>
    simp only [Word.sub?_eq (Nat.le_of_lt hc), Option.bind_some]
  | some source => rfl

theorem next?_eq (h : p.Sound) (hl : level.Fits) :
    next? level parent contents p = some (next level parent contents p) := by
  fun_induction Plan.next level parent contents p with
  | case1 p hlt hsparse =>
    have hend : p.cursor + (p.dataEnd - p.cursor) < Limits.machineWord := by
      have hword := h.dataEnd_lt
      omega
    rw [next?, if_pos hlt, hsparse]
    simp only [Word.sub?_eq (Nat.le_of_lt hlt), Option.bind_eq_bind, Option.bind_some,
      fileRange?_eq hend]
    rfl
  | case2 p hlt layout hsparse index hindex piece rest hr =>
    have howe := h.owe (Nat.le_of_lt hlt) (Nat.le_refl _) fun h => absurd h (Nat.lt_irrefl _)
    have hafter := @afterBlocks?_eq π _ level.flattenedFooter howe.endsByFooter
    have hbeyond : layout.table.length ≤ layout.table.blockOf p.cursor := hindex
    rw [hr] at hafter
    rw [next?, if_pos hlt, hsparse]
    simp only [if_pos hbeyond, Word.sub?_eq (Nat.le_of_lt hlt), Option.bind_eq_bind,
      Option.bind_some, Word.add?_eq howe.owed_lt, hafter]
    rfl
  | case3 p hlt layout hsparse index hindex hi hsource ih =>
    obtain ⟨hc, hd⟩ : p.cursor < hi ∧ hi ≤ p.dataEnd := blockEnd_bounds hlt
    have ht := hl.table layout hsparse
    have howe := h.owe (Nat.le_of_lt hc) hd (Sound.dvd_blockEnd ht)
    rw [next?_block h hlt hsparse hindex ht (Eq.refl hi), hsource]
    simp only [Word.add?_eq howe.owed_lt, Option.bind_eq_bind, Option.bind_some]
    exact ih howe
  | case4 p hlt layout hsparse index hindex source hsource howed =>
    rw [next?_block h hlt hsparse hindex (hl.table layout hsparse) rfl, hsource]
    exact if_pos howed
  | case5 p hlt layout hsparse index hindex hi source hsource howed =>
    obtain ⟨hc, hd⟩ : p.cursor < hi ∧ hi ≤ p.dataEnd := blockEnd_bounds hlt
    have ht := hl.table layout hsparse
    have hsize : hi ≤ Limits.safeNumber :=
      Nat.le_trans hd (Nat.le_trans (h.dataEnd_le_size hlt) h.size_le)
    rw [next?_block h hlt hsparse hindex ht (Eq.refl hi), hsource]
    simp only [if_neg howed, Option.bind_eq_bind,
      blockPiece?_eq ht (fits_blockSource ht hsource) (Nat.le_of_lt hc) hsize]
    rfl
  | case6 p hlt piece rest hr =>
    rw [next?, if_neg hlt, afterBlocks?_eq _ h.endsByFooter, hr]
    rfl

end exact

end Plan

end VirtualDisk
