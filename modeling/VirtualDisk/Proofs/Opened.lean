import VirtualDisk.Proofs.PlanYield

namespace VirtualDisk

theorem bind_eq_ok {α β : Type} {x : Except Error α} {f : α → Except Error β} {b : β} :
    (x >>= f) = .ok b ↔ ∃ a, x = .ok a ∧ f a = .ok b := by
  cases x with
  | error e => exact ⟨fun h => (nomatch h), fun ⟨_, h, _⟩ => (nomatch h)⟩
  | ok a =>
    constructor
    · exact fun h => ⟨a, rfl, h⟩
    · rintro ⟨_, ⟨⟩, h⟩
      exact h

theorem map_eq_ok {α β : Type} {x : Except Error α} {f : α → β} {b : β} :
    x.map f = .ok b ↔ ∃ a, x = .ok a ∧ f a = b := by
  cases x with
  | error e => exact ⟨fun h => (nomatch h), fun ⟨_, h, _⟩ => (nomatch h)⟩
  | ok a =>
    constructor
    · exact fun h => ⟨a, rfl, Except.ok.inj h⟩
    · rintro ⟨_, ⟨⟩, h⟩
      exact congrArg _ h

theorem BlockSize.sectorSize_dvd (s : BlockSize) : sectorSize ∣ s.bytes := by
  obtain ⟨k, hk⟩ := s.isPowerOfTwo
  have hle : 2 ^ 9 ≤ 2 ^ k := hk ▸ s.sectorSize_le
  have h9 : 9 ≤ k := (Nat.pow_le_pow_iff_right (by decide)).mp hle
  rw [hk]
  exact Nat.pow_dvd_pow 2 h9

theorem BlockTable.blockSize_of_read {contents : ByteArray} {header : SparseHeader}
    {table : BlockTable} (h : BlockTable.read contents header = .ok table) :
    table.blockSize = header.blockSize.bytes := by
  unfold BlockTable.read at h
  obtain ⟨_, -, h⟩ := bind_eq_ok.mp h
  obtain ⟨_, -, h⟩ := bind_eq_ok.mp h
  obtain ⟨bytes, -, h⟩ := bind_eq_ok.mp h
  unfold BlockTable.parse at h
  split at h
  · cases h
  · cases h
    rfl

theorem SparseLayout.eq_of_read {options : OpenOptions} {path : Path} {contents : ByteArray}
    {footer : Footer} {layout : SparseLayout}
    (h : SparseLayout.read options path contents footer = .ok layout) :
    layout.table.blockSize = layout.header.blockSize.bytes ∧
      layout.coverage = Coverage.compute layout.table.indices layout.table.length .orphan := by
  unfold SparseLayout.read at h
  obtain ⟨header, -, h⟩ := bind_eq_ok.mp h
  obtain ⟨table, ht, h⟩ := bind_eq_ok.mp h
  cases h
  exact ⟨BlockTable.blockSize_of_read ht, rfl⟩

namespace Level

variable {files : Files} {options : OpenOptions} {path : Path} {level : Level}

theorem read_eq_ok (h : Level.read files options path = .ok level) : ∃ place footer sparse,
    files.openFile path = .ok place ∧ lastFooter (files.contents place) = .ok footer ∧
    options.checkIntact footer.isIntact "footer" path = .ok () ∧
    readLayout options path (files.contents place) footer = .ok sparse ∧
    level = ⟨path, place, options, footer, footer.toFixed options.creator, sparse, []⟩ := by
  unfold Level.read at h
  obtain ⟨place, hplace, h⟩ := bind_eq_ok.mp h
  obtain ⟨footer, hfooter, h⟩ := bind_eq_ok.mp h
  obtain ⟨_, hintact, h⟩ := bind_eq_ok.mp h
  obtain ⟨sparse, hsparse, h⟩ := bind_eq_ok.mp h
  exact ⟨place, footer, sparse, hplace, hfooter, hintact, hsparse, (Except.ok.inj h).symm⟩

theorem readLayout_of_read (h : Level.read files options path = .ok level) :
    readLayout options path (files.contents level.place) level.footer = .ok level.sparse := by
  obtain ⟨place, footer, sparse, -, -, -, hsparse, rfl⟩ := read_eq_ok h
  exact hsparse

theorem fixed_of_read (h : Level.read files options path = .ok level) (hn : level.sparse = none) :
    level.footer.diskType = .fixed ∧
      level.footer.flattenedLength ≤ (files.contents level.place).size := by
  have hr := readLayout_of_read h
  rw [hn] at hr
  unfold readLayout at hr
  split at hr
  · next ht =>
    split at hr
    · cases hr
    · exact ⟨ht, by omega⟩
  · obtain ⟨_, -, hf⟩ := map_eq_ok.mp hr
    cases hf
  · obtain ⟨_, -, hf⟩ := map_eq_ok.mp hr
    cases hf
  · cases hr

theorem layout_of_read {layout : SparseLayout} (h : Level.read files options path = .ok level)
    (hl : level.sparse = some layout) : level.footer.diskType ≠ .fixed ∧
      SparseLayout.read options path (files.contents level.place) level.footer = .ok layout := by
  have hr := readLayout_of_read h
  rw [hl] at hr
  have hread {found} (h : (SparseLayout.read options path (files.contents level.place)
      level.footer).map some = .ok found) (hf : found = some layout) :
      SparseLayout.read options path (files.contents level.place) level.footer = .ok layout := by
    obtain ⟨_, hs, rfl⟩ := map_eq_ok.mp h
    cases hf
    exact hs
  unfold readLayout at hr
  split at hr
  · split at hr <;> cases hr
  · next ht => exact ⟨by rw [ht]; decide, hread hr rfl⟩
  · next ht => exact ⟨by rw [ht]; decide, hread hr rfl⟩
  · cases hr

theorem sparse_of_read {layout : SparseLayout} (h : Level.read files options path = .ok level)
    (hl : level.sparse = some layout) :
    level.footer.diskType ≠ .fixed ∧ layout.table.Fits ∧
      layout.coverage = Coverage.compute layout.table.indices layout.table.length .orphan := by
  obtain ⟨htype, hread⟩ := layout_of_read h hl
  obtain ⟨hsize, hcov⟩ := SparseLayout.eq_of_read hread
  have hfits : layout.table.Fits :=
    ⟨hsize ▸ layout.header.blockSize.sectorSize_dvd, hsize ▸ layout.header.blockSize.le_limit⟩
  exact ⟨htype, hfits, hcov⟩

end Level

/-- The header that names the parent of an image, if the image has a parent. -/
def Level.parentHeader? (l : Level) : Option SparseHeader :=
  if l.isDifferencing then l.sparse.map (·.header) else none

section openWithin

variable {files : Files} {options : OpenOptions} {path : Path} {room : Nat} {level : Level}

theorem parentHeader?_eq_some {header : SparseHeader} :
    level.parentHeader? = some header ↔
      level.isDifferencing = true ∧
        ∃ layout, level.sparse = some layout ∧ layout.header = header := by
  unfold Level.parentHeader?
  cases level.isDifferencing with
  | false => simp
  | true => simp

theorem isDifferencing_of_base (hr : Level.read files options path = .ok level)
    (hn : level.parentHeader? = none) : level.isDifferencing = false := by
  cases hd : level.isDifferencing with
  | false => rfl
  | true =>
    cases hl : level.sparse with
    | none =>
      have ht := (Level.fixed_of_read hr hl).1
      simp [Level.isDifferencing, ht] at hd
    | some layout =>
      rw [Level.parentHeader?, hd, hl] at hn
      cases hn

theorem openWithin_of_base (hr : Level.read files options path = .ok level)
    (hn : level.parentHeader? = none) :
    Disk.openWithin files options (room + 1) path = .ok ⟨level, []⟩ := by
  rw [Disk.openWithin, bind_eq_ok]
  refine ⟨level, hr, ?_⟩
  split
  · next hd hl =>
    rw [Level.parentHeader?, hd, hl] at hn
    cases hn
  · rfl

theorem openWithin_of_header {header : SparseHeader}
    (hr : Level.read files options path = .ok level) (hh : level.parentHeader? = some header) :
    Disk.openWithin files options (room + 1) path
      = ParentSearch.find files path header >>= fun found =>
        (Disk.openWithin files options room found.1).map
          (Disk.above { level with attempts := found.2 }) := by
  obtain ⟨hd, layout, hl, rfl⟩ := parentHeader?_eq_some.mp hh
  rw [Disk.openWithin, hr]
  simp only [bind, Except.bind, hd, hl]
  cases ParentSearch.find files path layout.header <;> rfl

theorem openWithin_eq_ok {d : Disk} : Disk.openWithin files options (room + 1) path = .ok d ↔
    ∃ level, Level.read files options path = .ok level ∧
      (level.parentHeader? = none ∧ d = ⟨level, []⟩ ∨
        ∃ header found parent, level.parentHeader? = some header ∧
          ParentSearch.find files path header = .ok found ∧
          Disk.openWithin files options room found.1 = .ok parent ∧
          d = Disk.above { level with attempts := found.2 } parent) := by
  cases hr : Level.read files options path with
  | error e =>
    rw [Disk.openWithin, hr]
    exact ⟨fun h => (nomatch h), fun ⟨_, h, _⟩ => (nomatch h)⟩
  | ok level =>
    cases hh : level.parentHeader? with
    | none =>
      rw [openWithin_of_base hr hh]
      constructor
      · rintro ⟨⟩
        exact ⟨level, rfl, .inl ⟨hh, rfl⟩⟩
      · rintro ⟨_, ⟨⟩, ⟨-, rfl⟩ | ⟨header, _, _, hsome, _⟩⟩
        · rfl
        · cases hh.symm.trans hsome
    | some header =>
      rw [openWithin_of_header hr hh, bind_eq_ok]
      simp only [map_eq_ok]
      constructor
      · rintro ⟨found, hf, parent, hp, rfl⟩
        exact ⟨level, rfl, .inr ⟨header, found, parent, hh, hf, hp, rfl⟩⟩
      · rintro ⟨_, ⟨⟩, ⟨hn, -⟩ | ⟨header', found, parent, hh', hf, hp, rfl⟩⟩
        · cases hh.symm.trans hn
        · cases hh.symm.trans hh'
          exact ⟨found, hf, parent, hp, rfl⟩

end openWithin

/-- The chains that opening gives, the topmost image first. -/
inductive Chained (files : Files) (options : OpenOptions) : List Level → Prop
  | base {path : Path} {level : Level} : Level.read files options path = .ok level →
      level.isDifferencing = false → Chained files options [level]
  | child {path : Path} {level parent : Level} {layout : SparseLayout} {attempts : List Attempt}
      {ancestors : List Level} : Level.read files options path = .ok level →
      level.isDifferencing = true → level.sparse = some layout →
      Chained files options (parent :: ancestors) →
      Chained files options (Level.above { level with attempts } parent :: parent :: ancestors)

theorem chained_of_openWithin {files : Files} {options : OpenOptions} {room : Nat} {path : Path}
    {d : Disk} (h : Disk.openWithin files options room path = .ok d) :
    Chained files options d.levels := by
  induction room generalizing path d with
  | zero => cases h
  | succ room ih =>
    obtain ⟨level, hr, ⟨hn, rfl⟩ | ⟨header, found, parent, hh, hf, hp, rfl⟩⟩ :=
      openWithin_eq_ok.mp h
    · exact .base hr (isDifferencing_of_base hr hn)
    · obtain ⟨hd, layout, hl, -⟩ := parentHeader?_eq_some.mp hh
      exact .child hr hd hl (ih hp)

theorem chained_of_open {files : Files} {options : OpenOptions} {path : Path} {d : Disk}
    (h : Disk.open files options path = .ok d) : Chained files options d.levels :=
  chained_of_openWithin h

def parentCoverage : List Level → ParentCoverage
  | [] => .orphan
  | parent :: _ => parent.coverageForChild

/-- An image that stands above some ancestors as opening has left it. -/
structure Level.StandsOn (files : Files) (level : Level) (ancestors : List Level) : Prop where
  differencing : level.isDifferencing = !ancestors.isEmpty
  fixed : level.sparse = none → ancestors = [] ∧ level.footer.diskType = .fixed ∧
    level.footer.flattenedLength ≤ (files.contents level.place).size
  sparse : ∀ layout, level.sparse = some layout → level.footer.diskType ≠ .fixed ∧
    layout.table.Fits ∧
    layout.coverage = Coverage.compute layout.table.indices layout.table.length
      (parentCoverage ancestors)

namespace Chained

variable {files : Files} {options : OpenOptions} {level : Level} {ancestors chain : List Level}

theorem standsOn (h : Chained files options (level :: ancestors)) :
    level.StandsOn files ancestors := by
  cases h with
  | base hr hd =>
    exact ⟨hd, fun hn => ⟨rfl, Level.fixed_of_read hr hn⟩, fun layout => Level.sparse_of_read hr⟩
  | @child _ _ _ layout _ _ hr hd hl _ =>
    obtain ⟨htype, hsize, -⟩ := Level.sparse_of_read hr hl
    constructor
    · exact hd
    · intro hn
      simp [Level.above, hl] at hn
    · intro found hf
      simp only [Level.above, hl, Option.map_some, Option.some.injEq] at hf
      subst hf
      exact ⟨htype, hsize, rfl⟩

theorem tail (h : Chained files options (level :: ancestors)) (hne : ancestors ≠ []) :
    Chained files options ancestors := by
  cases h with
  | base => exact absurd rfl hne
  | child _ _ _ hp => exact hp

theorem of_suffix {top : List Level} (h : Chained files options (top ++ chain)) (hne : chain ≠ []) :
    Chained files options chain := by
  induction top with
  | nil => exact h
  | cons level rest ih =>
    apply ih
    apply h.tail
    intro hn
    exact hne (List.append_eq_nil_iff.mp hn).2

theorem standsOn_of_mem {top : List Level}
    (h : Chained files options (top ++ level :: ancestors)) : level.StandsOn files ancestors :=
  (h.of_suffix (List.cons_ne_nil _ _)).standsOn

theorem hasFittingBlocks (h : Chained files options chain) :
    ∀ l ∈ chain, l.HasFittingBlocks := by
  intro l hm layout hl
  obtain ⟨top, rest, rfl⟩ := List.append_of_mem hm
  exact (h.standsOn_of_mem.sparse layout hl).2.1

end Chained

end VirtualDisk
