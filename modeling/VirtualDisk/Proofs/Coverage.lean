import VirtualDisk.Proofs.Opened

namespace VirtualDisk

section ascending

variable {x : Nat} {xs : List Nat}

theorem mem_eraseReps_loop {a : Nat} {acc : List Nat} :
    x ∈ List.eraseRepsBy.loop (· == ·) a xs acc ↔ x ∈ acc ∨ x = a ∨ x ∈ xs := by
  induction xs generalizing a acc with
  | nil => simp [List.eraseRepsBy.loop, or_comm]
  | cons b bs ih =>
    unfold List.eraseRepsBy.loop
    split
    · next h =>
      have hab : a = b := by simpa using h
      rw [ih, List.mem_cons, hab]
      grind
    · rw [ih, List.mem_cons, List.mem_cons]
      grind

theorem mem_eraseReps : x ∈ xs.eraseReps ↔ x ∈ xs := by
  cases xs with
  | nil => rfl
  | cons a as =>
    rw [List.eraseReps, List.eraseRepsBy, mem_eraseReps_loop, List.mem_cons]
    simp

theorem ascending_eraseReps_loop {a : Nat} {acc : List Nat} (h : (a :: xs).Pairwise (· ≤ ·))
    (hacc : acc.Pairwise (· > ·)) (hlt : ∀ y ∈ acc, y < a) :
    (List.eraseRepsBy.loop (· == ·) a xs acc).Pairwise (· < ·) := by
  have hcons : (a :: acc).Pairwise (· > ·) := List.pairwise_cons.mpr ⟨hlt, hacc⟩
  induction xs generalizing a acc with
  | nil => exact List.pairwise_reverse.mpr hcons
  | cons b bs ih =>
    rw [List.pairwise_cons] at h
    have hab : a ≤ b := h.1 b List.mem_cons_self
    unfold List.eraseRepsBy.loop
    split
    · exact ih (List.pairwise_cons.mpr ⟨fun y hy => h.1 y (List.mem_cons_of_mem _ hy),
        (List.pairwise_cons.mp h.2).2⟩) hacc hlt hcons
    · next hne =>
      have hlt' : ∀ y ∈ a :: acc, y < b := by
        intro y hy
        have hne' : a ≠ b := by simpa using hne
        rcases List.mem_cons.mp hy with rfl | hy
        · omega
        · have := hlt y hy
          omega
      exact ih h.2 hcons hlt' (List.pairwise_cons.mpr ⟨hlt', hcons⟩)

theorem ascending_eraseReps (h : xs.Pairwise (· ≤ ·)) : xs.eraseReps.Pairwise (· < ·) := by
  cases xs with
  | nil => exact List.Pairwise.nil
  | cons a as => exact ascending_eraseReps_loop h List.Pairwise.nil (fun _ hy => nomatch hy)

theorem lt_succ_getLast (h : xs.Pairwise (· < ·)) (hx : x ∈ xs) {last : Nat}
    (hl : xs.getLast? = some last) : x < last + 1 := by
  rw [List.getLast?_eq_some_iff] at hl
  obtain ⟨front, rfl⟩ := hl
  rw [List.pairwise_append] at h
  rcases List.mem_append.mp hx with hx | hx
  · exact Nat.lt_succ_of_lt (h.2.2 x hx last (List.mem_singleton.mpr rfl))
  · rw [List.mem_singleton.mp hx]
    exact Nat.lt_succ_self last

end ascending

namespace BlockTable

theorem mem_indices {t : BlockTable} {i : Nat} : i ∈ t.indices ↔ t.isPresent i = true := by
  rw [indices, List.mem_filter, List.mem_range]
  constructor
  · exact fun h => h.2
  · intro h
    refine ⟨?_, h⟩
    unfold isPresent sector? at h
    split at h
    · next he => exact (Array.getElem?_eq_some_iff.mp he).1
    · cases h

theorem lt_length_of_isPresent {t : BlockTable} {index : Nat} (h : t.isPresent index = true) :
    index < t.length :=
  List.mem_range.mp (List.mem_filter.mp (mem_indices.mpr h)).1

theorem ascending_indices (t : BlockTable) : t.indices.Pairwise (· < ·) :=
  List.pairwise_lt_range.filter _

end BlockTable

namespace Coverage

theorem mem_union {a b : List Nat} {i : Nat} : i ∈ union a b ↔ i ∈ a ∨ i ∈ b := by
  rw [union, mem_eraseReps, List.mem_mergeSort, List.mem_append]

theorem ascending_union (a b : List Nat) : (union a b).Pairwise (· < ·) := by
  apply ascending_eraseReps
  have hsorted := @List.pairwise_mergeSort Nat (fun x y => decide (x ≤ y))
    (by intro a b c; simpa using Nat.le_trans) (by intro a b; simpa using Nat.le_total a b) (a ++ b)
  simpa using hsorted

theorem getElem?_foldl_set {full : List Nat} {flags : Array Bool} {i : Nat} :
    (full.foldl (fun flags i => flags.setIfInBounds i true) flags)[i]?.getD false = true ↔
      flags[i]?.getD false = true ∨ i ∈ full ∧ i < flags.size := by
  induction full generalizing flags with
  | nil => simp
  | cons j rest ih =>
    rw [List.foldl_cons, ih, Array.size_setIfInBounds, Array.getElem?_setIfInBounds]
    grind

theorem getElem?_flags {length : Nat} {full : List Nat} (h : full.Pairwise (· < ·)) {i : Nat} :
    (flags length full)[i]?.getD false = true ↔ i ∈ full := by
  unfold flags
  rw [getElem?_foldl_set, Array.size_replicate]
  have hclear (n : Nat) : (Array.replicate n false)[i]?.getD false = false := by
    rw [Array.getElem?_replicate]
    split <;> rfl
  rw [hclear]
  constructor
  · rintro (h | h)
    · cases h
    · exact h.1
  · intro hi
    refine .inr ⟨hi, ?_⟩
    split
    · next last hl =>
      have := lt_succ_getLast h hi hl
      omega
    · next hl =>
      rw [List.getLast?_eq_none_iff.mp hl] at hi
      cases hi

end Coverage

/-- What the coverage of an image is computed from. -/
structure Stratum where
  type : DiskType
  indices : List Nat
  ascending : indices.Pairwise (· < ·)
  length : Nat

namespace Stratum

/-- Whether it holds a block of this number. A fixed image holds all. -/
def Holds (s : Stratum) (index : Nat) : Prop := s.type = .fixed ∨ index ∈ s.indices

def coverage (s : Stratum) (parent : ParentCoverage) : Coverage :=
  Coverage.compute s.indices s.length parent

/-- The coverages of a chain above a parent, the image next to the parent first. -/
def coverages (parent : ParentCoverage) : List Stratum → List Coverage
  | [] => []
  | s :: above => s.coverage parent :: coverages ((s.coverage parent).asParent s.type) above

end Stratum

/-- Whether what a child learns of the images below it is true of them. -/
def ParentCoverage.Describes (coverage : ParentCoverage) (below : List Stratum) : Prop :=
  match coverage with
  | .orphan => below = []
  | .fixed | .sparse none => ∃ s ∈ below, s.type = .fixed
  | .sparse (some full) => (∀ s ∈ below, s.type ≠ .fixed) ∧ full.Pairwise (· < ·) ∧
    ∀ index, index ∈ full ↔ ∃ s ∈ below, index ∈ s.indices

/-- The coverage of an image says exactly what it and the images below it store. It
says nothing of its own above a fixed image. -/
structure Coverage.Exact (coverage : Coverage) (s : Stratum) (below : List Stratum) : Prop where
  known : (∀ x ∈ below, x.type ≠ .fixed) → ∃ full, coverage.full = some full ∧
    full.Pairwise (· < ·) ∧ ∀ index, index ∈ full ↔ ∃ x ∈ s :: below, index ∈ x.indices
  unknown : (∃ x ∈ below, x.type = .fixed) → coverage.full = none
  mayBeInParent : below ≠ [] → ∀ index,
    coverage.mayBeInParent index = true ↔ ∃ x ∈ below, x.Holds index

section exact

variable {parent : ParentCoverage} {s : Stratum} {below : List Stratum}

theorem exact_of_describes (h : parent.Describes below) : (s.coverage parent).Exact s below := by
  match parent with
  | .orphan =>
    subst h
    constructor
    · exact fun _ => ⟨s.indices, rfl, s.ascending, fun index => by simp⟩
    · rintro ⟨x, hx, -⟩
      cases hx
    · exact fun hne => absurd rfl hne
  | .fixed | .sparse none =>
    obtain ⟨x, hx, hfixed⟩ := h
    constructor
    · exact fun hnone => absurd hfixed (hnone x hx)
    · exact fun _ => rfl
    · exact fun _ index => iff_of_true rfl ⟨x, hx, .inl hfixed⟩
  | .sparse (some full) =>
    obtain ⟨hnone, hascending, hmem⟩ := h
    constructor
    · refine fun _ => ⟨_, rfl, Coverage.ascending_union s.indices full, fun index => ?_⟩
      rw [Coverage.mem_union, hmem]
      simp
    · exact fun ⟨x, hx, hfixed⟩ => absurd hfixed (hnone x hx)
    · intro _ index
      refine (Coverage.getElem?_flags hascending).trans ((hmem index).trans ?_)
      exact exists_congr fun x => and_congr_right fun hx => (or_iff_right (hnone x hx)).symm

theorem Coverage.Exact.describes {coverage : Coverage} (h : coverage.Exact s below) :
    (coverage.asParent s.type).Describes (s :: below) := by
  unfold Coverage.asParent
  split
  · next hfixed => exact ⟨s, List.mem_cons_self, hfixed⟩
  · next hne =>
    by_cases hsome : ∃ x ∈ below, x.type = .fixed
    · obtain ⟨x, hx, hfixed⟩ := hsome
      rw [h.unknown ⟨x, hx, hfixed⟩]
      exact ⟨x, List.mem_cons_of_mem s hx, hfixed⟩
    · have hnone : ∀ x ∈ below, x.type ≠ .fixed := fun x hx hfixed => hsome ⟨x, hx, hfixed⟩
      obtain ⟨full, hfull, hascending, hmem⟩ := h.known hnone
      rw [hfull]
      exact ⟨List.forall_mem_cons.mpr ⟨hne, hnone⟩, hascending, hmem⟩

theorem describes_asParent (h : parent.Describes below) (s : Stratum) :
    ((s.coverage parent).asParent s.type).Describes (s :: below) :=
  (exact_of_describes h).describes

theorem exact_of_coverages {chain front rest : List Stratum} (h : parent.Describes below)
    (hchain : chain = front ++ s :: rest) :
    ∃ c, (Stratum.coverages parent chain)[front.length]? = some c ∧
      c.Exact s (front.reverse ++ below) := by
  subst hchain
  induction front generalizing parent below with
  | nil => exact ⟨_, rfl, exact_of_describes h⟩
  | cons x front ih =>
    obtain ⟨c, hc, hexact⟩ := ih (describes_asParent h x)
    refine ⟨c, hc, ?_⟩
    rwa [List.reverse_cons, List.append_assoc]

end exact

/-- The coverage of each image of a chain is the exact union of what it and the
images below it store, if the base is not fixed. Nothing is known above a base that
is fixed, and each block may be in it. -/
theorem coverages_exact (base : Stratum) (above : List Stratum) :
    (base.type ≠ .fixed → (∀ x ∈ above, x.type ≠ .fixed) →
      ∀ below s rest, base :: above = below ++ s :: rest → ∃ c full,
        (Stratum.coverages .orphan (base :: above))[below.length]? = some c ∧
        c.full = some full ∧ full.Pairwise (· < ·) ∧
        (∀ index, index ∈ full ↔ ∃ x ∈ below ++ [s], index ∈ x.indices) ∧
        (below ≠ [] → ∀ index,
          c.mayBeInParent index = true ↔ ∃ x ∈ below, index ∈ x.indices)) ∧
    (base.type = .fixed → ∀ between s rest, above = between ++ s :: rest → ∃ c,
      (Stratum.coverages .orphan (base :: above))[between.length + 1]? = some c ∧
      c.full = none ∧ ∀ index, c.mayBeInParent index = true) := by
  have horphan : ParentCoverage.orphan.Describes [] := rfl
  constructor
  · intro hbase habove below s rest hchain
    obtain ⟨c, hc, hexact⟩ := exact_of_coverages horphan hchain
    rw [List.append_nil] at hexact
    have hchainNone : ∀ x ∈ base :: above, x.type ≠ .fixed :=
      List.forall_mem_cons.mpr ⟨hbase, habove⟩
    have hnone : ∀ x ∈ below.reverse, x.type ≠ .fixed := by
      intro x hx
      apply hchainNone
      rw [hchain]
      exact List.mem_append_left _ (List.mem_reverse.mp hx)
    obtain ⟨full, hfull, hascending, hmem⟩ := hexact.known hnone
    refine ⟨c, full, hc, hfull, hascending, fun index => ?_, fun hne index => ?_⟩
    · rw [hmem]
      simp [or_comm]
    · rw [hexact.mayBeInParent (mt List.reverse_eq_nil_iff.mp hne)]
      constructor
      · rintro ⟨x, hx, hfixed | hindex⟩
        · exact absurd hfixed (hnone x hx)
        · exact ⟨x, List.mem_reverse.mp hx, hindex⟩
      · rintro ⟨x, hx, hindex⟩
        exact ⟨x, List.mem_reverse.mpr hx, .inr hindex⟩
  · intro hbase between s rest habove
    have hchain : base :: above = (base :: between) ++ s :: rest := congrArg (base :: ·) habove
    obtain ⟨c, hc, hexact⟩ := exact_of_coverages horphan hchain
    have hmem : base ∈ (base :: between).reverse ++ [] := by simp
    refine ⟨c, hc, hexact.unknown ⟨base, hmem, hbase⟩, fun index => ?_⟩
    exact (hexact.mayBeInParent (List.ne_nil_of_mem hmem) index).mpr ⟨base, hmem, .inl hbase⟩

def longStratum (type : DiskType) : Stratum := ⟨type, [0, 9], by decide, 10⟩

def shortStratum : Stratum := ⟨.differencing, [1], by decide, 2⟩

/-- The last block of the base lies past the end of the tables above it. -/
theorem coverages_exact_longStratum :
    (∃ c, (Stratum.coverages .orphan [longStratum .dynamic, shortStratum, shortStratum])[2]?
      = some c ∧
      c.mayBeInParent 9 = true ∧ c.mayBeInParent 5 = false) ∧
    ∃ c, (Stratum.coverages .orphan [longStratum .fixed, shortStratum])[1]? = some c ∧
      c.full = none ∧ c.mayBeInParent 5 = true := by
  constructor
  · have habove : ∀ x ∈ [shortStratum, shortStratum], x.type ≠ .fixed := by simp [shortStratum]
    obtain ⟨c, -, hc, -, -, -, hmay⟩ := (coverages_exact (longStratum .dynamic) _).1 (by decide)
      habove
      [longStratum .dynamic, shortStratum] shortStratum [] rfl
    have hstored : ∃ x ∈ [longStratum .dynamic, shortStratum], 9 ∈ x.indices :=
      ⟨longStratum .dynamic, List.mem_cons_self, by decide⟩
    have hfree : ¬∃ x ∈ [longStratum .dynamic, shortStratum], 5 ∈ x.indices := by
      simp [longStratum, shortStratum]
    refine ⟨c, hc, (hmay (List.cons_ne_nil _ _) 9).mpr hstored, ?_⟩
    exact Bool.eq_false_iff.mpr (mt (hmay (List.cons_ne_nil _ _) 5).mp hfree)
  · obtain ⟨c, hc, hfull, hmay⟩ := (coverages_exact (longStratum .fixed) _).2 rfl [] shortStratum
      [] rfl
    exact ⟨c, hc, hfull, hmay 5⟩

def Level.stratum (level : Level) : Stratum where
  type := level.footer.diskType
  indices := level.indices
  ascending := by
    unfold Level.indices
    split
    · exact BlockTable.ascending_indices _
    · exact .nil
  length := match level.sparse with
    | some layout => layout.table.length
    | none => 0

def Level.Holds (level : Level) (index : Nat) : Prop :=
  match level.sparse with
  | none => True
  | some layout => layout.table.isPresent index = true

theorem Level.holds_of_fixed {level : Level} (h : level.sparse = none) (index : Nat) :
    level.Holds index := by
  rw [Holds, h]
  trivial

theorem Level.holds_of_sparse {level : Level} {layout : SparseLayout}
    (h : level.sparse = some layout) (index : Nat) :
    level.Holds index ↔ index ∈ layout.table.indices := by
  rw [Holds, h]
  exact BlockTable.mem_indices.symm

theorem Level.stratum_of_sparse {level : Level} {layout : SparseLayout}
    (h : level.sparse = some layout) :
    level.stratum.indices = layout.table.indices ∧ level.stratum.length = layout.table.length := by
  simp only [Level.stratum, Level.indices, h, and_self]

namespace Chained

variable {files : Files} {options : OpenOptions} {level : Level} {ancestors chain : List Level}

theorem stratum_holds_iff (h : level.StandsOn files ancestors) (index : Nat) :
    level.stratum.Holds index ↔ level.Holds index := by
  cases hl : level.sparse with
  | none => exact iff_of_true (.inl (h.fixed hl).2.1) (Level.holds_of_fixed hl index)
  | some layout =>
    rw [Level.holds_of_sparse hl, Stratum.Holds, (Level.stratum_of_sparse hl).1]
    exact or_iff_right (h.sparse layout hl).1

theorem parentCoverage_cons (h : level.StandsOn files ancestors) :
    parentCoverage (level :: ancestors)
      = (level.stratum.coverage (parentCoverage ancestors)).asParent level.stratum.type := by
  rw [parentCoverage, Level.coverageForChild]
  cases hl : level.sparse with
  | none => exact (if_pos (h.fixed hl).2.1).symm
  | some layout =>
    obtain ⟨hindices, hlength⟩ := Level.stratum_of_sparse hl
    rw [Stratum.coverage, hindices, hlength, ← (h.sparse layout hl).2.2]
    rfl

/-- What an image learns of its ancestors is true of them. -/
theorem describes (h : Chained files options chain) :
    (parentCoverage chain).Describes (chain.map Level.stratum) := by
  induction chain with
  | nil => rfl
  | cons level ancestors ih =>
    have hd : (parentCoverage ancestors).Describes (ancestors.map Level.stratum) := by
      cases ancestors with
      | nil => rfl
      | cons parent rest => exact ih (h.tail (List.cons_ne_nil _ _))
    rw [parentCoverage_cons h.standsOn]
    exact describes_asParent hd level.stratum

/-- A block may be in the parent just if an ancestor holds a block of that
number. -/
theorem mayBeInParent_iff (h : Chained files options (level :: ancestors)) (hne : ancestors ≠ [])
    {layout : SparseLayout} (hl : level.sparse = some layout) (index : Nat) :
    layout.coverage.mayBeInParent index = true ↔ ∃ l ∈ ancestors, l.Holds index := by
  have hexact := @exact_of_describes _ level.stratum _ (h.tail hne).describes
  have hcoverage : layout.coverage = level.stratum.coverage (parentCoverage ancestors) := by
    obtain ⟨hindices, hlength⟩ := Level.stratum_of_sparse hl
    rw [Stratum.coverage, hindices, hlength]
    exact (h.standsOn.sparse layout hl).2.2
  have hholds {l : Level} (hm : l ∈ ancestors) : l.stratum.Holds index ↔ l.Holds index := by
    obtain ⟨top, rest, rfl⟩ := List.append_of_mem hm
    exact stratum_holds_iff (h.tail hne).standsOn_of_mem index
  rw [hcoverage, hexact.mayBeInParent (mt List.map_eq_nil_iff.mp hne)]
  constructor
  · rintro ⟨x, hx, hindex⟩
    obtain ⟨l, hm, rfl⟩ := List.mem_map.mp hx
    exact ⟨l, hm, (hholds hm).mp hindex⟩
  · rintro ⟨l, hm, hindex⟩
    exact ⟨_, List.mem_map_of_mem hm, (hholds hm).mpr hindex⟩

end Chained

end VirtualDisk
