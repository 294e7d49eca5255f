import Mathlib.Data.List.Induction
import VirtualDisk.ParentSearch
import VirtualDisk.Proofs.PathSteps

namespace VirtualDisk

def ParentLocator.textFor? (code : Vector UInt8 4) (l : ParentLocator) : Option String :=
  if l.code = code ∧ l.code ≠ Vector.replicate 4 0 ∧ l.length ≠ 0 then l.text else none

theorem Path.join_of_root {p q : Path} (h : q.components.head? = some .root) : p.join q = q :=
  if_pos (head?_components_eq_root_iff.mp h)

namespace ParentSearch

def slashed (text : String) : Path := ⟨Path.withSlashes text⟩

section gathered

variable {α β : Type}

/-- What the relative locators, the absolute ones and the name give, each in the order of
the slots. -/
def gathered (relative absolute : String → α) (beside : String → Option α) (name : String)
    (locators : List ParentLocator) : List α :=
  (locators.filterMap (·.textFor? ParentLocator.relativeCode)).map relative ++
  (locators.filterMap (·.textFor? ParentLocator.absoluteCode)).map absolute ++
  if name = "" then [] else absolute name :: (beside name).toList

theorem map_gathered (f : α → β) (relative absolute : String → α) (beside : String → Option α)
    (name : String) (locators : List ParentLocator) :
    (gathered relative absolute beside name locators).map f
      = gathered (f ∘ relative) (f ∘ absolute) (fun text => (beside text).map f) name locators := by
  have hname : (if name = "" then [] else absolute name :: (beside name).toList).map f
      = if name = "" then [] else f (absolute name) :: ((beside name).map f).toList := by
    split
    · rfl
    · cases beside name <;> rfl
  rw [gathered, gathered, List.map_append, List.map_append, List.map_map, List.map_map, hname]
  rfl

end gathered

def sources (child : Path) : String → List ParentLocator → List Path :=
  gathered (fun text => child.directory.join (slashed text)) slashed
    (fun name => (slashed name).fileName?.map child.directory.join)

def sourceSteps (directory : List Component) : String → List ParentLocator →
    List (List Component) :=
  gathered (fun text => seenFrom directory (slashed text).components)
    (fun text => (slashed text).components)
    (fun name => (lastName? (slashed name).components).map fun last => seenFrom directory [last])

def IsNew (before : List Path) (p : Path) : Prop := ∀ q ∈ before, q.components ≠ p.components

instance (before : List Path) (p : Path) : Decidable (IsNew before p) :=
  inferInstanceAs (Decidable (∀ q ∈ before, q.components ≠ p.components))

def firsts (paths : List Path) : List Path :=
  (paths.zipIdx.filter fun x => IsNew (paths.take x.2) x.1).map Prod.fst

section sources

variable {child : Path} {name : String} {locators : List ParentLocator}

theorem texts_eq (code : Vector UInt8 4) (locators : List ParentLocator) :
    SparseHeader.texts locators code = locators.filterMap (·.textFor? code) := by
  rw [SparseHeader.texts, List.filterMap_filter]
  congr 1
  funext l
  simp [ParentLocator.textFor?, ParentLocator.isEmpty, and_comm]

theorem listed_eq_sources : listed child name locators = sources child name locators := by
  rw [listed, texts_eq, texts_eq]
  rfl

theorem components_sources : (sources child name locators).map Path.components
    = sourceSteps child.components.dropLast name locators := by
  have hrelative : (Path.components ∘ fun text => child.directory.join (slashed text))
      = fun text => seenFrom child.components.dropLast (slashed text).components := by
    funext text
    exact (Path.components_join _ _).trans (by rw [Path.components_directory])
  have hbeside :
      (fun text => ((slashed text).fileName?.map child.directory.join).map Path.components)
      = fun text => (lastName? (slashed text).components).map fun last =>
        seenFrom child.components.dropLast [last] := by
    funext text
    have hname := Path.components_fileName? (slashed text)
    cases hf : (slashed text).fileName? with
    | none =>
      rw [hf] at hname
      rw [Option.map_eq_none_iff.mp hname.symm]
      rfl
    | some base =>
      rw [hf] at hname
      obtain ⟨last, hlast, hbase⟩ := Option.map_eq_some_iff.mp hname.symm
      rw [hlast]
      refine congrArg some ((Path.components_join _ _).trans ?_)
      rw [Path.components_directory, ← hbase]
  rw [sources, map_gathered, hrelative, hbeside]
  rfl

end sources

section distinct

variable {paths before : List Path}

theorem equiv_iff {p q : Path} : p.equiv q = true ↔ p.components = q.components := beq_iff_eq

theorem isNew_cons_iff {first p : Path} :
    IsNew (first :: before) p ↔ first.components ≠ p.components ∧ IsNew before p :=
  List.forall_mem_cons

theorem distinct_concat (paths : List Path) (p : Path) :
    distinct (paths ++ [p]) = distinct paths ++ if IsNew paths p then [p] else [] := by
  induction paths with
  | nil => rfl
  | cons first rest ih =>
    have hlast : (if IsNew rest p then [p] else []).filter (fun q => !first.equiv q)
        = if IsNew (first :: rest) p then [p] else [] := by
      by_cases hrest : IsNew rest p
      · rw [if_pos hrest]
        by_cases hfirst : first.components = p.components
        · rw [if_neg fun h => (isNew_cons_iff.mp h).1 hfirst]
          exact List.filter_cons_of_neg (by rw [equiv_iff.mpr hfirst]; exact Bool.false_ne_true)
        · rw [if_pos (isNew_cons_iff.mpr ⟨hfirst, hrest⟩)]
          exact List.filter_cons_of_pos
            (by rwa [Bool.not_eq_true', Bool.eq_false_iff, ne_eq, equiv_iff])
      · rw [if_neg hrest, if_neg fun h => hrest (isNew_cons_iff.mp h).2]
        rfl
    rw [List.cons_append, distinct, ih, List.filter_append, hlast]
    rfl

theorem firsts_concat (paths : List Path) (p : Path) :
    firsts (paths ++ [p]) = firsts paths ++ if IsNew paths p then [p] else [] := by
  have hbefore : (paths.zipIdx.filter fun x => IsNew ((paths ++ [p]).take x.2) x.1)
      = paths.zipIdx.filter fun x => IsNew (paths.take x.2) x.1 := by
    refine List.filter_congr fun x hx => ?_
    have hi : x.2 ≤ paths.length := Nat.le_of_lt (List.snd_lt_of_mem_zipIdx hx)
    rw [List.take_append_of_le_length hi]
  have hwhole : (paths ++ [p]).take (0 + paths.length) = paths := by
    rw [Nat.zero_add, List.take_left]
  have hlast :
      ([(p, 0 + paths.length)].filter fun x => IsNew ((paths ++ [p]).take x.2) x.1).map Prod.fst
      = if IsNew paths p then [p] else [] := by
    rw [List.filter_cons, hwhole]
    by_cases h : IsNew paths p
    · rw [if_pos h, if_pos (decide_eq_true h)]
      rfl
    · rw [if_neg h, if_neg (by rwa [decide_eq_true_iff])]
      rfl
  rw [firsts, List.zipIdx_append, List.filter_append, List.map_append, hbefore]
  exact congrArg (firsts paths ++ ·) hlast

theorem distinct_eq_firsts (paths : List Path) : distinct paths = firsts paths := by
  -- from the end: whether a path is new depends on those before it alone
  induction paths using List.reverseRecOn with
  | nil => rfl
  | append_singleton paths p ih => rw [distinct_concat, firsts_concat, ih]

theorem components_distinct (paths : List Path) :
    (distinct paths).map Path.components = (paths.map Path.components).eraseDups := by
  induction paths using List.reverseRecOn with
  | nil => rfl
  | append_singleton paths p ih =>
    rw [distinct_concat, List.map_append, List.map_append, List.eraseDups_append, ih]
    congr 1
    rw [List.map_singleton, List.removeAll, List.filter_cons]
    by_cases h : IsNew paths p
    · rw [if_pos h, if_pos (by simpa [IsNew] using h)]
      rfl
    · rw [if_neg h, if_neg (by simpa [IsNew] using h)]
      rfl

theorem pairwise_distinct (paths : List Path) :
    (distinct paths).Pairwise fun p q => p.components ≠ q.components := by
  induction paths with
  | nil => exact .nil
  | cons p rest ih =>
    refine .cons (fun q hq => ?_) (ih.filter _)
    have hne := (List.mem_filter.mp hq).2
    simpa [Path.equiv] using hne

end distinct

section candidates

variable {child : Path} {name : String} {locators : List ParentLocator}

theorem candidates_eq : candidates child name locators = distinct (sources child name locators) :=
  congrArg distinct listed_eq_sources

theorem sources_congr {others : List ParentLocator}
    (hrelative : others.filterMap (·.textFor? ParentLocator.relativeCode)
      = locators.filterMap (·.textFor? ParentLocator.relativeCode))
    (habsolute : others.filterMap (·.textFor? ParentLocator.absoluteCode)
      = locators.filterMap (·.textFor? ParentLocator.absoluteCode)) :
    sources child name others = sources child name locators := by
  rw [sources, gathered, gathered, hrelative, habsolute]

theorem textFor?_of_code_ne {code : Vector UInt8 4} {l : ParentLocator} (h : l.code ≠ code) :
    l.textFor? code = none := if_neg fun hall => h hall.1

theorem textFor?_of_idle {l : ParentLocator}
    (h : l.code = Vector.replicate 4 0 ∨ l.length = 0 ∨ l.text = none ∨
      l.code ≠ ParentLocator.relativeCode ∧ l.code ≠ ParentLocator.absoluteCode) :
    l.textFor? ParentLocator.relativeCode = none ∧
      l.textFor? ParentLocator.absoluteCode = none := by
  obtain hcode | hlength | htext | ⟨hrelative, habsolute⟩ := h
  · exact ⟨if_neg fun hall => hall.2.1 hcode, if_neg fun hall => hall.2.1 hcode⟩
  · exact ⟨if_neg fun hall => hall.2.2 hlength, if_neg fun hall => hall.2.2 hlength⟩
  · unfold ParentLocator.textFor?
    rw [htext, ite_self, ite_self]
    exact ⟨rfl, rfl⟩
  · exact ⟨textFor?_of_code_ne hrelative, textFor?_of_code_ne habsolute⟩

theorem candidates_of_idle {front back : List ParentLocator} {l : ParentLocator}
    (h : l.textFor? ParentLocator.relativeCode = none ∧
      l.textFor? ParentLocator.absoluteCode = none) :
    candidates child name (front ++ back) = candidates child name (front ++ l :: back) := by
  rw [candidates_eq, candidates_eq]
  refine congrArg distinct (sources_congr ?_ ?_)
  · rw [List.filterMap_append, List.filterMap_append, List.filterMap_cons_none h.1]
  · rw [List.filterMap_append, List.filterMap_append, List.filterMap_cons_none h.2]

theorem candidates_swap {front back : List ParentLocator} {l m : ParentLocator}
    (hl : l.code = ParentLocator.absoluteCode) (hm : m.code = ParentLocator.relativeCode) :
    candidates child name (front ++ m :: l :: back)
      = candidates child name (front ++ l :: m :: back) := by
  have hcodes : ParentLocator.absoluteCode ≠ ParentLocator.relativeCode := by decide
  have hl' : l.textFor? ParentLocator.relativeCode = none := textFor?_of_code_ne (by rwa [hl])
  have hm' : m.textFor? ParentLocator.absoluteCode = none :=
    textFor?_of_code_ne (by rwa [hm, ne_comm])
  rw [candidates_eq, candidates_eq]
  refine congrArg distinct (sources_congr ?_ ?_)
  · simp only [List.filterMap_append, List.filterMap_cons, hl']
  · simp only [List.filterMap_append, List.filterMap_cons, hm']

/-- What the list of candidates is, and what it depends on. -/
structure ListsSources (child : Path) (name : String) (locators : List ParentLocator) : Prop where
  eq_firsts : candidates child name locators = firsts (sources child name locators)
  components : (candidates child name locators).map Path.components
    = (sourceSteps child.components.dropLast name locators).eraseDups
  pairwise : (candidates child name locators).Pairwise fun p q => p.components ≠ q.components
  complete : ∀ p ∈ sources child name locators,
    ∃ q ∈ candidates child name locators, q.components = p.components
  /-- The platform of a locator counts before its slot. -/
  platform : ∀ front l m back, locators = front ++ l :: m :: back →
    l.code = ParentLocator.absoluteCode → m.code = ParentLocator.relativeCode →
    candidates child name (front ++ m :: l :: back) = candidates child name locators
  idle : ∀ front l back, locators = front ++ l :: back →
    (l.code = Vector.replicate 4 0 ∨ l.length = 0 ∨ l.text = none ∨
      l.code ≠ ParentLocator.relativeCode ∧ l.code ≠ ParentLocator.absoluteCode) →
    candidates child name (front ++ back) = candidates child name locators
  slashes : ∀ text,
    (slashed text).text.toList = text.toList.map fun c => if c = '\\' then '/' else c
  /-- An absolute path does not lie in the directory of the child. -/
  absolute : ∀ q : Path, q.components.head? = some .root → child.directory.join q = q

/-- The candidates are the paths that the child names, each once and in their order. -/
theorem lists_sources_once (child : Path) (name : String) (locators : List ParentLocator) :
    ListsSources child name locators where
  eq_firsts := candidates_eq.trans (distinct_eq_firsts _)
  components := by rw [candidates_eq, components_distinct, components_sources]
  pairwise := by
    rw [candidates_eq]
    exact pairwise_distinct _
  complete := by
    intro p hp
    have hmem : p.components ∈ (distinct (sources child name locators)).map Path.components := by
      rw [components_distinct]
      exact List.mem_eraseDups.mpr (List.mem_map_of_mem hp)
    rw [candidates_eq]
    exact List.mem_map.mp hmem
  platform := by
    rintro front l m back rfl hl hm
    exact candidates_swap hl hm
  idle := by
    rintro front l back rfl h
    exact candidates_of_idle (textFor?_of_idle h)
  slashes := fun _ => String.toList_ofList
  absolute := fun _ => Path.join_of_root

/-- The relative locator stands before the absolute one in the slot before it, and the name
in the directory of the child is the same as the relative path. -/
example : candidates ⟨"/images/child.vhd"⟩ "D:\\old\\base.vhd"
    [⟨ParentLocator.absoluteCode, 1, 34, 2048, some "C:\\base.vhd"⟩,
      ⟨ParentLocator.relativeCode, 1, 22, 1536, some ".\\base.vhd"⟩]
    = [⟨"/images/./base.vhd"⟩, ⟨"C:/base.vhd"⟩, ⟨"D:/old/base.vhd"⟩] := by decide

end candidates

end ParentSearch

end VirtualDisk
