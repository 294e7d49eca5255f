import Mathlib.Data.List.Forall2
import VirtualDisk.Proofs.Flattening

namespace VirtualDisk

namespace ParentSearch

/-- The file at a path ends in a footer. -/
def Shows (files : Files) (path : Path) (footer : Footer) : Prop :=
  ∃ place, files.Holds path place ∧ 512 ≤ (files.contents place).size ∧
    Footer.parse (slice (files.contents place) ((files.contents place).size - 512) 512) = .ok footer

/-- The file at a path is the image that is looked for. -/
def Matches (files : Files) (expected : UniqueId) (path : Path) : Prop :=
  ∃ footer, Shows files path footer ∧ footer.uniqueId = expected

/-- The file at a path cannot be opened, or is too short for a footer, or its last bytes
are none. -/
inductive Hides (files : Files) (path : Path) : Error → Prop
  | locked {e : Error} : files.isFile path = true → files.openFile path = .error e →
      Hides files path e
  | short {place : Place} : files.Holds path place → (files.contents place).size < 512 →
      Hides files path (.format .fileTooSmall)
  | damaged {place : Place} {e : Error} : files.Holds path place →
      512 ≤ (files.contents place).size →
      Footer.parse (slice (files.contents place) ((files.contents place).size - 512) 512)
        = .error e →
      Hides files path e

inductive Fares (files : Files) (expected : UniqueId) (path : Path) : Outcome → Prop
  | missing : files.isFile path = false → Fares files expected path .missing
  | unreadable {e : Error} : Hides files path e → Fares files expected path (.unreadable e.text)
  | mismatch {footer : Footer} : Shows files path footer → footer.uniqueId ≠ expected →
      Fares files expected path (.mismatch footer.uniqueId)
  | accepted : Matches files expected path → Fares files expected path .accepted

def Records (files : Files) (expected : UniqueId) (path : Path) (a : Attempt) : Prop :=
  a.path = path ∧ Fares files expected path a.outcome

section outcome

variable {files : Files} {expected : UniqueId} {path : Path} {place : Place}

theorem lastFooter_of_short {contents : ByteArray} (h : contents.size < 512) :
    lastFooter contents = .error (.format .fileTooSmall) := if_pos h

theorem lastFooter_of_le {contents : ByteArray} (h : 512 ≤ contents.size) :
    lastFooter contents = Footer.parse (slice contents (contents.size - 512) 512) :=
  if_neg (Nat.not_lt.mpr h)

theorem outcome_of_locked {e : Error} (hfile : files.isFile path = true)
    (h : files.openFile path = .error e) :
    outcome files expected path = .unreadable e.text := by
  have hpeek : peek files path = .error e := by rw [peek, h]; rfl
  simp only [outcome, hfile, hpeek, if_true]

theorem fares_outcome : Fares files expected path (outcome files expected path) := by
  cases hfile : files.isFile path with
  | false =>
    rw [outcome, hfile]
    exact .missing hfile
  | true =>
    cases hp : files.openFile path with
    | error e =>
      rw [outcome_of_locked hfile hp]
      exact .unreadable (.locked hfile hp)
    | ok place =>
      have hholds : files.Holds path place := ⟨hfile, hp⟩
      rw [outcome_of_holds hholds]
      obtain hs | hle := Nat.lt_or_ge (files.contents place).size 512
      · rw [lastFooter_of_short hs]
        exact .unreadable (.short hholds hs)
      · rw [lastFooter_of_le hle]
        split
        · next hf => exact .unreadable (.damaged hholds hle hf)
        · next hf =>
          have hshows : Shows files path _ := ⟨place, hholds, hle, hf⟩
          split
          · next hid => exact .accepted ⟨_, hshows, hid⟩
          · next hid => exact .mismatch hshows hid

theorem outcome_eq_accepted_iff :
    outcome files expected path = .accepted ↔ Matches files expected path := by
  constructor
  · intro h
    have hfares := @fares_outcome files expected path
    rw [h] at hfares
    cases hfares with
    | accepted hm => exact hm
  · rintro ⟨footer, ⟨place, hp, hle, hf⟩, hid⟩
    exact outcome_eq_accepted hp ((lastFooter_of_le hle).trans hf) hid

end outcome

section attempt

variable {files : Files} {expected : UniqueId} {before after paths : List Path} {found : Path}

def tried (files : Files) (expected : UniqueId) (path : Path) : Attempt :=
  ⟨path, outcome files expected path⟩

theorem attempt_of_none (h : ∀ c ∈ paths, outcome files expected c ≠ .accepted) :
    attempt files expected paths = (none, paths.map (tried files expected)) := by
  induction paths with
  | nil => rfl
  | cons path rest ih =>
    obtain ⟨hp, hrest⟩ := List.forall_mem_cons.mp h
    rw [attempt, if_neg hp, ih hrest]
    rfl

theorem attempt_of_first (hb : ∀ c ∈ before, outcome files expected c ≠ .accepted)
    (hf : outcome files expected found = .accepted) :
    attempt files expected (before ++ found :: after)
      = (some found, before.map (tried files expected) ++ [⟨found, .accepted⟩]) := by
  induction before with
  | nil =>
    rw [List.nil_append, attempt, if_pos hf, hf]
    rfl
  | cons path rest ih =>
    obtain ⟨hp, hrest⟩ := List.forall_mem_cons.mp hb
    rw [List.cons_append, attempt, if_neg hp, ih hrest]
    rfl

/-- Either a first path is accepted, or none is. -/
theorem attempt_cases (files : Files) (expected : UniqueId) (paths : List Path) :
    (∃ before found after, paths = before ++ found :: after ∧
      (∀ c ∈ before, outcome files expected c ≠ .accepted) ∧
      outcome files expected found = .accepted ∧
      attempt files expected paths
        = (some found, before.map (tried files expected) ++ [⟨found, .accepted⟩])) ∨
    (∀ c ∈ paths, outcome files expected c ≠ .accepted) ∧
      attempt files expected paths = (none, paths.map (tried files expected)) := by
  cases hfind : paths.find? fun c => decide (outcome files expected c = .accepted) with
  | none =>
    have hnone : ∀ c ∈ paths, outcome files expected c ≠ .accepted := by
      simpa only [List.find?_eq_none, decide_eq_true_eq] using hfind
    exact .inr ⟨hnone, attempt_of_none hnone⟩
  | some found =>
    obtain ⟨hf, before, after, rfl, hb⟩ := List.find?_eq_some_iff_append.mp hfind
    have haccepted := of_decide_eq_true hf
    have hbefore : ∀ c ∈ before, outcome files expected c ≠ .accepted := by
      simpa only [Bool.not_eq_true', decide_eq_false_iff_not] using hb
    exact .inl ⟨before, found, after, rfl, hbefore, haccepted, attempt_of_first hbefore haccepted⟩

theorem records_tried (files : Files) (expected : UniqueId) (paths : List Path) :
    List.Forall₂ (Records files expected) paths (paths.map (tried files expected)) := by
  rw [List.forall₂_map_right_iff, List.forall₂_same]
  exact fun path _ => ⟨rfl, fares_outcome⟩

theorem tried_ne_accepted (h : ∀ c ∈ paths, outcome files expected c ≠ .accepted) :
    ∀ a ∈ paths.map (tried files expected), a.outcome ≠ .accepted :=
  List.forall_mem_map.mpr h

end attempt

/-- The search succeeds just if a candidate matches. It then gives the first that does,
with the attempts up to it, and else all attempts. -/
theorem finds_first_match (files : Files) (child : Path) (header : SparseHeader) :
    ((∃ found, find files child header = .ok found) ↔
      ∃ c ∈ candidates child header.parentName header.locators, Matches files header.parentId c) ∧
    (∀ before found after,
      candidates child header.parentName header.locators = before ++ found :: after →
      (∀ c ∈ before, ¬Matches files header.parentId c) → Matches files header.parentId found →
      ∃ attempts, find files child header = .ok (found, attempts ++ [⟨found, .accepted⟩]) ∧
        List.Forall₂ (Records files header.parentId) before attempts ∧
        ∀ a ∈ attempts, a.outcome ≠ .accepted) ∧
    ((∀ c ∈ candidates child header.parentName header.locators,
        ¬Matches files header.parentId c) →
      ∃ attempts, find files child header = .error (.parentNotFound child attempts) ∧
        List.Forall₂ (Records files header.parentId)
          (candidates child header.parentName header.locators) attempts ∧
        ∀ a ∈ attempts, a.outcome ≠ .accepted) := by
  simp only [← outcome_eq_accepted_iff]
  refine ⟨?_, ?_, ?_⟩
  · obtain ⟨before, found, after, hlist, -, hf, ha⟩ | ⟨hnone, ha⟩ := attempt_cases files
      header.parentId (candidates child header.parentName header.locators)
    · rw [find, ha, hlist]
      exact ⟨fun _ => ⟨found, List.mem_append_right _ List.mem_cons_self, hf⟩, fun _ => ⟨_, rfl⟩⟩
    · rw [find, ha]
      constructor
      · rintro ⟨_, h⟩
        cases h
      · rintro ⟨c, hc, h⟩
        exact absurd h (hnone c hc)
  · intro before found after hlist hb hf
    refine ⟨before.map (tried files header.parentId), ?_, records_tried _ _ _,
      tried_ne_accepted hb⟩
    rw [find, hlist, attempt_of_first hb hf]
  · intro hnone
    refine ⟨_, ?_, records_tried _ _ _, tried_ne_accepted hnone⟩
    rw [find, attempt_of_none hnone]

def threeFiles (child base junk : ByteArray) : Files :=
  FileTree.host
    ⟨[['d']], [], [([['d'], ['c']], child), ([['b']], base), ([['d'], ['j']], junk)]⟩

section threeFiles

variable (child base junk : ByteArray)

theorem outcome_nowhere (expected : UniqueId) :
    outcome (threeFiles child base junk) expected ⟨"x"⟩ = .missing := rfl

theorem outcome_junk (expected : UniqueId) (h : junk.size < 512) :
    outcome (threeFiles child base junk) expected ⟨"j"⟩
      = .unreadable (Error.format .fileTooSmall).text := by
  have hp : (threeFiles child base junk).Holds ⟨"j"⟩ [['d'], ['j']] := ⟨rfl, rfl⟩
  have hc : (threeFiles child base junk).contents [['d'], ['j']] = junk := rfl
  simp only [outcome_of_holds hp, hc, lastFooter_of_short h]

theorem outcome_child {footer : Footer} {expected : UniqueId} (h : lastFooter child = .ok footer)
    (hid : footer.uniqueId ≠ expected) :
    outcome (threeFiles child base junk) expected ⟨"c"⟩ = .mismatch footer.uniqueId := by
  have hp : (threeFiles child base junk).Holds ⟨"c"⟩ [['d'], ['c']] := ⟨rfl, rfl⟩
  have hc : (threeFiles child base junk).contents [['d'], ['c']] = child := rfl
  simp only [outcome_of_holds hp, hc, h, if_neg hid]

theorem outcome_base {footer : Footer} {expected : UniqueId} (h : lastFooter base = .ok footer)
    (hid : footer.uniqueId = expected) :
    outcome (threeFiles child base junk) expected ⟨"/b"⟩ = .accepted :=
  outcome_eq_accepted ⟨rfl, rfl⟩ h hid

end threeFiles

/-- Locators of four paths: one leads nowhere, one to a file that is no image, one to the
child itself, and one from the root to its parent. -/
def fourLocators : List ParentLocator :=
  ["x", "j", "c"].map (fun text => ⟨ParentLocator.relativeCode, 1, 2, 0, some text⟩)
    ++ ⟨ParentLocator.absoluteCode, 1, 2, 0, some "\\b"⟩
      :: List.replicate 4 ⟨Vector.replicate 4 0, 0, 0, 0, none⟩

def withFourLocators (header : SparseHeader) : SparseHeader :=
  { header with
    locators := fourLocators
    length_locators := rfl }

def pairAndJunk (pair : DraftPair) : Files :=
  threeFiles pair.child.file pair.base.file (filled 511 0)

section pairAndJunk

variable {pair : DraftPair}

theorem candidates_fourLocators {header : SparseHeader} (hname : header.parentName = "b") :
    candidates ⟨"c"⟩ (withFourLocators header).parentName (withFourLocators header).locators
      = [⟨"x"⟩, ⟨"j"⟩, ⟨"c"⟩] ++ [⟨"/b"⟩, ⟨"b"⟩] := by
  have hcandidates : candidates ⟨"c"⟩ "b" fourLocators
      = [⟨"x"⟩, ⟨"j"⟩, ⟨"c"⟩] ++ [⟨"/b"⟩, ⟨"b"⟩] := by
    decide
  have hkept : (withFourLocators header).parentName = "b" := hname
  rw [hkept]
  exact hcandidates

theorem not_matches_pairAndJunk (hid : pair.child.id ≠ pair.base.id) :
    ∀ c ∈ [(⟨"x"⟩ : Path), ⟨"j"⟩, ⟨"c"⟩], ¬Matches (pairAndJunk pair) pair.base.id c := by
  have hsize : (filled 511 0).size < 512 := by rw [size_filled]; decide
  simp only [← outcome_eq_accepted_iff, List.forall_mem_cons, List.not_mem_nil, pairAndJunk,
    outcome_nowhere, outcome_junk _ _ _ _ hsize, outcome_child _ _ _ (Draft.lastFooter_file _) hid]
  simp

theorem matches_pairAndJunk : Matches (pairAndJunk pair) pair.base.id ⟨"/b"⟩ :=
  outcome_eq_accepted_iff.mp (outcome_base _ _ _ (Draft.lastFooter_file _) rfl)

end pairAndJunk

/-- Three candidates fail in different ways before the parent is found, and where there
are no files all five fail. -/
theorem finds_first_match_pairAndJunk :
    (∃ attempts, find (pairAndJunk (DiskStream.mixedPair 1024 (by decide))) ⟨"c"⟩
        (withFourLocators (DiskStream.mixedPair 1024 (by decide)).child.header)
        = .ok (⟨"/b"⟩, attempts ++ [⟨⟨"/b"⟩, .accepted⟩]) ∧
      List.Forall₂ (Records (pairAndJunk (DiskStream.mixedPair 1024 (by decide))) baseId)
        [⟨"x"⟩, ⟨"j"⟩, ⟨"c"⟩] attempts ∧
      ∀ a ∈ attempts, a.outcome ≠ .accepted) ∧
    ∃ attempts, find FileTree.empty ⟨"c"⟩
        (withFourLocators (DiskStream.mixedPair 1024 (by decide)).child.header)
        = .error (.parentNotFound ⟨"c"⟩ attempts) ∧
      List.Forall₂ (Records FileTree.empty baseId) [⟨"x"⟩, ⟨"j"⟩, ⟨"c"⟩, ⟨"/b"⟩, ⟨"b"⟩]
        attempts ∧
      ∀ a ∈ attempts, a.outcome ≠ .accepted := by
  have hid : childId ≠ baseId := by decide
  have hname : (DiskStream.mixedPair 1024 (by decide)).child.header.parentName = "b" :=
    nameOf_storedName
  have hlist := candidates_fourLocators hname
  constructor
  · exact (finds_first_match (pairAndJunk (DiskStream.mixedPair 1024 (by decide))) ⟨"c"⟩
      (withFourLocators (DiskStream.mixedPair 1024 (by decide)).child.header)).2.1 _ _ [⟨"b"⟩]
      hlist (not_matches_pairAndJunk hid) matches_pairAndJunk
  · have hnone := (finds_first_match FileTree.empty ⟨"c"⟩
      (withFourLocators (DiskStream.mixedPair 1024 (by decide)).child.header)).2.2
    rw [hlist] at hnone
    have hempty : ∀ c ∈ [(⟨"x"⟩ : Path), ⟨"j"⟩, ⟨"c"⟩] ++ [⟨"/b"⟩, ⟨"b"⟩],
        FileTree.empty.isFile c = false := by
      decide
    apply hnone
    rintro c hc ⟨footer, ⟨place, hp, -⟩, -⟩
    cases (hempty c hc).symm.trans hp.isFile

end ParentSearch

end VirtualDisk
