import Mathlib.Data.List.Chain
import VirtualDisk.Proofs.FirstMatch

namespace VirtualDisk

/-- Opening the image at a path below `depth` others, and then its ancestors: the
paths at which images are opened, in this order, and what comes of it. -/
inductive Opens (files : Files) (options : OpenOptions) :
    (depth : Nat) → Path → List Path → Except Error Disk → Prop
  | tooDeep {depth : Nat} {path : Path} {e : Error} :
      Limits.checkChainDepth depth = .error e → Opens files options depth path [] (.error e)
  | unreadable {depth : Nat} {path : Path} {e : Error} :
      Limits.checkChainDepth depth = .ok () → Level.read files options path = .error e →
      Opens files options depth path [path] (.error e)
  | base {depth : Nat} {path : Path} {level : Level} :
      Limits.checkChainDepth depth = .ok () → Level.read files options path = .ok level →
      level.parentHeader? = none → Opens files options depth path [path] (.ok ⟨level, []⟩)
  | orphan {depth : Nat} {path : Path} {level : Level} {header : SparseHeader} {e : Error} :
      Limits.checkChainDepth depth = .ok () → Level.read files options path = .ok level →
      level.parentHeader? = some header → ParentSearch.find files path header = .error e →
      Opens files options depth path [path] (.error e)
  | child {depth : Nat} {path found : Path} {level : Level} {header : SparseHeader}
      {attempts : List Attempt} {opened : List Path} {result : Except Error Disk} :
      Limits.checkChainDepth depth = .ok () → Level.read files options path = .ok level →
      level.parentHeader? = some header →
      ParentSearch.find files path header = .ok (found, attempts) →
      Opens files options (depth + 1) found opened result →
      Opens files options depth path (path :: opened)
        (result.map (Disk.above { level with attempts }))

/-- The image at a path is read and has a parent, which is found at another path. -/
def LeadsTo (files : Files) (options : OpenOptions) (path parent : Path) : Prop :=
  ∃ level header attempts, Level.read files options path = .ok level ∧
    level.parentHeader? = some header ∧
    ParentSearch.find files path header = .ok (parent, attempts)

variable {files : Files} {options : OpenOptions} {path : Path} {depth : Nat}

section bounded

theorem checkChainDepth_of_le (h : depth ≤ 64) : Limits.checkChainDepth depth = .ok () :=
  if_neg (Nat.not_lt.mpr h)

theorem checkChainDepth_of_lt (h : 64 < depth) :
    Limits.checkChainDepth depth = .error (.limit (.chainDepth 64)) := if_pos h

/-- The loop comes to an end with what `Disk.openWithin` gives. -/
theorem opens_openWithin {room : Nat} (h : depth + room = 65) (path : Path) :
    ∃ opened, Opens files options depth path opened (Disk.openWithin files options room path) ∧
      opened.length ≤ room := by
  -- the room that is left runs out just when the check of the depth fails
  induction room generalizing depth path with
  | zero => exact ⟨[], .tooDeep (checkChainDepth_of_lt (by omega)), Nat.le_refl 0⟩
  | succ room ih =>
    have hd : Limits.checkChainDepth depth = .ok () := checkChainDepth_of_le (by omega)
    have hone : [path].length ≤ room + 1 := Nat.le_add_left 1 room
    cases hr : Level.read files options path with
    | error e =>
      have hopen : Disk.openWithin files options (room + 1) path = .error e := by
        rw [Disk.openWithin, hr]
        rfl
      exact ⟨[path], hopen ▸ .unreadable hd hr, hone⟩
    | ok level =>
      cases hh : level.parentHeader? with
      | none => exact ⟨[path], openWithin_of_base hr hh ▸ .base hd hr hh, hone⟩
      | some header =>
        rw [openWithin_of_header hr hh]
        cases hf : ParentSearch.find files path header with
        | error e => exact ⟨[path], .orphan hd hr hh hf, hone⟩
        | ok found =>
          obtain ⟨opened, hopened, hlength⟩ := @ih (depth + 1) (by omega) found.1
          exact ⟨path :: opened, .child hd hr hh hf hopened, Nat.succ_le_succ hlength⟩

/-- There is no other way to its end. -/
theorem Opens.unique {opened paths : List Path} {result outcome : Except Error Disk}
    (h : Opens files options depth path opened result)
    (h' : Opens files options depth path paths outcome) : paths = opened ∧ outcome = result := by
  -- the check, the reading and the search have one outcome each, which excludes the other ways
  induction h generalizing paths outcome with
  | tooDeep hd => cases h' <;> grind
  | unreadable hd hr => cases h' <;> grind
  | base hd hr hh => cases h' <;> grind
  | orphan hd hr hh hf => cases h' <;> grind
  | child hd hr hh hf hp ih =>
    cases h' with
    | child hd' hr' hh' hf' hp' =>
      cases hr.symm.trans hr'
      cases hh.symm.trans hh'
      cases hf.symm.trans hf'
      obtain ⟨rfl, rfl⟩ := ih hp'
      exact ⟨rfl, rfl⟩
    | _ => grind

end bounded

section linked

theorem Level.eq_of_read {level : Level} (h : Level.read files options path = .ok level) :
    level.path = path ∧ level.options = options ∧ level.attempts = [] ∧
      files.openFile path = .ok level.place ∧
      lastFooter (files.contents level.place) = .ok level.footer := by
  obtain ⟨place, footer, sparse, hplace, hfooter, -, -, rfl⟩ := Level.read_eq_ok h
  exact ⟨rfl, rfl, rfl, hplace, hfooter⟩

theorem Level.diskType_of_read {level : Level} (h : Level.read files options path = .ok level) :
    level.footer.diskType = .fixed ∨ level.footer.diskType = .dynamic ∨
      level.footer.diskType = .differencing := by
  have hr := readLayout_of_read h
  unfold readLayout at hr
  split at hr
  · next ht => exact .inl ht
  · next ht => exact .inr (.inl ht)
  · next ht => exact .inr (.inr ht)
  · cases hr

theorem attempt_eq_some {expected : UniqueId} {candidates : List Path} {found : Path}
    {attempts : List Attempt}
    (h : ParentSearch.attempt files expected candidates = (some found, attempts)) :
    ParentSearch.outcome files expected found = .accepted ∧
      ∃ before, attempts = before ++ [⟨found, .accepted⟩] ∧
        ∀ a ∈ before, a.outcome ≠ .accepted := by
  obtain ⟨before, _, _, -, hb, hf, ha⟩ | ⟨-, ha⟩ :=
    ParentSearch.attempt_cases files expected candidates
  · cases ha.symm.trans h
    exact ⟨hf, _, rfl, ParentSearch.tried_ne_accepted hb⟩
  · cases ha.symm.trans h

theorem find_eq_ok {header : SparseHeader} {found : Path} {attempts : List Attempt}
    (h : ParentSearch.find files path header = .ok (found, attempts)) :
    (∃ place footer, files.Holds found place ∧
      lastFooter (files.contents place) = .ok footer ∧ footer.uniqueId = header.parentId) ∧
    ∃ before, attempts = before ++ [⟨found, .accepted⟩] ∧ ∀ a ∈ before, a.outcome ≠ .accepted := by
  unfold ParentSearch.find at h
  split at h
  · next ha =>
    cases h
    obtain ⟨ho, hattempts⟩ := attempt_eq_some ha
    refine ⟨?_, hattempts⟩
    obtain ⟨footer, ⟨place, hp, hle, hf⟩, hid⟩ := ParentSearch.outcome_eq_accepted_iff.mp ho
    exact ⟨place, footer, hp, (ParentSearch.lastFooter_of_le hle).trans hf, hid⟩
  · cases h

end linked

/-- An image and its parent in a chain. The parent is the last of the candidates
that were tried, and the only one that was accepted. -/
structure Level.LinksTo (level parent : Level) : Prop where
  differencing : level.footer.diskType = .differencing
  attempts : ∃ before, level.attempts = before ++ [⟨parent.path, .accepted⟩] ∧
    ∀ a ∈ before, a.outcome ≠ .accepted
  layout : ∃ layout, level.sparse = some layout ∧
    parent.footer.uniqueId = layout.header.parentId ∧
    layout.coverage = Coverage.compute layout.table.indices layout.table.length
      parent.coverageForChild

structure Level.IsBase (level : Level) : Prop where
  diskType : level.footer.diskType = .fixed ∨ level.footer.diskType = .dynamic
  attempts : level.attempts = []
  coverage : ∀ layout, level.sparse = some layout →
    layout.coverage = Coverage.compute layout.table.indices layout.table.length .orphan

/-- A chain that was opened with some options, the topmost image first. -/
structure Linked (options : OpenOptions) (chain : List Level) : Prop where
  options_eq : ∀ level ∈ chain, level.options = options
  links : chain.IsChain Level.LinksTo
  base : ∃ front base, chain = front ++ [base] ∧ base.IsBase

theorem linked_base {level : Level} (hr : Level.read files options path = .ok level)
    (hn : level.parentHeader? = none) : Linked options [level] := by
  obtain ⟨-, hoptions, hattempts, -⟩ := Level.eq_of_read hr
  have htype : level.footer.diskType = .fixed ∨ level.footer.diskType = .dynamic := by
    obtain ht | ht | ht := Level.diskType_of_read hr
    · exact .inl ht
    · exact .inr ht
    · exact absurd ht (of_decide_eq_false (isDifferencing_of_base hr hn))
  constructor
  · exact fun l hm => List.mem_singleton.mp hm ▸ hoptions
  · exact .singleton level
  · exact ⟨[], level, rfl, htype, hattempts, fun layout hl => (Level.sparse_of_read hr hl).2.2⟩

theorem linked_above {level parent : Level} {ancestors : List Level} {header : SparseHeader}
    {attempts : List Attempt} (hr : Level.read files options path = .ok level)
    (hh : level.parentHeader? = some header)
    (hf : ParentSearch.find files path header = .ok (parent.path, attempts))
    (hid : parent.footer.uniqueId = header.parentId)
    (hp : Linked options (parent :: ancestors)) :
    Linked options (Level.above { level with attempts } parent :: parent :: ancestors) := by
  obtain ⟨hd, layout, hl, rfl⟩ := parentHeader?_eq_some.mp hh
  obtain ⟨front, base, hlast, hbase⟩ := hp.base
  have hlink : (Level.above { level with attempts } parent).LinksTo parent := by
    constructor
    · exact of_decide_eq_true hd
    · exact (find_eq_ok hf).2
    · exact ⟨_, congrArg (Option.map _) hl, hid, rfl⟩
  constructor
  · exact List.forall_mem_cons.mpr ⟨(Level.eq_of_read hr).2.1, hp.options_eq⟩
  · exact .cons_cons hlink hp.links
  · exact ⟨_ :: front, base, by rw [hlast, List.cons_append], hbase⟩

theorem Opens.top_eq {opened : List Path} {d : Disk}
    (h : Opens files options depth path opened (.ok d)) :
    d.top.path = path ∧ ∃ place, files.openFile path = .ok place ∧
      lastFooter (files.contents place) = .ok d.top.footer := by
  generalize hresult : Except.ok d = result at h
  cases h with
  | tooDeep | unreadable | orphan => cases hresult
  | base hd hr hn =>
    cases hresult
    obtain ⟨hpath, -, -, hplace, hfooter⟩ := Level.eq_of_read hr
    exact ⟨hpath, _, hplace, hfooter⟩
  | child hd hr hh hf hp =>
    obtain ⟨parent, -, rfl⟩ := map_eq_ok.mp hresult.symm
    obtain ⟨hpath, -, -, hplace, hfooter⟩ := Level.eq_of_read hr
    exact ⟨hpath, _, hplace, hfooter⟩

theorem Opens.uniqueId_eq {found : Path} {opened : List Path} {d : Disk} {header : SparseHeader}
    {attempts : List Attempt} (h : Opens files options depth found opened (.ok d))
    (hf : ParentSearch.find files path header = .ok (found, attempts)) :
    d.top.footer.uniqueId = header.parentId := by
  obtain ⟨-, place, hplace, hfooter⟩ := h.top_eq
  obtain ⟨⟨place', footer, hfile, hlast, hid⟩, -⟩ := find_eq_ok hf
  cases hplace.symm.trans hfile.opens
  cases hfooter.symm.trans hlast
  exact hid

/-- The chain that is left has the images that were opened, and is linked. -/
theorem Opens.linked {opened : List Path} {d : Disk}
    (h : Opens files options depth path opened (.ok d)) :
    opened = d.levels.map Level.path ∧ Linked options d.levels := by
  generalize hresult : Except.ok d = result at h
  induction h generalizing d with
  | tooDeep | unreadable | orphan => cases hresult
  | base hd hr hn =>
    cases hresult
    exact ⟨congrArg (· :: []) (Level.eq_of_read hr).1.symm, linked_base hr hn⟩
  | child hd hr hh hf hp ih =>
    obtain ⟨parent, rfl, rfl⟩ := map_eq_ok.mp hresult.symm
    obtain ⟨hopened, hlinked⟩ := ih rfl
    have hid := hp.uniqueId_eq hf
    rw [← hp.top_eq.1] at hf
    refine ⟨?_, linked_above hr hh hf hid hlinked⟩
    rw [hopened]
    exact congrArg (· :: _) (Level.eq_of_read hr).1.symm

/-- If images lead on to each other, they are opened until the limit is met. -/
theorem opens_trail {trail : Nat → Path}
    (ht : ∀ i < 65, LeadsTo files options (trail i) (trail (i + 1))) {room : Nat}
    (h : depth + room = 65) :
    Opens files options depth (trail depth) ((List.range' depth room).map trail)
      (.error (.limit (.chainDepth 64))) := by
  induction room generalizing depth with
  | zero => exact .tooDeep (checkChainDepth_of_lt (by omega))
  | succ room ih =>
    obtain ⟨level, header, attempts, hr, hh, hf⟩ := ht depth (by omega)
    exact .child (checkChainDepth_of_le (by omega)) hr hh hf (ih (by omega))

/-- The loop that opens a chain ends, in one way only and after 65 images at most.
If it leaves a chain, the chain is linked. If 65 images lead on to each other, it
opens no other image and reports that the chain is too deep. -/
theorem opens_bounded (files : Files) (options : OpenOptions) (path : Path) :
    ∃ opened, (∀ paths result, Opens files options 0 path paths result ↔
        paths = opened ∧ result = Disk.open files options path) ∧
      opened.length ≤ 65 ∧
      (∀ d, Disk.open files options path = .ok d →
        opened = d.levels.map Level.path ∧ d.depth ≤ 65 ∧ Linked options d.levels) ∧
      ∀ trail : Nat → Path, trail 0 = path →
        (∀ i < 65, LeadsTo files options (trail i) (trail (i + 1))) →
        opened = (List.range 65).map trail ∧
          Disk.open files options path = .error (.limit (.chainDepth 64)) := by
  obtain ⟨opened, hopens, hlength⟩ := @opens_openWithin files options 0 65 rfl path
  refine ⟨opened, ?_, hlength, ?_, ?_⟩
  · intro paths result
    constructor
    · exact hopens.unique
    · rintro ⟨rfl, rfl⟩
      exact hopens
  · intro d hd
    have hresult : Disk.openWithin files options 65 path = .ok d := hd
    rw [hresult] at hopens
    obtain ⟨hpaths, hlinked⟩ := hopens.linked
    refine ⟨hpaths, ?_, hlinked⟩
    rw [hpaths, List.length_map] at hlength
    exact hlength
  · rintro trail rfl ht
    obtain ⟨hpaths, hresult⟩ := hopens.unique (opens_trail ht (show 0 + 65 = 65 from rfl))
    rw [List.range_eq_range']
    exact ⟨hpaths.symm, hresult.symm⟩

def selfParent : Draft :=
  Draft.noBlock .differencing Draft.isSparse_differencing baseId 1024 Draft.twoSectors_le_safeNumber
    Draft.twoSectors 1 Draft.oneEntry_le

theorem leadsTo_selfParent (hv : options.verifyChecksums = false) :
    LeadsTo (Files.pair selfParent.file selfParent.file) options ⟨"b"⟩ ⟨"b"⟩ := by
  have hread : Level.read (Files.pair selfParent.file selfParent.file) options ⟨"b"⟩
      = .ok (selfParent.level options ⟨"b"⟩ [['b']]) :=
    Draft.read_level hv (openFile_base _ _) (contents_base _ _)
  refine ⟨_, selfParent.header, _, hread, ?_,
    Draft.find_named nameOf_storedName rfl (holds_base _ _) (contents_base _ _)⟩
  exact parentHeader?_eq_some.mpr ⟨decide_eq_true rfl, _, rfl, rfl⟩

/-- A pair opens as a chain of two, and an image that names itself as its parent is
opened 65 times. -/
theorem opens_bounded_selfParent :
    (∃ d : Disk, d.depth = 2 ∧ Linked DiskStream.unchecked d.levels ∧
      Opens (DiskStream.mixedPair 1024 (by decide)).files DiskStream.unchecked 0 ⟨"c"⟩
        (d.levels.map Level.path) (.ok d)) ∧
    Opens (Files.pair selfParent.file selfParent.file) DiskStream.unchecked 0 ⟨"b"⟩
      (List.replicate 65 ⟨"b"⟩) (.error (.limit (.chainDepth 64))) := by
  constructor
  · have hunchecked : DiskStream.unchecked.verifyChecksums = false := rfl
    have hopen := (DiskStream.mixedPair 1024 (by decide)).open_disk hunchecked
    obtain ⟨opened, hopens, -, hlinked, -⟩ :=
      opens_bounded (DiskStream.mixedPair 1024 (by decide)).files DiskStream.unchecked ⟨"c"⟩
    obtain ⟨hpaths, -, hchain⟩ := hlinked _ hopen
    exact ⟨_, rfl, hchain, (hopens _ _).mpr ⟨hpaths.symm, hopen.symm⟩⟩
  · obtain ⟨opened, hopens, -, -, hlimit⟩ := opens_bounded
      (Files.pair selfParent.file selfParent.file) DiskStream.unchecked ⟨"b"⟩
    obtain ⟨hpaths, hresult⟩ := hlimit (fun _ => ⟨"b"⟩) rfl fun _ _ => leadsTo_selfParent rfl
    exact (hopens _ _).mpr ⟨hpaths.symm, hresult.symm⟩

end VirtualDisk
