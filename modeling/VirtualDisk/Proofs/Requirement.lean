import VirtualDisk.Proofs.FixedFooter

namespace VirtualDisk

structure Requirement where
  isMet : Bool
  fault : Error

namespace Requirement

variable {α β : Type} {r : Requirement} {rs more : List Requirement} {x : Except Error α}
  {f : α → Except Error β}

def firstFault : List Requirement → Option Error
  | [] => none
  | r :: more => if r.isMet then firstFault more else some r.fault

theorem firstFault_eq_none_iff : firstFault rs = none ↔ ∀ r ∈ rs, r.isMet = true := by
  induction rs with
  | nil => exact ⟨fun _ => List.forall_mem_nil _, fun _ => rfl⟩
  | cons r more ih =>
    rw [firstFault, List.forall_mem_cons, ← ih]
    split
    · next hr => exact (and_iff_right hr).symm
    · next hr => exact ⟨fun h => (nomatch h), fun h => absurd h.1 hr⟩

theorem firstFault_append (rs more : List Requirement) :
    firstFault (rs ++ more) = (firstFault rs).or (firstFault more) := by
  induction rs with
  | nil => rfl
  | cons r rest ih =>
    rw [List.cons_append, firstFault, firstFault, ih]
    split <;> rfl

/-- What is asked of a structure that is read, and then of what it holds. If it cannot
be read, this is its own error. -/
def ofReading (x : Except Error α) (more : α → List Requirement) : List Requirement :=
  match x with
  | .ok a => more a
  | .error e => [⟨false, e⟩]

theorem forall_ofReading_iff {more : α → List Requirement} :
    (∀ r ∈ ofReading x more, r.isMet = true) ↔ ∃ a, x = .ok a ∧ ∀ r ∈ more a, r.isMet = true := by
  cases x with
  | ok a => exact ⟨fun h => ⟨a, rfl, h⟩, fun ⟨_, ha, h⟩ => Except.ok.inj ha ▸ h⟩
  | error e =>
    refine ⟨fun h => ?_, fun ⟨_, ha, _⟩ => (nomatch ha)⟩
    cases h _ (List.mem_singleton.mpr rfl)

/-- A result that is an error just if a requirement is not met, and then that of the first. -/
def Governs (rs : List Requirement) (x : Except Error α) : Prop :=
  match x with
  | .ok _ => firstFault rs = none
  | .error e => firstFault rs = some e

theorem Governs.error_iff (h : Governs rs x) (e : Error) :
    x = .error e ↔ firstFault rs = some e := by
  cases x with
  | ok a =>
    have hnone : firstFault rs = none := h
    rw [hnone]
    exact ⟨fun hx => (nomatch hx), fun he => (nomatch he)⟩
  | error found =>
    have hsome : firstFault rs = some found := h
    rw [hsome, Except.error.injEq, Option.some.injEq]

theorem Governs.ok_iff (h : Governs rs x) : (∃ a, x = .ok a) ↔ ∀ r ∈ rs, r.isMet = true := by
  rw [← firstFault_eq_none_iff]
  cases x with
  | ok a =>
    have hnone : firstFault rs = none := h
    exact ⟨fun _ => hnone, fun _ => ⟨a, rfl⟩⟩
  | error found =>
    have hsome : firstFault rs = some found := h
    rw [hsome]
    exact ⟨fun ⟨_, hx⟩ => (nomatch hx), fun he => (nomatch he)⟩

protected theorem Governs.map (h : Governs rs x) (g : α → β) : Governs rs (x.map g) := by
  cases x <;> exact h

protected theorem Governs.bind_ok (h : Governs rs x) (g : α → β) :
    Governs rs (x >>= fun a => .ok (g a)) := by
  cases x <;> exact h

theorem governs_ok (a : α) : Governs [] (.ok a : Except Error α) := rfl

theorem governs_cons (hfail : r.isMet = false → x = .error r.fault)
    (hmet : r.isMet = true → Governs more x) : Governs (r :: more) x := by
  cases hr : r.isMet with
  | false =>
    rw [hfail hr]
    exact (if_neg (Bool.eq_false_iff.mp hr) : firstFault (r :: more) = some r.fault)
  | true =>
    have hskip : firstFault (r :: more) = firstFault more := if_pos hr
    have hmore := hmet hr
    unfold Governs at hmore ⊢
    rwa [hskip]

theorem governs_append (hfail : ∀ e, firstFault rs = some e → x = .error e)
    (hmet : firstFault rs = none → Governs more x) : Governs (rs ++ more) x := by
  have happend := firstFault_append rs more
  cases hrs : firstFault rs with
  | none =>
    rw [hrs, Option.none_or] at happend
    have hmore := hmet hrs
    unfold Governs at hmore ⊢
    rwa [happend]
  | some e =>
    rw [hrs, Option.some_or] at happend
    rw [hfail e hrs]
    exact happend

/-- One after the other. -/
protected theorem Governs.bind (h : Governs rs x) (hf : ∀ a, x = .ok a → Governs more (f a)) :
    Governs (rs ++ more) (x >>= f) := by
  cases x with
  | ok a =>
    have hnone : firstFault rs = none := h
    refine governs_append (fun e he => ?_) fun _ => hf a rfl
    cases hnone.symm.trans he
  | error e =>
    have hsome : firstFault rs = some e := h
    refine governs_append (fun e' he => ?_) fun hn => ?_
    · cases hsome.symm.trans he
      rfl
    · cases hsome.symm.trans hn

theorem governs_ofReading {more : α → List Requirement}
    (h : ∀ a, x = .ok a → Governs (more a) (f a)) : Governs (ofReading x more) (x >>= f) := by
  cases x with
  | ok a => exact h a rfl
  | error e => rfl

theorem governs_ite {c : Prop} [Decidable c] {e : Error}
    (h : c → Governs more x) : Governs (⟨decide c, e⟩ :: more) (if c then x else .error e) := by
  apply governs_cons
  · intro hc
    exact if_neg (of_decide_eq_false hc)
  · intro hc
    rw [if_pos (of_decide_eq_true hc)]
    exact h (of_decide_eq_true hc)

end Requirement

open Requirement

section stages

variable {β : Type} {options : OpenOptions} {path : Path} {contents : ByteArray}

theorem governs_lastFooter {f : Footer → Except Error β} {more : Footer → List Requirement}
    (h : ∀ footer, Footer.parse (slice contents (contents.size - 512) 512) = .ok footer →
      Governs (more footer) (f footer)) :
    Governs (⟨decide (512 ≤ contents.size), .format .fileTooSmall⟩ ::
      ofReading (Footer.parse (slice contents (contents.size - 512) 512)) more)
      (lastFooter contents >>= f) := by
  have hlast : lastFooter contents >>= f = if 512 ≤ contents.size then
      Footer.parse (slice contents (contents.size - 512) 512) >>= f
      else .error (.format .fileTooSmall) := by
    unfold lastFooter Footer.size
    by_cases hsize : 512 ≤ contents.size
    · rw [if_pos hsize, if_neg (Nat.not_lt.mpr hsize)]
    · rw [if_neg hsize, if_pos (Nat.lt_of_not_le hsize)]
      rfl
  rw [hlast]
  exact governs_ite fun _ => governs_ofReading h

theorem governs_checkIntact {isIntact : Bool} {what : String} {f : Unit → Except Error β}
    {more : List Requirement} (h : Governs more (f ())) :
    Governs (⟨decide (options.verifyChecksums = true → isIntact = true),
      .checksum (.mismatch what path)⟩ :: more)
      (options.checkIntact isIntact what path >>= f) := by
  have hcheck : options.checkIntact isIntact what path >>= f
      = if options.verifyChecksums = true → isIntact = true then f ()
        else .error (.checksum (.mismatch what path)) := by
    unfold OpenOptions.checkIntact
    cases options.verifyChecksums <;> cases isIntact <;> rfl
  rw [hcheck]
  exact governs_ite fun _ => h

theorem governs_readAt {offset length : Nat} {what : String} {f : ByteArray → Except Error β}
    {more : List Requirement} {c : Prop} [Decidable c]
    (hc : c ↔ length = 0 ∨ offset + length ≤ contents.size)
    (h : c → Governs more (f (slice contents offset length))) :
    Governs (⟨decide c, .format (.shortRead what length offset)⟩ :: more)
      (readAt contents offset length what >>= f) := by
  have hread : readAt contents offset length what >>= f
      = if c then f (slice contents offset length)
        else .error (.format (.shortRead what length offset)) := by
    rw [readAt_eq]
    by_cases hfits : c
    · rw [if_pos hfits, if_pos (hc.mp hfits).symm]
      rfl
    · rw [if_neg hfits, if_neg fun hn => hfits (hc.mpr hn.symm)]
      rfl
  rw [hread]
  exact governs_ite h

end stages

namespace ParentLocator

def requirements (contents : ByteArray) (l : ParentLocator) : List Requirement :=
  [⟨decide (l.length ≤ 65536), .limit (.locatorLength l.code.toList l.length 65536)⟩,
    ⟨decide (l.offset ≤ 9007199254740991), .precision (.locatorOffset l.offset)⟩,
    ⟨decide (l.offset + l.length ≤ contents.size),
      .format (.shortRead "parent locator data" l.length l.offset)⟩]

theorem governs_load {contents : ByteArray} {l : ParentLocator} (h : l.isEmpty = false) :
    Governs (l.requirements contents) (l.load contents) := by
  have hload : l.load contents = if l.length ≤ 65536 then
      if l.offset ≤ 9007199254740991 then
        readAt contents l.offset l.length "parent locator data" >>= fun bytes =>
          .ok { l with text := some (decode l.code bytes.data.toList) }
      else .error (.precision (.locatorOffset l.offset))
      else .error (.limit (.locatorLength l.code.toList l.length 65536)) := by
    unfold load Limits.locatorLength Limits.safeNumber
    rw [h, if_neg Bool.false_ne_true]
    simp only [← Nat.not_le, ite_not]
    rfl
  have hlength : l.length ≠ 0 := by
    intro hzero
    rw [isEmpty, hzero, beq_self_eq_true, Bool.or_true] at h
    cases h
  rw [hload]
  exact governs_ite fun _ => governs_ite fun _ =>
    governs_readAt (or_iff_right hlength).symm fun _ => governs_ok _

/-- Loading stops at the first locator in use that does not meet what is asked of it. -/
theorem loadAll_eq (contents : ByteArray) (locators : List ParentLocator) :
    (loadAll contents locators).2
      = firstFault ((locators.filter fun l => !l.isEmpty).flatMap (requirements contents)) := by
  induction locators with
  | nil => rfl
  | cons l rest ih =>
    rw [loadAll, List.filter_cons]
    cases hl : l.isEmpty with
    | true =>
      have hload : l.load contents = .ok l := by rw [load, if_pos hl]
      rw [hload]
      exact ih
    | false =>
      rw [Bool.not_false, if_pos rfl, List.flatMap_cons, firstFault_append, ← ih]
      have hgoverns := @governs_load contents l hl
      cases hload : l.load contents with
      | ok loaded =>
        rw [hload] at hgoverns
        have hnone : firstFault (l.requirements contents) = none := hgoverns
        rw [hnone]
        rfl
      | error e =>
        rw [hload] at hgoverns
        have hsome : firstFault (l.requirements contents) = some e := hgoverns
        rw [hsome]
        rfl

end ParentLocator

namespace SparseHeader

theorem tableLength_lt {bytes : ByteArray} {header : SparseHeader}
    (h : SparseHeader.parse bytes = .ok header) : header.tableLength < 4294967296 := by
  unfold SparseHeader.parse at h
  split at h
  · unfold ofBlock at h
    simp only at h
    split at h
    · cases h
    · obtain ⟨_, -, h⟩ := bind_eq_ok.mp h
      obtain ⟨_, -, h⟩ := bind_eq_ok.mp h
      obtain ⟨_, -, h⟩ := bind_eq_ok.mp h
      cases h
      exact number_lt _ _
  · cases h

def loaded (contents : ByteArray) (type : DiskType) (h : SparseHeader) : SparseHeader :=
  if type = .differencing then (h.loadLocators contents).1 else h

def loading (contents : ByteArray) (type : DiskType) (h : SparseHeader) :
    Except Error SparseHeader :=
  if type = .differencing then
    match h.loadLocators contents with
    | (loaded, none) => .ok loaded
    | (_, some e) => .error e
  else .ok h

theorem loaded_of_loading {contents : ByteArray} {type : DiskType} {h found : SparseHeader}
    (hl : h.loading contents type = .ok found) : h.loaded contents type = found := by
  unfold loaded
  unfold loading at hl
  split at hl
  · next ht =>
    rw [if_pos ht]
    split at hl
    · next hload =>
      rw [hload]
      exact Except.ok.inj hl
    · cases hl
  · next ht =>
    rw [if_neg ht]
    exact Except.ok.inj hl

def tableRequirements (contents : ByteArray) (h : SparseHeader) : List Requirement :=
  [⟨decide (4 * h.tableLength ≤ 268435456),
      .limit (.allocation "BAT" (4 * h.tableLength) 268435456)⟩,
    ⟨decide (h.tableLength = 0 ∨ h.tableOffset + 4 * h.tableLength ≤ contents.size),
      .format (.shortRead "block allocation table" (4 * h.tableLength) h.tableOffset)⟩]

theorem governs_readTable {contents : ByteArray} {h : SparseHeader}
    (hlt : h.tableLength < 4294967296) :
    Governs (h.tableRequirements contents) (BlockTable.read contents h) := by
  have hproduct : Limits.checkProduct h.tableLength 4 "BAT size" = .ok (4 * h.tableLength) := by
    rw [Limits.checkProduct, Limits.machineWord, if_pos (by omega), Nat.mul_comm]
  have hread : BlockTable.read contents h = if 4 * h.tableLength ≤ 268435456 then
      readAt contents h.tableOffset (4 * h.tableLength) "block allocation table" >>= fun bytes =>
        BlockTable.parse bytes h.blockSize.bytes h.blockSize.bytes_pos
      else .error (.limit (.allocation "BAT" (4 * h.tableLength) 268435456)) := by
    unfold BlockTable.read Limits.checkAllocation Limits.allocation
    rw [hproduct]
    by_cases hle : 4 * h.tableLength ≤ 268435456
    · simp only [bind, Except.bind, if_pos hle, if_neg (Nat.not_lt.mpr hle)]
    · simp only [bind, Except.bind, if_neg hle, if_pos (Nat.lt_of_not_le hle)]
  have hfits : h.tableLength = 0 ∨ h.tableOffset + 4 * h.tableLength ≤ contents.size ↔
      4 * h.tableLength = 0 ∨ h.tableOffset + 4 * h.tableLength ≤ contents.size := by
    omega
  rw [hread]
  refine governs_ite fun _ => governs_readAt hfits fun hin => ?_
  have hsize : (slice contents h.tableOffset (4 * h.tableLength)).size % 4 = 0 := by
    rw [size_slice]
    omega
  rw [BlockTable.parse, if_neg (not_not_intro hsize)]
  exact governs_ok _

def requirements (o : OpenOptions) (path : Path) (contents : ByteArray) (type : DiskType)
    (h : SparseHeader) : List Requirement :=
  ⟨decide (o.verifyChecksums = true → h.isIntact = true),
      .checksum (.mismatch "dynamic header" path)⟩ ::
    ((if type = .differencing then h.activeLocators.flatMap (ParentLocator.requirements contents)
      else []) ++ h.tableRequirements contents)

end SparseHeader

namespace Level

variable {files : Files} {options : OpenOptions} {path : Path} {place : Place}

def sparseRequirements (o : OpenOptions) (path : Path) (contents : ByteArray) (footer : Footer) :
    List Requirement :=
  match footer.dataOffset with
  | none => [⟨false, .format .noHeaderOffset⟩]
  | some d =>
    ⟨decide (d + 1024 ≤ contents.size), .format (.shortRead "dynamic header" 1024 d)⟩ ::
      ofReading (SparseHeader.parse (slice contents d 1024))
        (SparseHeader.requirements o path contents footer.diskType)

def typeRequirements (o : OpenOptions) (path : Path) (contents : ByteArray) (footer : Footer) :
    List Requirement :=
  match footer.diskType with
  | .fixed => [⟨decide (footer.currentSize + 512 ≤ contents.size),
      .format (.fixedTooShort contents.size (footer.currentSize + 512))⟩]
  | .dynamic | .differencing => sparseRequirements o path contents footer
  | type => [⟨false, .unsupported (.diskType type)⟩]

/-- All that is asked of the file of an image, in this order. -/
def requirements (o : OpenOptions) (path : Path) (contents : ByteArray) : List Requirement :=
  ⟨decide (512 ≤ contents.size), .format .fileTooSmall⟩ ::
    ofReading (Footer.parse (slice contents (contents.size - 512) 512)) fun footer =>
      ⟨decide (o.verifyChecksums = true → footer.isIntact = true),
          .checksum (.mismatch "footer" path)⟩ ::
        typeRequirements o path contents footer

theorem governs_loading (contents : ByteArray) (type : DiskType) (header : SparseHeader) :
    Governs (if type = .differencing then
        header.activeLocators.flatMap (ParentLocator.requirements contents) else [])
      (header.loading contents type) := by
  unfold SparseHeader.loading
  split
  · have hload : (header.loadLocators contents).2
        = firstFault (header.activeLocators.flatMap (ParentLocator.requirements contents)) :=
      ParentLocator.loadAll_eq contents header.locators
    split
    · next loaded hl =>
      rw [hl] at hload
      exact hload.symm
    · next e hl =>
      rw [hl] at hload
      exact hload.symm
  · exact governs_ok header

theorem governs_loadLocators {β : Type} {contents : ByteArray} {type : DiskType}
    {header : SparseHeader} {f : SparseHeader → Except Error β} {more : List Requirement}
    (h : Governs more (f (header.loaded contents type))) :
    Governs ((if type = .differencing then
        header.activeLocators.flatMap (ParentLocator.requirements contents) else []) ++ more)
      (header.loading contents type >>= f) := by
  refine (governs_loading contents type header).bind fun found hfound => ?_
  rwa [← SparseHeader.loaded_of_loading hfound]

theorem governs_readSparse {contents : ByteArray} {footer : Footer} :
    Governs (sparseRequirements options path contents footer)
      (SparseLayout.read options path contents footer) := by
  unfold sparseRequirements SparseLayout.read SparseLayout.readHeader
  cases footer.dataOffset with
  | none => rfl
  | some d =>
    simp only [bind_assoc]
    refine governs_readAt (by omega) fun _ => governs_ofReading fun header hparse =>
      governs_checkIntact (governs_loadLocators ?_)
    have htable : header.tableRequirements contents
        = (header.loaded contents footer.diskType).tableRequirements contents := by
      unfold SparseHeader.loaded
      split <;> rfl
    have hlength : (header.loaded contents footer.diskType).tableLength < 4294967296 := by
      have hlt := SparseHeader.tableLength_lt hparse
      unfold SparseHeader.loaded
      split <;> exact hlt
    rw [htable]
    exact (SparseHeader.governs_readTable hlength).bind_ok _

theorem governs_readLayout {contents : ByteArray} {footer : Footer} :
    Governs (typeRequirements options path contents footer)
      (readLayout options path contents footer) := by
  unfold typeRequirements readLayout
  cases footer.diskType with
  | fixed =>
    have hfixed : (if contents.size < footer.flattenedLength then
        .error (.format (.fixedTooShort contents.size footer.flattenedLength)) else .ok none :
        Except Error (Option SparseLayout))
        = if footer.currentSize + 512 ≤ contents.size then .ok none
          else .error (.format (.fixedTooShort contents.size (footer.currentSize + 512))) := by
      simp only [← Nat.not_le, ite_not]
      rfl
    simp only [hfixed]
    exact governs_ite fun _ => governs_ok none
  | dynamic => exact governs_readSparse.map some
  | differencing => exact governs_readSparse.map some
  | _ => rfl

theorem governs_read (hp : files.openFile path = .ok place) :
    Governs (requirements options path (files.contents place)) (Level.read files options path) := by
  unfold Level.read requirements
  rw [hp]
  exact governs_lastFooter fun footer _ => governs_checkIntact (governs_readLayout.bind_ok _)

end Level

end VirtualDisk
