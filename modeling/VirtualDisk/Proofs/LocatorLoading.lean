import Mathlib.Data.List.Forall2
import VirtualDisk.Proofs.Layout

namespace VirtualDisk

namespace ParentLocator

variable {contents : ByteArray} {l : ParentLocator} {ls before after : List ParentLocator}

/-- The text is within the limits and lies in the file. -/
structure IsLoadable (contents : ByteArray) (l : ParentLocator) : Prop where
  length_le : l.length ≤ 65536
  offset_le : l.offset ≤ 9007199254740991
  within : l.offset + l.length ≤ contents.size

instance (contents : ByteArray) (l : ParentLocator) : Decidable (l.IsLoadable contents) :=
  decidable_of_iff (l.length ≤ 65536 ∧ l.offset ≤ 9007199254740991 ∧
    l.offset + l.length ≤ contents.size)
    ⟨fun ⟨hlength, hoffset, hfile⟩ => ⟨hlength, hoffset, hfile⟩,
      fun h => ⟨h.length_le, h.offset_le, h.within⟩⟩

/-- Nothing keeps the locator from being loaded: it is not in use, or its text can be read. -/
def Loads (contents : ByteArray) (l : ParentLocator) : Prop :=
  l.isEmpty = false → l.IsLoadable contents

instance (contents : ByteArray) (l : ParentLocator) : Decidable (l.Loads contents) :=
  inferInstanceAs (Decidable (_ → _))

/-- Why a text cannot be loaded. The limits are checked before the file is read. -/
def loadFault (l : ParentLocator) : Error :=
  if 65536 < l.length then .limit (.locatorLength l.code.toList l.length 65536)
  else if 9007199254740991 < l.offset then .precision (.locatorOffset l.offset)
  else .format (.shortRead "parent locator data" l.length l.offset)

def withText (contents : ByteArray) (l : ParentLocator) : ParentLocator :=
  if l.isEmpty then l
  else { l with text := some (decode l.code (bytesAt contents l.offset l.length)) }

theorem withText_of_empty (h : l.isEmpty = true) : l.withText contents = l := if_pos h

theorem withText_of_used (h : l.isEmpty = false) : l.withText contents
    = { l with text := some (decode l.code (bytesAt contents l.offset l.length)) } :=
  if_neg (by rw [h]; exact Bool.false_ne_true)

theorem text_only_withText (contents : ByteArray) (l : ParentLocator) :
    l.withText contents = { l with text := (l.withText contents).text } := by
  cases h : l.isEmpty with
  | true => rw [withText_of_empty h]
  | false => rw [withText_of_used h]

theorem withText_withText (contents : ByteArray) (l : ParentLocator) :
    (l.withText contents).withText contents = l.withText contents := by
  cases h : l.isEmpty with
  | true => rw [withText_of_empty h, withText_of_empty h]
  | false =>
    rw [withText_of_used h]
    exact withText_of_used h

theorem loads_withText_iff : (l.withText contents).Loads contents ↔ l.Loads contents := by
  rw [text_only_withText]
  exact ⟨fun h hu => ⟨(h hu).length_le, (h hu).offset_le, (h hu).within⟩,
    fun h hu => ⟨(h hu).length_le, (h hu).offset_le, (h hu).within⟩⟩

theorem load_of_loads (h : l.Loads contents) : l.load contents = .ok (l.withText contents) := by
  cases hu : l.isEmpty with
  | true => rw [load, if_pos hu, withText_of_empty hu]
  | false =>
    obtain ⟨hlength, hoffset, hfile⟩ := h hu
    have hlimit : ¬Limits.locatorLength < l.length := Nat.not_lt.mpr hlength
    have hsafe : ¬Limits.safeNumber < l.offset := Nat.not_lt.mpr hoffset
    have hbytes : (slice contents l.offset l.length).data.toList
        = bytesAt contents l.offset l.length := octets_slice _ _ _
    rw [load, hu, if_neg Bool.false_ne_true, if_neg hlimit, if_neg hsafe, readAt_eq,
      if_pos (.inl hfile), withText_of_used hu, ← hbytes]
    rfl

theorem used_of_not_loads (h : ¬l.Loads contents) :
    l.isEmpty = false ∧ ¬l.IsLoadable contents :=
  Classical.not_imp.mp h

theorem load_of_not_loads (h : ¬l.Loads contents) : l.load contents = .error l.loadFault := by
  obtain ⟨hu, hnot⟩ := used_of_not_loads h
  rw [load, hu, if_neg Bool.false_ne_true, loadFault]
  by_cases hlength : 65536 < l.length
  · rw [if_pos hlength]
    exact if_pos hlength
  by_cases hoffset : 9007199254740991 < l.offset
  · rw [if_neg hlength, if_pos hoffset, if_neg (by exact hlength)]
    exact if_pos hoffset
  · have hzero : l.length ≠ 0 := by
      intro hzero
      rw [isEmpty, hzero, beq_self_eq_true, Bool.or_true] at hu
      cases hu
    have hcut : ¬(l.offset + l.length ≤ contents.size ∨ l.length = 0) := by
      rintro (hfile | hz)
      · exact hnot ⟨Nat.not_lt.mp hlength, Nat.not_lt.mp hoffset, hfile⟩
      · exact hzero hz
    rw [if_neg hlength, if_neg hoffset, if_neg (by exact hlength), if_neg (by exact hoffset),
      readAt_eq, if_neg hcut]
    rfl

theorem loadAll_of_loads (h : ∀ l ∈ ls, l.Loads contents) :
    loadAll contents ls = (ls.map (withText contents), none) := by
  induction ls with
  | nil => rfl
  | cons l rest ih =>
    obtain ⟨hl, hrest⟩ := List.forall_mem_cons.mp h
    rw [loadAll, load_of_loads hl, ih hrest]
    rfl

theorem loadAll_of_first (hb : ∀ k ∈ before, k.Loads contents) (hl : ¬l.Loads contents) :
    loadAll contents (before ++ l :: after)
      = (before.map (withText contents) ++ l :: after, some l.loadFault) := by
  induction before with
  | nil =>
    rw [List.nil_append, loadAll, load_of_not_loads hl]
    rfl
  | cons k rest ih =>
    obtain ⟨hk, hrest⟩ := List.forall_mem_cons.mp hb
    rw [List.cons_append, loadAll, load_of_loads hk, ih hrest]
    rfl

/-- Either all locators can be loaded, or there is a first that cannot. -/
theorem loads_or_first (contents : ByteArray) (ls : List ParentLocator) :
    (∀ l ∈ ls, l.Loads contents) ∨ ∃ before l after, ls = before ++ l :: after ∧
      (∀ k ∈ before, k.Loads contents) ∧ ¬l.Loads contents := by
  cases hfind : ls.find? fun l => decide ¬l.Loads contents with
  | none =>
    refine .inl fun l hl => ?_
    simpa using List.find?_eq_none.mp hfind l hl
  | some l =>
    obtain ⟨hl, before, after, rfl, hb⟩ := List.find?_eq_some_iff_append.mp hfind
    refine .inr ⟨before, l, after, rfl, fun k hk => ?_, of_decide_eq_true hl⟩
    simpa using hb k hk

/-- Loading once more changes nothing and comes to the same end. -/
theorem loadAll_loadAll (contents : ByteArray) (ls : List ParentLocator) :
    loadAll contents (loadAll contents ls).1 = loadAll contents ls := by
  have hloads {ks : List ParentLocator} (h : ∀ k ∈ ks, k.Loads contents) :
      ∀ k ∈ ks.map (withText contents), k.Loads contents :=
    List.forall_mem_map.mpr fun k hk => loads_withText_iff.mpr (h k hk)
  have hmap (ks : List ParentLocator) :
      (ks.map (withText contents)).map (withText contents) = ks.map (withText contents) := by
    rw [List.map_map]
    exact List.map_congr_left fun k _ => withText_withText contents k
  obtain hall | ⟨before, l, after, rfl, hb, hl⟩ := loads_or_first contents ls
  · rw [loadAll_of_loads hall, loadAll_of_loads (hloads hall), hmap]
  · rw [loadAll_of_first hb hl, loadAll_of_first (hloads hb) hl, hmap]

theorem text_only_loadAll (contents : ByteArray) (ls : List ParentLocator) :
    List.Forall₂ (fun l l' : ParentLocator => l' = { l with text := l'.text }) ls
      (loadAll contents ls).1 := by
  have hmap (ks : List ParentLocator) :
      List.Forall₂ (fun l l' : ParentLocator => l' = { l with text := l'.text }) ks
        (ks.map (withText contents)) := by
    rw [List.forall₂_map_right_iff, List.forall₂_same]
    exact fun k _ => text_only_withText contents k
  obtain hall | ⟨before, l, after, rfl, hb, hl⟩ := loads_or_first contents ls
  · rw [loadAll_of_loads hall]
    exact hmap ls
  · rw [loadAll_of_first hb hl]
    exact List.rel_append (hmap before) (List.forall₂_same.mpr fun k _ => rfl)

end ParentLocator

namespace SparseHeader

open ParentLocator

/-- What loading leaves of a header, and the error with which it ends, if it does. -/
structure LoadsCleanly (contents : ByteArray) (h : SparseHeader)
    (found : SparseHeader × Option Error) : Prop where
  succeeds_iff : found.2 = none ↔
    ∀ l ∈ h.locators, l.isEmpty = false → l.IsLoadable contents
  locators_eq : found.2 = none → found.1.locators = h.locators.map (withText contents)
  /-- The slots in front of the first that cannot be loaded hold what loading each of them
  alone gives. -/
  stops : ∀ e, found.2 = some e → ∃ before l after, h.locators = before ++ l :: after ∧
    (∀ k ∈ before, k.Loads contents ∧ k.load contents = .ok (k.withText contents)) ∧
    l.isEmpty = false ∧ ¬l.IsLoadable contents ∧ e = l.loadFault ∧
    found.1.locators = before.map (withText contents) ++ l :: after
  text_only : List.Forall₂ (fun l l' : ParentLocator => l' = { l with text := l'.text })
    h.locators found.1.locators
  locators_only : found.1 = { h with
    locators := found.1.locators, length_locators := found.1.length_locators }
  again : found.1.loadLocators contents = found

/-- Loading succeeds just if the text of each locator in use can be read. If it fails, it
leaves the loaded front, and nothing but texts ever changes. -/
theorem loads_cleanly (contents : ByteArray) (h : SparseHeader) :
    LoadsCleanly contents h (h.loadLocators contents) := by
  have hagain : (h.loadLocators contents).1.loadLocators contents = h.loadLocators contents := by
    have htwice := loadAll_loadAll contents h.locators
    unfold loadLocators
    simp only [htwice]
  have htext := text_only_loadAll contents h.locators
  obtain hall | ⟨before, l, after, hsplit, hb, hl⟩ := loads_or_first contents h.locators
  · have hfound := loadAll_of_loads hall
    have hnone : (h.loadLocators contents).2 = none := congrArg Prod.snd hfound
    constructor
    case succeeds_iff => exact ⟨fun _ => hall, fun _ => hnone⟩
    case locators_eq => exact fun _ => congrArg Prod.fst hfound
    case stops =>
      intro e he
      cases hnone.symm.trans he
    case text_only => exact htext
    case locators_only => rfl
    case again => exact hagain
  · obtain ⟨hused, hnot⟩ := used_of_not_loads hl
    have hfound : loadAll contents h.locators
        = (before.map (withText contents) ++ l :: after, some l.loadFault) := by
      rw [hsplit]
      exact loadAll_of_first hb hl
    have hsome : (h.loadLocators contents).2 = some l.loadFault := congrArg Prod.snd hfound
    constructor
    case succeeds_iff =>
      constructor
      · intro hn
        cases hn.symm.trans hsome
      · exact fun hall => absurd (hall l (hsplit ▸ by simp)) hl
    case locators_eq =>
      intro hn
      cases hn.symm.trans hsome
    case stops =>
      intro e he
      obtain rfl := Option.some.inj (hsome.symm.trans he)
      exact ⟨before, l, after, hsplit, fun k hk => ⟨hb k hk, load_of_loads (hb k hk)⟩, hused, hnot,
        rfl, congrArg Prod.fst hfound⟩
    case text_only => exact htext
    case locators_only => rfl
    case again => exact hagain

end SparseHeader

end VirtualDisk
