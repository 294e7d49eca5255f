import VirtualDisk.Path

namespace VirtualDisk

/-- Components as seen from the directory that others lead to. -/
def seenFrom (directory steps : List Component) : List Component :=
  if steps.head? = some .root ∨ directory = [] then steps
  else directory ++ steps.filter (· ≠ .here)

def lastName? (steps : List Component) : Option Component :=
  match steps.getLast? with
  | some (.name chars) => some (.name chars)
  | _ => none

namespace Path

variable {chars part : List Char} {ps : List (List Char)} {c : Component} {p q : Path}

section parts

theorem parts_ne_nil (chars : List Char) : parts chars ≠ [] := by
  cases chars with
  | nil => exact List.cons_ne_nil _ _
  | cons c rest =>
    unfold parts
    split
    · exact List.cons_ne_nil _ _
    · split <;> exact List.cons_ne_nil _ _

theorem parts_cons {c : Char} (h : c ≠ '/') (rest : List Char) :
    ∃ part more, parts rest = part :: more ∧ parts (c :: rest) = (c :: part) :: more := by
  cases hr : parts rest with
  | nil => exact absurd hr (parts_ne_nil rest)
  | cons part more => exact ⟨part, more, rfl, by rw [parts, if_neg h, hr]⟩

theorem parts_append_slash (front rest : List Char) :
    parts (front ++ '/' :: rest) = parts front ++ parts rest := by
  induction front with
  | nil => rfl
  | cons c front ih =>
    by_cases hc : c = '/'
    · rw [List.cons_append, parts, if_pos hc, ih, parts, if_pos hc]
      rfl
    · obtain ⟨part, more, hfront, hcons⟩ := parts_cons hc front
      rw [List.cons_append, parts, if_neg hc, ih, hfront, hcons]
      rfl

theorem not_mem_of_mem_parts (h : part ∈ parts chars) : '/' ∉ part := by
  induction chars generalizing part with
  | nil =>
    rw [List.mem_singleton.mp h]
    exact List.not_mem_nil
  | cons c rest ih =>
    by_cases hc : c = '/'
    · rw [parts, if_pos hc] at h
      rcases List.mem_cons.mp h with rfl | h
      · exact List.not_mem_nil
      · exact ih h
    · obtain ⟨first, more, hrest, hcons⟩ := parts_cons hc rest
      rw [hcons] at h
      rw [hrest] at ih
      rcases List.mem_cons.mp h with rfl | h
      · exact fun hm => (List.mem_cons.mp hm).elim (fun he => hc he.symm) (ih List.mem_cons_self)
      · exact ih (List.mem_cons_of_mem _ h)

theorem parts_of_not_mem (h : '/' ∉ chars) : parts chars = [chars] := by
  induction chars with
  | nil => rfl
  | cons c rest ih =>
    have hc : c ≠ '/' := Ne.symm (List.ne_of_not_mem_cons h)
    rw [parts, if_neg hc, ih (List.not_mem_of_not_mem_cons h)]

theorem parts_unparts (hne : ps ≠ []) (h : ∀ part ∈ ps, '/' ∉ part) : parts (unparts ps) = ps := by
  induction ps with
  | nil => exact absurd rfl hne
  | cons part more ih =>
    obtain ⟨hpart, hmore⟩ := List.forall_mem_cons.mp h
    cases more with
    | nil => exact parts_of_not_mem hpart
    | cons next rest =>
      rw [unparts, parts_append_slash, parts_of_not_mem hpart, ih (List.cons_ne_nil _ _) hmore]
      · rfl
      · exact fun h => (nomatch h)

end parts

def steps (chars : List Char) : List Component := (parts chars).filterMap component?

def spelled (chars : List Char) : List Component := (lead chars).1.toList ++ steps chars

theorem components_eq (p : Path) : p.components = spelled p.text.toList := rfl

section steps

theorem component?_of_isBlank (h : isBlank part = true) : component? part = none := if_pos h

theorem component?_eq_some (h : component? part = some c) :
    isBlank part = false ∧ (c = .above ∨ c = .name part ∧ part ≠ ['.', '.']) := by
  unfold component? at h
  split at h
  · cases h
  · next hb =>
    refine ⟨Bool.eq_false_iff.mpr hb, ?_⟩
    split at h
    · exact .inl (Option.some.inj h).symm
    · next hd => exact .inr ⟨(Option.some.inj h).symm, hd⟩

theorem exists_component (h : isBlank part = false) : ∃ c, component? part = some c := by
  unfold component?
  rw [if_neg (Bool.eq_false_iff.mp h)]
  split <;> exact ⟨_, rfl⟩

theorem filterMap_blanks (h : ∀ part ∈ ps, isBlank part = true) : ps.filterMap component? = [] :=
  List.filterMap_eq_nil_iff.mpr fun part hm => component?_of_isBlank (h part hm)

theorem steps_append_slash (front rest : List Char) :
    steps (front ++ '/' :: rest) = steps front ++ steps rest := by
  rw [steps, parts_append_slash, List.filterMap_append]
  rfl

theorem steps_unparts (h : ∀ part ∈ ps, '/' ∉ part) :
    steps (unparts ps) = ps.filterMap component? := by
  cases ps with
  | nil => rfl
  | cons part more => rw [steps, parts_unparts (List.cons_ne_nil _ _) h]

theorem not_here_of_mem_steps (h : c ∈ steps chars) : c ≠ .here ∧ c ≠ .root := by
  obtain ⟨part, -, hc⟩ := List.mem_filterMap.mp h
  obtain ⟨-, rfl | ⟨rfl, -⟩⟩ := component?_eq_some hc
  · exact ⟨nofun, nofun⟩
  · exact ⟨nofun, nofun⟩

end steps

section lead

theorem lead_append_slash {front : List Char} (h : front ≠ []) (rest : List Char) :
    (lead (front ++ '/' :: rest)).1 = (lead front).1 := by
  have habsolute : isAbsolute (front ++ '/' :: rest) = isAbsolute front := by
    obtain ⟨c, more, rfl⟩ := List.exists_cons_of_ne_nil h
    rfl
  have hhere : startsHere (front ++ '/' :: rest) = startsHere front := by
    obtain ⟨first, more, hfirst⟩ := List.exists_cons_of_ne_nil (parts_ne_nil front)
    rw [startsHere, startsHere, parts_append_slash, hfirst]
    rfl
  rw [lead, lead, habsolute, hhere]

theorem spelled_append_slash {front : List Char} (h : front ≠ []) (rest : List Char) :
    spelled (front ++ '/' :: rest) = spelled front ++ steps rest := by
  rw [spelled, spelled, lead_append_slash h, steps_append_slash, List.append_assoc]

theorem head?_components_eq_root_iff :
    p.components.head? = some .root ↔ isAbsolute p.text.toList = true := by
  rw [components_eq, spelled, lead]
  split
  · next h => exact ⟨fun _ => h, fun _ => rfl⟩
  · next h =>
    have hsteps : (steps p.text.toList).head? ≠ some .root :=
      fun hs => (not_here_of_mem_steps (List.mem_of_head? hs)).2 rfl
    split
    · exact ⟨fun hr => (nomatch hr), fun hr => absurd hr h⟩
    · exact ⟨fun hr => absurd hr hsteps, fun hr => absurd hr h⟩

theorem filter_components (h : isAbsolute p.text.toList = false) :
    p.components.filter (· ≠ .here) = steps p.text.toList := by
  have hsteps : (steps p.text.toList).filter (· ≠ .here) = steps p.text.toList :=
    List.filter_eq_self.mpr fun c hc => decide_eq_true (not_here_of_mem_steps hc).1
  rw [components_eq, spelled, List.filter_append, hsteps, lead, if_neg (Bool.eq_false_iff.mp h)]
  split <;> rfl

theorem components_eq_nil_iff : p.components = [] ↔ p.text = "" := by
  constructor
  · intro h
    rw [components_eq, spelled, List.append_eq_nil_iff] at h
    obtain ⟨hlead, hsteps⟩ := h
    cases hp : p.text.toList with
    | nil => exact String.toList_eq_nil_iff.mp hp
    | cons c rest =>
      rw [hp] at hlead hsteps
      by_cases hc : c = '/'
      · subst hc
        cases hlead
      · obtain ⟨part, more, -, hparts⟩ := parts_cons hc rest
        -- a first part that is not empty leads the path or names a component
        have hblank : isBlank (c :: part) = true := by
          cases hb : isBlank (c :: part) with
          | true => rfl
          | false =>
            obtain ⟨found, hfound⟩ := exists_component hb
            rw [steps, hparts, List.filterMap_cons, hfound] at hsteps
            cases hsteps
        have hhere : startsHere (c :: rest) = true := by
          rw [startsHere, hparts]
          simpa [isBlank] using hblank
        have habsolute : isAbsolute (c :: rest) = false := by simpa [isAbsolute] using hc
        rw [lead, habsolute, hhere] at hlead
        cases hlead
  · intro h
    rw [components_eq, h]
    rfl

end lead

/-- The components of a joined path are those of its second part, as seen from the first. -/
theorem components_join (p q : Path) :
    (p.join q).components = seenFrom p.components q.components := by
  unfold seenFrom
  cases hq : isAbsolute q.text.toList with
  | true => rw [if_pos (.inl (head?_components_eq_root_iff.mpr hq)), join, if_pos hq]
  | false =>
    have hroot : q.components.head? ≠ some .root := by
      rw [ne_eq, head?_components_eq_root_iff, hq]
      exact Bool.false_ne_true
    by_cases hp : p.components = []
    · have htext := components_eq_nil_iff.mp hp
      have hjoin : p.join q = q := by
        rw [join, if_neg (Bool.eq_false_iff.mp hq), htext]
        exact congrArg Path.mk (String.empty_append)
      rw [if_pos (.inr hp), hjoin]
    · have htext : p.text.toList ≠ [] :=
        fun h => hp (components_eq_nil_iff.mpr (String.toList_eq_nil_iff.mp h))
      have hempty : p.text.toList.isEmpty = false := List.isEmpty_eq_false_iff.mpr htext
      rw [if_neg (not_or.mpr ⟨hroot, hp⟩), filter_components hq, join,
        if_neg (Bool.eq_false_iff.mp hq), hempty, Bool.false_or]
      split
      · next hlast =>
        -- the slash at the end of `p` separates; without it `p` has the same components
        obtain ⟨front, hfront⟩ := List.getLast?_eq_some_iff.mp (eq_of_beq hlast)
        have hchars : (p.text ++ q.text).toList = front ++ '/' :: q.text.toList := by
          rw [String.toList_append, hfront, List.append_assoc]
          rfl
        rw [components_eq, components_eq, hchars, hfront]
        cases front with
        | nil => rfl
        | cons c front =>
          rw [spelled_append_slash (List.cons_ne_nil _ _),
            spelled_append_slash (List.cons_ne_nil _ _)]
          exact congrArg (· ++ steps q.text.toList) (List.append_nil _).symm
      · have hchars : (p.text ++ "/" ++ q.text).toList = p.text.toList ++ '/' :: q.text.toList := by
          rw [String.toList_append, String.toList_append, List.append_assoc]
          rfl
        rw [components_eq, hchars, spelled_append_slash htext]
        rfl

section directory

theorem lead_cases (chars : List Char) :
    (∃ rest, chars = '/' :: rest ∧ lead chars = (some .root, 1)) ∨
    (∃ rest more, chars = '.' :: rest ∧ parts rest = [] :: more ∧ lead chars = (some .here, 1)) ∨
    isAbsolute chars = false ∧ startsHere chars = false ∧ lead chars = (none, 0) := by
  unfold lead
  split
  · next ha =>
    obtain ⟨rest, rfl⟩ := List.head?_eq_some_iff.mp (eq_of_beq ha)
    exact .inl ⟨rest, rfl, rfl⟩
  · next ha =>
    split
    · next hh =>
      cases chars with
      | nil => cases hh
      | cons c rest =>
        have hc : c ≠ '/' := by
          rintro rfl
          exact ha rfl
        obtain ⟨part, more, hrest, hparts⟩ := parts_cons hc rest
        rw [startsHere, hparts] at hh
        cases Option.some.inj (eq_of_beq hh)
        exact .inr (.inl ⟨rest, more, rfl, hrest, rfl⟩)
    · next hh => exact .inr (.inr ⟨Bool.eq_false_iff.mpr ha, Bool.eq_false_iff.mpr hh, rfl⟩)

theorem steps_behind_lead (chars : List Char) :
    steps (chars.drop (lead chars).2) = steps chars := by
  obtain ⟨rest, rfl, hlead⟩ | ⟨rest, more, rfl, hrest, hlead⟩ | ⟨-, -, hlead⟩ := lead_cases chars
  · rw [hlead]
    exact (steps_append_slash [] rest).symm
  · have hparts : parts ('.' :: rest) = ['.'] :: more := by
      rw [parts, if_neg (by decide), hrest]
    rw [hlead]
    change steps rest = _
    rw [steps, steps, hrest, hparts]
    rfl
  · rw [hlead]
    rfl

theorem spelled_front {front more : List (List Char)}
    (hparts : parts (chars.drop (lead chars).2) = front ++ more)
    (hlast : ∀ last ∈ front.getLast?, isBlank last = false) :
    spelled (chars.take (lead chars).2 ++ unparts front)
      = (lead chars).1.toList ++ front.filterMap component? := by
  have hmem : ∀ part ∈ front, '/' ∉ part :=
    fun part hm => not_mem_of_mem_parts (hparts ▸ List.mem_append_left more hm)
  obtain ⟨rest, rfl, hlead⟩ | ⟨rest, more', rfl, hrest, hlead⟩ | ⟨ha, hh, hlead⟩ := lead_cases chars
  · rw [hlead, ← steps_unparts hmem]
    rfl
  · rw [hlead] at hparts ⊢
    cases front with
    | nil => rfl
    | cons first others =>
      obtain ⟨rfl, -⟩ := List.cons.inj (hrest.symm.trans hparts)
      cases others with
      | nil => cases hlast [] rfl
      | cons next others =>
        change spelled (['.'] ++ '/' :: unparts (next :: others)) = _
        rw [spelled_append_slash (List.cons_ne_nil _ _),
          steps_unparts fun part hm => hmem part (List.mem_cons_of_mem _ hm)]
        rfl
  · rw [hlead] at hparts ⊢
    cases front with
    | nil => rfl
    | cons first others =>
      have hwhole : parts (unparts (first :: others)) = first :: others :=
        parts_unparts (List.cons_ne_nil _ _) hmem
      change parts chars = _ at hparts
      cases chars with
      | nil =>
        obtain ⟨rfl, hnil⟩ := List.cons.inj hparts
        cases (List.append_eq_nil_iff.mp hnil.symm).1
        cases hlast [] rfl
      | cons c rest =>
        have hc : c ≠ '/' := by simpa [isAbsolute] using ha
        obtain ⟨part, others', -, hcons⟩ := parts_cons hc rest
        obtain ⟨rfl, -⟩ := List.cons.inj (hcons.symm.trans hparts)
        have habsolute : isAbsolute (unparts ((c :: part) :: others)) = false := by
          cases others <;> simpa [isAbsolute, unparts] using hc
        have hhere : startsHere (unparts ((c :: part) :: others)) = false := by
          rw [startsHere, hparts] at hh
          rw [startsHere, hwhole]
          exact hh
        change spelled (unparts ((c :: part) :: others)) = _
        rw [spelled, steps_unparts hmem, lead, habsolute, hhere]
        rfl

theorem filterMap_dropWhile (rs : List (List Char)) :
    (rs.dropWhile isBlank).filterMap component? = rs.filterMap component? := by
  have hblanks : (rs.takeWhile isBlank).filterMap component? = [] :=
    filterMap_blanks (List.all_eq_true.mp List.all_takeWhile)
  have hsplit := congrArg (List.filterMap component?)
    (List.takeWhile_append_dropWhile (p := isBlank) (l := rs))
  rwa [List.filterMap_append, hblanks] at hsplit

theorem head_dropWhile_not_blank {rs : List (List Char)} :
    ∀ part ∈ (rs.dropWhile isBlank).head?, isBlank part = false := by
  intro part hm
  have hnot := List.head?_dropWhile_not isBlank rs
  rw [hm] at hnot
  exact hnot

theorem components_ofList (text : List Char) :
    (Path.mk (String.ofList text)).components = spelled text := by
  rw [components_eq, String.toList_ofList]

def partsBack (chars : List Char) : List (List Char) :=
  (parts (chars.drop (lead chars).2)).reverse.dropWhile isBlank

theorem components_eq_partsBack (p : Path) : p.components
    = (lead p.text.toList).1.toList
      ++ ((partsBack p.text.toList).filterMap component?).reverse := by
  rw [partsBack, filterMap_dropWhile, List.filterMap_reverse, List.reverse_reverse]
  exact congrArg (_ ++ ·) (steps_behind_lead p.text.toList).symm

theorem parts_eq_of_partsBack {last : List Char} {before : List (List Char)}
    (h : partsBack chars = last :: before) :
    ∃ more, parts (chars.drop (lead chars).2) = (before.dropWhile isBlank).reverse ++ more := by
  have hback : partsBack chars <:+ (parts (chars.drop (lead chars).2)).reverse :=
    List.dropWhile_suffix isBlank
  have hbefore : before.dropWhile isBlank <:+ partsBack chars :=
    h ▸ (List.dropWhile_suffix isBlank).trans (List.suffix_cons last before)
  obtain ⟨more, hmore⟩ := List.reverse_prefix.mpr (hbefore.trans hback)
  exact ⟨more, by rw [hmore, List.reverse_reverse]⟩

theorem parent?_eq (p : Path) : p.parent? = match partsBack p.text.toList with
    | [] => if (lead p.text.toList).1 = some .here then some ⟨""⟩ else none
    | _ :: before => some ⟨String.ofList
        (p.text.toList.take (lead p.text.toList).2
          ++ unparts (before.dropWhile isBlank).reverse)⟩ := rfl

theorem components_directory (p : Path) : p.directory.components = p.components.dropLast := by
  rw [components_eq_partsBack p, directory, parent?_eq]
  cases hback : partsBack p.text.toList with
  | nil =>
    -- the path is all lead, and nothing stands before that
    have hnone : (Path.mk "").components = ((lead p.text.toList).1.toList ++ []).dropLast := by
      cases (lead p.text.toList).1 <;> rfl
    dsimp only
    split <;> exact hnone
  | cons last before =>
    have hlast : isBlank last = false :=
      head_dropWhile_not_blank last (congrArg List.head? hback)
    -- `last` gives the component that is dropped; blank parts before it go as well
    obtain ⟨c, hc⟩ := exists_component hlast
    obtain ⟨more, hparts⟩ := parts_eq_of_partsBack hback
    have hfront : ∀ part ∈ (before.dropWhile isBlank).reverse.getLast?, isBlank part = false := by
      rw [List.getLast?_reverse]
      exact head_dropWhile_not_blank
    show (Path.mk (String.ofList _)).components = _
    rw [components_ofList, spelled_front hparts hfront, List.filterMap_reverse, filterMap_dropWhile,
      List.filterMap_cons_some hc, List.reverse_cons, ← List.append_assoc, List.dropLast_concat]

end directory

section fileName

theorem spelled_part (hmem : '/' ∉ part) (h : component? part = some c) : spelled part = [c] := by
  obtain ⟨hblank, -⟩ := component?_eq_some h
  have hparts := parts_of_not_mem hmem
  have habsolute : isAbsolute part = false :=
    beq_eq_false_iff_ne.mpr fun hhead => hmem (List.mem_of_head? hhead)
  have hhere : startsHere part = false := by
    rw [startsHere, hparts]
    refine beq_eq_false_iff_ne.mpr fun hdot => ?_
    rw [Option.some.inj hdot] at hblank
    cases hblank
  rw [spelled, lead, habsolute, hhere, steps, hparts]
  exact List.filterMap_cons_some h

theorem name_mem_steps (h : .name part ∈ p.components) :
    ∃ found ∈ parts p.text.toList, component? found = some (.name part) := by
  have hsteps : .name part ∈ steps p.text.toList := by
    rw [components_eq, spelled] at h
    obtain ⟨_, _, hlead⟩ | ⟨_, _, _, _, hlead⟩ | ⟨_, _, hlead⟩ := lead_cases p.text.toList
    · rw [hlead] at h
      exact (List.mem_cons.mp h).resolve_left nofun
    · rw [hlead] at h
      exact (List.mem_cons.mp h).resolve_left nofun
    · rw [hlead] at h
      exact h
  exact List.mem_filterMap.mp hsteps

theorem components_fileName? (p : Path) :
    p.fileName?.map components = (lastName? p.components).map ([·]) := by
  rw [fileName?, lastName?]
  cases hlast : p.components.getLast? with
  | none => rfl
  | some c =>
    cases c with
    | root | here | above => rfl
    | name chars =>
      obtain ⟨part, hpart, hcomponent⟩ := name_mem_steps (List.mem_of_getLast? hlast)
      obtain rfl : chars = part := by
        obtain ⟨-, hc | ⟨hc, -⟩⟩ := component?_eq_some hcomponent
        · cases hc
        · cases hc; rfl
      exact congrArg some ((components_ofList chars).trans
        (spelled_part (not_mem_of_mem_parts hpart) hcomponent))

end fileName

end Path

end VirtualDisk
