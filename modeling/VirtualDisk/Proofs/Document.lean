import VirtualDisk.Json.Value
import VirtualDisk.Proofs.Quotation

namespace VirtualDisk.Json

section words

variable {word chars : List Char}

theorem isWordChar_of_isDigit {c : Char} (h : c.isDigit = true) : isWordChar c = true := by
  simp [isWordChar, Char.isAlphanum, h]

theorem isWordChar_of_digits (h : ∀ c ∈ word.dropWhile Char.isDigit, isWordChar c = true) :
    ∀ c ∈ word, isWordChar c = true := by
  intro c hc
  rw [← List.takeWhile_append_dropWhile (p := Char.isDigit) (l := word), List.mem_append] at hc
  obtain hd | hrest := hc
  · exact isWordChar_of_isDigit (List.all_eq_true.mp List.all_takeWhile c hd)
  · exact h c hrest

theorem isWordChar_of_isExponent (h : isExponent word = true) :
    ∀ c ∈ word, isWordChar c = true := by
  unfold isExponent at h
  split at h
  · exact List.forall_mem_nil _
  · next e rest =>
    simp only [Bool.and_eq_true, Bool.or_eq_true, beq_iff_eq, List.all_eq_true] at h
    obtain ⟨⟨he, -⟩, hdigits⟩ := h
    have hword : isWordChar e = true := by
      obtain rfl | rfl := he
      · decide
      · decide
    refine List.forall_mem_cons.mpr ⟨hword, ?_⟩
    have hall {digits : List Char} (hd : ∀ c ∈ digits, c.isDigit = true) :
        ∀ c ∈ digits, isWordChar c = true := fun c hc => isWordChar_of_isDigit (hd c hc)
    split at hdigits
    · exact List.forall_mem_cons.mpr ⟨by decide, hall hdigits⟩
    · exact List.forall_mem_cons.mpr ⟨by decide, hall hdigits⟩
    · exact hall hdigits

theorem isWordChar_of_isFraction (h : isFraction word = true) :
    ∀ c ∈ word, isWordChar c = true := by
  unfold isFraction at h
  split at h
  · rw [Bool.and_eq_true] at h
    exact List.forall_mem_cons.mpr ⟨by decide, isWordChar_of_digits (isWordChar_of_isExponent h.2)⟩
  · exact isWordChar_of_isExponent h

theorem isWordChar_of_isNumber (h : isNumber word = true) : ∀ c ∈ word, isWordChar c = true := by
  unfold isNumber at h
  simp only [Bool.and_eq_true] at h
  obtain ⟨-, hfraction⟩ := h
  split at hfraction
  · exact List.forall_mem_cons.mpr
      ⟨by decide, isWordChar_of_digits (isWordChar_of_isFraction hfraction)⟩
  · exact isWordChar_of_digits (isWordChar_of_isFraction hfraction)

theorem takeWhile_of_ends (hw : ∀ c ∈ word, isWordChar c = true) (he : Ends chars) :
    (word ++ chars).takeWhile isWordChar = word ∧ (word ++ chars).dropWhile isWordChar = chars := by
  rw [List.takeWhile_append_of_pos hw, List.dropWhile_append_of_pos hw]
  cases chars with
  | nil => simp
  | cons c rest =>
    have hc : isWordChar c = false := he c rfl
    simp [hc]

end words

section tokens

variable {t : Token} {ts : List Token} {chars : List Char}

theorem ne_of_isWordChar {c d : Char} (hc : isWordChar c = true) (hd : isWordChar d = false) :
    c ≠ d := by
  rintro rfl
  exact Bool.false_ne_true (hd.symm.trans hc)

theorem not_mark_of_isWordChar {c : Char} (h : isWordChar c = true) :
    isBlank c = false ∧ c ≠ '"' ∧ Token.ofMark? c = none := by
  refine ⟨?_, ne_of_isWordChar h (by decide), ?_⟩
  · simp [isBlank, ne_of_isWordChar h (d := ' ') (by decide),
      ne_of_isWordChar h (d := '\t') (by decide), ne_of_isWordChar h (d := '\n') (by decide),
      ne_of_isWordChar h (d := '\r') (by decide)]
  · unfold Token.ofMark?
    split
    all_goals first | exact absurd rfl (ne_of_isWordChar h (by decide)) | rfl

theorem ne_nil_of_isNumber {literal : List Char} (h : isNumber literal = true) : literal ≠ [] := by
  rintro rfl
  cases h

theorem chars_of_ofWord? {word : List Char} (h : Token.ofWord? word = some t) :
    word ≠ [] ∧ ∀ c ∈ word, isWordChar c = true := by
  have hconstant {name : List Char} (hne : name ≠ []) (hall : name.all isWordChar = true)
      (he : word = name) : word ≠ [] ∧ ∀ c ∈ word, isWordChar c = true :=
    he ▸ ⟨hne, List.all_eq_true.mp hall⟩
  unfold Token.ofWord? at h
  split at h
  · next he => exact hconstant (by decide) (by decide) he
  · split at h
    · next he => exact hconstant (by decide) (by decide) he
    · split at h
      · next he => exact hconstant (by decide) (by decide) he
      · split at h
        · next hn => exact ⟨ne_nil_of_isNumber hn, isWordChar_of_isNumber hn⟩
        · cases h

theorem readTokens_word {word : List Char} (hw : Token.ofWord? word = some t) (he : Ends chars) :
    readTokens (word ++ chars) = (readTokens chars).map (t :: ·) := by
  obtain ⟨hne, hc⟩ := chars_of_ofWord? hw
  obtain ⟨htake, hdrop⟩ := takeWhile_of_ends hc he
  obtain ⟨c, rest, rfl⟩ := List.exists_cons_of_ne_nil hne
  have hfirst : isWordChar c = true := hc c List.mem_cons_self
  obtain ⟨hblank, hquote, hmark⟩ := not_mark_of_isWordChar hfirst
  rw [List.cons_append] at htake hdrop ⊢
  rw [List.dropWhile_cons_of_pos hfirst] at hdrop
  rw [readTokens, hblank, if_neg Bool.false_ne_true, if_neg hquote, hmark, htake, hdrop]
  simp only [hw]
  cases readTokens chars <;> rfl

theorem readTokens_mark {c : Char} (hc : Token.ofMark? c = some t) :
    readTokens (c :: chars) = (readTokens chars).map (t :: ·) := by
  have hplain : isBlank c = false ∧ c ≠ '"' := by
    unfold Token.ofMark? at hc
    split at hc
    all_goals first | decide | cases hc
  rw [readTokens, hplain.1, if_neg Bool.false_ne_true, if_neg hplain.2, hc]

theorem readTokens_text {units : List UInt16} {body : List Char} (h : SpellsUnits units body) :
    readTokens ('"' :: body ++ '"' :: chars) = (readTokens chars).map (.text units :: ·) := by
  rw [List.cons_append, readTokens, if_neg (by decide), if_pos rfl]
  split
  · next hread =>
    cases (h.read chars).symm.trans hread
    rfl
  · next hread => cases (h.read chars).symm.trans hread

theorem SpellsTokens.read (h : SpellsTokens ts chars) : readTokens chars = some ts := by
  induction h with
  | nil => rw [readTokens]
  | blank hc _ ih => rw [readTokens, if_pos hc, ih]
  | mark hc _ ih => rw [readTokens_mark hc, ih, Option.map_some]
  | word hw he _ ih => rw [readTokens_word hw he, ih, Option.map_some]
  | text hu _ ih => rw [readTokens_text hu, ih, Option.map_some]

end tokens

/-- In front of anything but a word, these tokens stand as they are written. -/
def Spelled (tokens : List Token) : Prop := ∀ more chars, Ends chars → SpellsTokens more chars →
  SpellsTokens (tokens ++ more) (writeTokens tokens ++ chars)

section spelled

variable {t : Token} {ts more : List Token}

theorem spelled_nil : Spelled [] := fun _ _ _ h => h

/-- A token that is not a word stands as it is written in front of anything. -/
def Token.IsMark (t : Token) : Prop := ∀ more chars,
  Ends (t.chars ++ chars) ∧ (SpellsTokens more chars → SpellsTokens (t :: more) (t.chars ++ chars))

theorem isMark_of_ofMark? {c : Char} (hc : Token.ofMark? c = some t) (ht : t.chars = [c]) :
    t.IsMark := by
  intro more chars
  rw [ht]
  constructor
  · rintro _ ⟨⟩
    unfold Token.ofMark? at hc
    split at hc
    all_goals first | decide | cases hc
  · exact .mark hc

theorem isMark_text (units : List UInt16) : (Token.text units).IsMark := by
  intro more chars
  constructor
  · rintro _ ⟨⟩
    decide
  · intro h
    have htext := h.text (spells_writeUnits units)
    rwa [List.append_cons] at htext

theorem spelled_word (h : Token.ofWord? t.chars = some t) : Spelled [t] := by
  intro more chars he hmore
  have hchars : writeTokens [t] = t.chars := List.append_nil _
  rw [hchars]
  exact .word h he hmore

theorem Spelled.append_mark (hts : Spelled ts) (ht : t.IsMark) (hmore : Spelled more) :
    Spelled (ts ++ t :: more) := by
  intro rest chars he h
  have hchars : writeTokens (ts ++ t :: more) ++ chars
      = writeTokens ts ++ (t.chars ++ (writeTokens more ++ chars)) := by
    simp [writeTokens]
  obtain ⟨hends, hmark⟩ := ht (more ++ rest) (writeTokens more ++ chars)
  rw [hchars, List.append_assoc]
  exact hts _ _ hends (hmark (hmore rest chars he h))

theorem Spelled.cons_mark (hmore : Spelled more) (ht : t.IsMark) : Spelled (t :: more) :=
  spelled_nil.append_mark ht hmore

theorem Spelled.separated {lists : List (List Token)} (h : ∀ ts ∈ lists, Spelled ts) :
    Spelled (separated lists) := by
  fun_induction Json.separated lists with
  | case1 => exact spelled_nil
  | case2 ts => exact h ts (List.mem_singleton_self ts)
  | case3 ts rest _ ih =>
    obtain ⟨hts, hrest⟩ := List.forall_mem_cons.mp h
    exact hts.append_mark (isMark_of_ofMark? rfl rfl) (ih hrest)

end spelled

theorem ofWord?_of_isNumber {literal : List Char} (h : isNumber literal = true) :
    Token.ofWord? (Token.number literal).chars = some (.number literal) := by
  have hne {word : List Char} (hw : isNumber word = false) : literal ≠ word := by
    rintro rfl
    exact Bool.false_ne_true (hw.symm.trans h)
  have hchars : (Token.number literal).chars = literal := rfl
  rw [hchars, Token.ofWord?, if_neg (hne (by decide)), if_neg (hne (by decide)),
    if_neg (hne (by decide)), if_pos h]

inductive IsProper : Json → Prop
  | null : IsProper .null
  | bool (value : Bool) : IsProper (.bool value)
  | number {literal : List Char} : isNumber literal = true → IsProper (.number literal)
  | text (units : List UInt16) : IsProper (.text units)
  | array {items : List Json} : (∀ j ∈ items, IsProper j) → IsProper (.array items)
  | object {members : List (List UInt16 × Json)} : (∀ m ∈ members, IsProper m.2) →
      IsProper (.object members)

theorem IsProper.spelled {j : Json} (h : j.IsProper) : Spelled j.tokens := by
  induction h with
  | null =>
    rw [tokens]
    exact spelled_word (by decide)
  | bool value =>
    rw [tokens]
    cases value <;> exact spelled_word (by decide)
  | number hn =>
    rw [tokens]
    exact spelled_word (ofWord?_of_isNumber hn)
  | text units =>
    rw [tokens]
    exact spelled_nil.cons_mark (isMark_text units)
  | @array items _ ih =>
    rw [tokens]
    have hitems : Spelled (separated (items.map tokens)) :=
      Spelled.separated (List.forall_mem_map.mpr ih)
    exact (hitems.cons_mark (isMark_of_ofMark? rfl rfl)).append_mark (isMark_of_ofMark? rfl rfl)
      spelled_nil
  | @object members _ ih =>
    rw [tokens]
    have hmembers : Spelled (separated (members.map fun m => .text m.1 :: .colon :: tokens m.2)) :=
      Spelled.separated (List.forall_mem_map.mpr fun m hm =>
        ((ih m hm).cons_mark (isMark_of_ofMark? rfl rfl)).cons_mark (isMark_text m.1))
    exact (hmembers.cons_mark (isMark_of_ofMark? rfl rfl)).append_mark (isMark_of_ofMark? rfl rfl)
      spelled_nil

section run

variable {frames : List Frame} {rest : List Token}

def Completes (j : Json) : Prop := ∀ frames rest,
  run .value frames (j.tokens ++ rest) = run (.complete j) frames rest

/-- The machine takes what stands between two marks, with a comma between each two parts
and what came before on its stack. -/
theorem run_separated {α : Type} {write : α → List Token} {state : List α → State}
    {stack : List α → List Frame} {done : List α → Json} {close : Token} {items before : List α}
    (hcomma : ∀ a ∈ items, ∀ before rest,
      run (state before) (stack before) (write a ++ .comma :: rest)
        = run (state (a :: before)) (stack (a :: before)) rest)
    (hclose : ∀ a ∈ items, ∀ before rest,
      run (state before) (stack before) (write a ++ close :: rest)
        = run (.complete (done (a :: before).reverse)) frames rest)
    (hne : items ≠ []) :
    run (state before) (stack before) (separated (items.map write) ++ close :: rest)
      = run (.complete (done (before.reverse ++ items))) frames rest := by
  induction items generalizing before with
  | nil => exact absurd rfl hne
  | cons a more ih =>
    obtain ⟨hfirst, hcomma⟩ := List.forall_mem_cons.mp hcomma
    obtain ⟨hlast, hclose⟩ := List.forall_mem_cons.mp hclose
    have hreverse (tail : List α) : before.reverse ++ a :: tail
        = (a :: before).reverse ++ tail := by
      rw [List.reverse_cons, List.append_assoc, List.singleton_append]
    cases more with
    | nil =>
      rw [hreverse, List.append_nil]
      exact hlast before rest
    | cons next more =>
      rw [hreverse, ← ih hcomma hclose (List.cons_ne_nil _ _), ← hfirst, List.map_cons,
        List.map_cons, separated, List.append_assoc]
      · rfl
      · exact fun hn => (nomatch hn)

theorem run_array {items : List Json} (h : ∀ j ∈ items, j.Completes) (hne : items ≠ []) :
    run .value (.array [] :: frames) (separated (items.map tokens) ++ .closeArray :: rest)
      = run (.complete (.array items)) frames rest :=
  @run_separated frames rest Json tokens (fun _ => .value) (fun before => .array before :: frames)
    .array .closeArray items [] (fun j hj _ _ => h j hj _ _) (fun j hj _ _ => h j hj _ _) hne

theorem run_object {members : List (List UInt16 × Json)} (h : ∀ m ∈ members, m.2.Completes)
    (hne : members ≠ []) :
    run (.key []) frames
        (separated (members.map fun m => .text m.1 :: .colon :: m.2.tokens) ++ .closeObject :: rest)
      = run (.complete (.object members)) frames rest :=
  @run_separated frames rest (List UInt16 × Json) (fun m => .text m.1 :: .colon :: m.2.tokens) .key
    (fun _ => frames) .object .closeObject members []
    (fun m hm _ _ => h m hm _ _) (fun m hm _ _ => h m hm _ _) hne

theorem exists_separated (ts : List Token) (lists : List (List Token)) :
    ∃ tail, separated (ts :: lists) = ts ++ tail := by
  cases lists with
  | nil => exact ⟨[], (List.append_nil ts).symm⟩
  | cons more lists => exact ⟨.comma :: separated (more :: lists), rfl⟩

/-- The first item of an array is a value like any other, since none starts with the mark
that ends an array. -/
theorem run_firstItem (j : Json) (lists : List (List Token)) :
    run .firstItem frames (separated (j.tokens :: lists) ++ rest)
      = run .value (.array [] :: frames) (separated (j.tokens :: lists) ++ rest) := by
  obtain ⟨tail, htail⟩ := exists_separated j.tokens lists
  rw [htail]
  cases j <;> rw [tokens] <;> rfl

theorem run_firstKey (key : List UInt16) (value : List Token) (lists : List (List Token)) :
    run .firstKey frames (separated ((.text key :: value) :: lists) ++ rest)
      = run (.key []) frames (separated ((.text key :: value) :: lists) ++ rest) := by
  obtain ⟨tail, htail⟩ := exists_separated (.text key :: value) lists
  rw [htail]
  rfl

theorem IsProper.completes {j : Json} (h : j.IsProper) : j.Completes := by
  induction h with
  | null | bool | number | text =>
    intro frames rest
    rw [tokens]
    rfl
  | @array items _ ih =>
    intro frames rest
    rw [tokens]
    cases items with
    | nil => rfl
    | cons j more =>
      rw [List.append_assoc]
      exact (run_firstItem j _).trans (run_array ih (List.cons_ne_nil _ _))
  | @object members _ ih =>
    intro frames rest
    rw [tokens]
    cases members with
    | nil => rfl
    | cons m more =>
      rw [List.append_assoc]
      exact (run_firstKey m.1 _ _).trans (run_object ih (List.cons_ne_nil _ _))

end run

/-- What is written of a document stands for it in the syntax of JSON. -/
theorem isSpelledBy_write {j : Json} (h : j.IsProper) : j.IsSpelledBy j.write := by
  have hspelled := h.spelled [] [] (fun _ hc => (nomatch hc)) .nil
  rw [List.append_nil, List.append_nil] at hspelled
  rw [IsSpelledBy, write, String.toList_ofList]
  exact hspelled

/-- A document is read from all that stands for it in the syntax of JSON. -/
theorem parse?_of_isSpelledBy {j : Json} {text : String} (h : j.IsProper)
    (hspelled : j.IsSpelledBy text) : parse? text = some j := by
  have hrun := h.completes [] []
  rw [List.append_nil] at hrun
  rw [parse?, SpellsTokens.read hspelled]
  exact hrun

end VirtualDisk.Json
