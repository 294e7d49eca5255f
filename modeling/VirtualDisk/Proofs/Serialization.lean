import Mathlib.Data.List.Nodup
import Mathlib.Data.List.Forall2
import VirtualDisk.Serializer
import VirtualDisk.Proofs.Document
import VirtualDisk.Proofs.Numerals
import VirtualDisk.Proofs.Timestamps

namespace VirtualDisk

/-- A document stands for a value: the value is written as the document, and the document is read
as the value. -/
structure Form.Has {α : Type} (f : Form α) (a : α) (j : Json) : Prop where
  write : f.write a = j
  read? : f.read? (some j) = some a

/-- Documents whose records and lists lie in each other no deeper than a bound. Numbers fit into
64 bits, and no name comes twice in a record. -/
inductive Json.Plain : Nat → Json → Prop
  | null {depth : Nat} : Plain depth .null
  | text {depth : Nat} (s : String) : Plain depth (.ofString s)
  | number {depth n : Nat} : n < UInt64.size → Plain depth (.ofNat n)
  | list {depth : Nat} {items : List Json} :
      (∀ j ∈ items, Plain depth j) → Plain (depth + 1) (.array items)
  | record {depth : Nat} {fields : List (String × Json)} : (fields.map Prod.fst).Nodup →
      (∀ f ∈ fields, Plain depth f.2) → Plain (depth + 1) (.ofFields fields)

/-- What the documentation of a serializer says. It writes and reads documents in the syntax of
JSON, but refuses those that are nested 128 times. A time is a text in the form of RFC 3339, and an
identifier is written in five groups of hexadecimal digits. A record is an object, and the value
null stands for nothing. -/
structure Serializer.Documented (p : Serializer) : Prop where
  writes {j : Json} : j.Plain 127 → j.IsSpelledBy (p.write j)
  reads {j : Json} {text : String} : j.Plain 127 → j.IsSpelledBy text → p.parse? text = some j
  text (s : String) : p.text.Has s (.ofString s)
  path (q : Path) : p.path.Has q (.ofString q.text)
  word32 (n : UInt32) : p.word32.Has n (.ofNat n.toNat)
  word64 (n : UInt64) : p.word64.Has n (.ofNat n.toNat)
  time (timestamp : UInt32) :
    p.time.Has (.ofTimestamp timestamp) (.ofString (Instant.ofTimestamp timestamp).textZulu)
  id (u : UniqueId) : p.id.Has u (.ofString u.text)
  none {α : Type} (f : Form α) : (p.option f).Has none .null
  some {α : Type} {f : Form α} {a : α} {j : Json} :
    f.Has a j → j ≠ .null → (p.option f).Has (some a) j
  list {α : Type} {f : Form α} {items : List α} {documents : List Json} :
    List.Forall₂ f.Has items documents → (p.list f).Has items (.array documents)
  ofFields {fields : List (String × Json)} :
    (fields.map Prod.fst).Nodup → p.ofFields fields = .ofFields fields
  fields? {names : List String} {values : List Json} : names.Nodup →
    names.length = values.length → p.fields? names (.ofFields (names.zip values))
      = Option.some (values.map Option.some)

namespace Json

theorem text?_ofString (s : String) : (ofString s).text? = some s := by
  rw [ofString, text?, Utf16.decode?_encode, Option.map_some, String.ofList_toList]

theorem member?_of_mem {fields : List (String × Json)} {name : String} {value : Json}
    (h : (fields.map Prod.fst).Nodup) (hm : (name, value) ∈ fields) :
    member? fields name = some (some value) := by
  have hfilter : fields.filter (·.1 = name) = [(name, value)] := by
    induction fields with
    | nil => cases hm
    | cons field more ih =>
      obtain ⟨hne, hmore⟩ := List.nodup_cons.mp h
      obtain rfl | hm := List.mem_cons.mp hm
      · have hrest : more.filter (·.1 = name) = [] := by
          apply List.filter_eq_nil_iff.mpr
          intro f hf heq
          exact hne (List.mem_map.mpr ⟨f, hf, of_decide_eq_true heq⟩)
        rw [List.filter_cons, if_pos (decide_eq_true rfl), hrest]
      · have hother : ¬decide (field.1 = name) = true := by
          intro heq
          exact hne (List.mem_map.mpr ⟨_, hm, (of_decide_eq_true heq).symm⟩)
        rw [List.filter_cons, if_neg hother, ih hmore hm]
  rw [member?, hfilter]

theorem fields?_ofFields {fields : List (String × Json)} (h : (fields.map Prod.fst).Nodup) :
    (ofFields fields).fields? (fields.map Prod.fst) = some (fields.map (some ∘ Prod.snd)) := by
  have hmembers (fields : List (String × Json)) :
      (fields.map fun f => (Utf16.encode f.1.toList, f.2)).mapM
        (fun m => (text? (.text m.1)).map (·, m.2)) = some fields := by
    induction fields with
    | nil => rfl
    | cons field more ih =>
      have htext : text? (.text (Utf16.encode field.1.toList)) = some field.1 := text?_ofString _
      rw [List.map_cons, List.mapM_cons, ih]
      simp only [htext]
      rfl
  have hvalues {part : List (String × Json)} (hpart : ∀ f ∈ part, f ∈ fields) :
      (part.map Prod.fst).mapM (member? fields) = some (part.map (some ∘ Prod.snd)) := by
    induction part with
    | nil => rfl
    | cons field more ih =>
      obtain ⟨hfield, hmore⟩ := List.forall_mem_cons.mp hpart
      rw [List.map_cons, List.mapM_cons, member?_of_mem h hfield, ih hmore]
      rfl
  rw [ofFields, fields?, hmembers]
  exact hvalues fun _ hf => hf

theorem fields?_zip {names : List String} {values : List Json} (h : names.Nodup)
    (hlength : names.length = values.length) :
    (ofFields (names.zip values)).fields? names = some (values.map some) := by
  have hnames : (names.zip values).map Prod.fst = names :=
    List.map_fst_zip (Nat.le_of_eq hlength)
  have hvalues : (names.zip values).map Prod.snd = values :=
    List.map_snd_zip (Nat.le_of_eq hlength.symm)
  have hfields := @fields?_ofFields (names.zip values) (hnames.symm ▸ h)
  rwa [hnames, ← List.map_map, hvalues] at hfields

theorem Plain.isProper {depth : Nat} {j : Json} (h : j.Plain depth) : j.IsProper := by
  induction h with
  | null => exact .null
  | text s => exact .text _
  | number _ => exact .number (isNumber_toDigits _)
  | list _ ih => exact .array ih
  | record _ _ ih => exact .object (List.forall_mem_map.mpr ih)

end Json

namespace Form

variable {α : Type} {f : Form α} {a : α} {j : Json}

theorem has_ofText {write : α → String} {read? : String → Option α}
    (h : read? (write a) = some a) : (ofText write read?).Has a (.ofString (write a)) := by
  refine ⟨rfl, ?_⟩
  simp only [ofText, Json.required, Json.text?_ofString, Option.bind_some, h]

theorem has_ofNumber {bound : Nat} {write : α → Nat} {read : Nat → α} (hlt : write a < bound)
    (h : read (write a) = a) : (ofNumber bound write read).Has a (.ofNat (write a)) := by
  refine ⟨rfl, ?_⟩
  simp only [ofNumber, Json.required, Json.nat?_ofNat, Option.bind_some, if_pos hlt, h]

theorem Has.nullable (h : f.Has a j) (hne : j ≠ .null) : f.nullable.Has (some a) j := by
  constructor
  · exact h.write
  · simp only [Form.nullable]
    rw [Json.nullable]
    · rw [h.read?, Option.map_some]
    · exact hne

theorem has_listed {items : List α} {documents : List Json}
    (h : List.Forall₂ f.Has items documents) : f.listed.Has items (.array documents) := by
  have hwrite : items.map f.write = documents := by
    induction h with
    | nil => rfl
    | cons ha _ ih => rw [List.map_cons, ha.write, ih]
  have hread : documents.mapM (fun j => f.read? (some j)) = some items := by
    clear hwrite
    induction h with
    | nil => rfl
    | cons ha _ ih =>
      rw [List.mapM_cons, ha.read?, ih]
      rfl
  exact ⟨congrArg Json.array hwrite, hread⟩

end Form

namespace Serializer

theorem Documented.has_record {α : Type} {p : Serializer} (h : p.Documented)
    {names : List String} {values : α → List Json} {ofValues? : List (Option Json) → Option α}
    {a : α} {documents : List Json} (hnames : names.Nodup)
    (hlength : names.length = documents.length) (hvalues : values a = documents)
    (hread : ofValues? (documents.map Option.some) = Option.some a) :
    (p.record names values ofValues?).Has a (.ofFields (names.zip documents)) := by
  have hfields : ((names.zip documents).map Prod.fst).Nodup := by
    rwa [List.map_fst_zip (Nat.le_of_eq hlength)]
  constructor
  · rw [← h.ofFields hfields, ← hvalues]
    rfl
  · simp only [record, Option.bind_some, h.fields? hnames hlength, hread]

theorem documented_standard : standard.Documented where
  writes h := Json.isSpelledBy_write h.isProper
  reads h := Json.parse?_of_isSpelledBy h.isProper
  text _ := Form.has_ofText rfl
  path _ := Form.has_ofText rfl
  word32 n := Form.has_ofNumber n.toNat_lt UInt32.ofNat_toNat
  word64 n := Form.has_ofNumber n.toNat_lt UInt64.ofNat_toNat
  time timestamp := Form.has_ofText (Instant.ofChars?_ofTimestamp timestamp)
  id u := Form.has_ofText (by rw [UniqueId.text, String.toList_ofList, UniqueId.ofChars?_toChars])
  none _ := ⟨rfl, rfl⟩
  some h hne := h.nullable hne
  list h := Form.has_listed h
  ofFields _ := rfl
  fields? h hlength := Json.fields?_zip h hlength

end Serializer

end VirtualDisk
