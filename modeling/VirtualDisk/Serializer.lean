import VirtualDisk.Instant.Reading
import VirtualDisk.Json.Value
import VirtualDisk.Path
import VirtualDisk.UniqueId

namespace VirtualDisk

/-- How values of a type stand in documents. A field that a record leaves out is read as `none`. -/
structure Form (α : Type) where
  write : α → Json
  read? : Option Json → Option α

/-- What it takes to write records as documents, and to read them. Records are written and read by
the names of their fields. -/
structure Serializer where
  write : Json → String
  parse? : String → Option Json
  text : Form String
  path : Form Path
  word32 : Form UInt32
  word64 : Form UInt64
  time : Form Instant
  id : Form UniqueId
  option {α : Type} : Form α → Form (Option α)
  list {α : Type} : Form α → Form (List α)
  ofFields : List (String × Json) → Json
  fields? : List String → Json → Option (List (Option Json))

namespace Form

variable {α : Type}

def ofText (write : α → String) (read? : String → Option α) : Form α where
  write a := .ofString (write a)
  read? := Json.required fun j => j.text?.bind read?

def ofNumber (bound : Nat) (write : α → Nat) (read : Nat → α) : Form α where
  write a := .ofNat (write a)
  read? := Json.required fun j => j.nat?.bind fun n => if n < bound then some (read n) else none

def nullable (f : Form α) : Form (Option α) where
  write := Json.optional f.write
  read? := Json.nullable fun j => f.read? (some j)

def listed (f : Form α) : Form (List α) where
  write items := .array (items.map f.write)
  read?
    | some (.array items) => items.mapM fun j => f.read? (some j)
    | _ => none

end Form

/-- A record has a document for each of its fields. -/
def Serializer.record {α : Type} (p : Serializer) (names : List String) (values : α → List Json)
    (ofValues? : List (Option Json) → Option α) : Form α where
  write a := p.ofFields (names.zip (values a))
  read? j := (j.bind (p.fields? names)).bind ofValues?

def Serializer.standard : Serializer where
  write := Json.write
  parse? := Json.parse?
  text := .ofText (fun s => s) some
  path := .ofText Path.text fun s => some ⟨s⟩
  word32 := .ofNumber UInt32.size UInt32.toNat UInt32.ofNat
  word64 := .ofNumber UInt64.size UInt64.toNat UInt64.ofNat
  time := .ofText Instant.textZulu fun s => Instant.ofChars? s.toList
  id := .ofText UniqueId.text fun s => UniqueId.ofChars? s.toList
  option := Form.nullable
  list := Form.listed
  ofFields := Json.ofFields
  fields? := Json.fields?

end VirtualDisk
