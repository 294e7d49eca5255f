import VirtualDisk.Json.Token

namespace VirtualDisk

inductive Json where
  | null
  | bool (value : Bool)
  | number (literal : List Char)
  | text (units : List UInt16)
  | array (items : List Json)
  | object (members : List (List UInt16 × Json))

namespace Json

def ofString (s : String) : Json := .text (Utf16.encode s.toList)

def ofNat (n : Nat) : Json := .number (Nat.toDigits 10 n)

def ofFields (fields : List (String × Json)) : Json :=
  .object (fields.map fun field => (Utf16.encode field.1.toList, field.2))

def text? : Json → Option String
  | .text units => (Utf16.decode? units).map String.ofList
  | _ => none

/-- The number that a value is, if it is written with nothing but digits. -/
def nat? : Json → Option Nat
  | .number literal =>
    if literal.all Char.isDigit then some (Nat.ofDigitChars 10 literal 0) else none
  | _ => none

def separated : List (List Token) → List Token
  | [] => []
  | [tokens] => tokens
  | tokens :: rest => tokens ++ .comma :: separated rest

def tokens : Json → List Token
  | .null => [.null]
  | .bool value => [.bool value]
  | .number literal => [.number literal]
  | .text units => [.text units]
  | .array items => .openArray :: separated (items.map tokens) ++ [.closeArray]
  | .object members =>
    .openObject :: separated (members.map fun m => .text m.1 :: .colon :: tokens m.2)
      ++ [.closeObject]
decreasing_by
  · have := List.sizeOf_lt_of_mem ‹_ ∈ items›
    simp only [array.sizeOf_spec]
    omega
  · have := List.sizeOf_lt_of_mem ‹_ ∈ members›
    simp only [object.sizeOf_spec]
    have : sizeOf m = 1 + sizeOf m.1 + sizeOf m.2 := rfl
    omega

def write (j : Json) : String := String.ofList (writeTokens j.tokens)

/-- An array or object that is not closed, with what came before in it, the
last first. -/
inductive Frame where
  | array (before : List Json)
  | object (before : List (List UInt16 × Json)) (key : List UInt16)

inductive State where
  | value
  | firstItem
  | firstKey
  | key (before : List (List UInt16 × Json))
  | colon (before : List (List UInt16 × Json)) (key : List UInt16)
  | complete (value : Json)

def start : Token → List Frame → Option (State × List Frame)
  | .null, frames => some (.complete .null, frames)
  | .bool value, frames => some (.complete (.bool value), frames)
  | .number literal, frames => some (.complete (.number literal), frames)
  | .text units, frames => some (.complete (.text units), frames)
  | .openArray, frames => some (.firstItem, frames)
  | .openObject, frames => some (.firstKey, frames)
  | _, _ => none

def step : State → Token → List Frame → Option (State × List Frame)
  | .value, token, frames => start token frames
  | .firstItem, .closeArray, frames => some (.complete (.array []), frames)
  | .firstItem, token, frames => start token (.array [] :: frames)
  | .firstKey, .closeObject, frames => some (.complete (.object []), frames)
  | .firstKey, .text key, frames => some (.colon [] key, frames)
  | .key before, .text key, frames => some (.colon before key, frames)
  | .colon before key, .colon, frames => some (.value, .object before key :: frames)
  | .complete value, .comma, .array before :: frames =>
    some (.value, .array (value :: before) :: frames)
  | .complete value, .closeArray, .array before :: frames =>
    some (.complete (.array (value :: before).reverse), frames)
  | .complete value, .comma, .object before key :: frames =>
    some (.key ((key, value) :: before), frames)
  | .complete value, .closeObject, .object before key :: frames =>
    some (.complete (.object ((key, value) :: before).reverse), frames)
  | _, _, _ => none

def run : State → List Frame → List Token → Option Json
  | .complete value, [], [] => some value
  | _, _, [] => none
  | state, frames, token :: rest =>
    match step state token frames with
    | some (next, frames) => run next frames rest
    | none => none

def ofTokens? (tokens : List Token) : Option Json := run .value [] tokens

def parse? (text : String) : Option Json := (readTokens text.toList).bind ofTokens?

/-- The value of the only member with a key; none if there is no such member.
A key that comes twice is an error. -/
def member? (members : List (String × Json)) (name : String) : Option (Option Json) :=
  match members.filter (·.1 = name) with
  | [] => some none
  | [m] => some (some m.2)
  | _ => none

/-- The values of a record with fields of these names, in their order; an
object may leave out fields and have others. A record may also be an array of
all its values. -/
def fields? (names : List String) : Json → Option (List (Option Json))
  | .object members => do
    let members ← members.mapM fun m => (text? (.text m.1)).map (·, m.2)
    names.mapM (member? members)
  | .array items => if items.length = names.length then some (items.map some) else none
  | _ => none

def optional {α : Type} (write : α → Json) : Option α → Json
  | some value => write value
  | none => .null

def required {α : Type} (read : Json → Option α) : Option Json → Option α
  | some value => read value
  | none => none

def nullable {α : Type} (read : Json → Option α) : Option Json → Option (Option α)
  | none | some .null => some none
  | some value => (read value).map some

end Json

end VirtualDisk
