import VirtualDisk.Json.Value

namespace VirtualDisk.Json

/-- What stands between quotation marks for the units of a text. A character stands for itself, or
an escape stands for it; units can be escaped one by one. -/
inductive SpellsUnits : List UInt16 → List Char → Prop
  | nil : SpellsUnits [] []
  | plain {c : Char} {units : List UInt16} {chars : List Char} : c ≠ '"' → c ≠ '\\' → ¬c < ' ' →
      SpellsUnits units chars → SpellsUnits (Utf16.encodeChar c ++ units) (c :: chars)
  | letter {letter c : Char} {units : List UInt16} {chars : List Char} :
      ofLetter? letter = some c → SpellsUnits units chars →
      SpellsUnits (Utf16.encodeChar c ++ units) ('\\' :: letter :: chars)
  | unit {a b c d : Char} {u : UInt16} {units : List UInt16} {chars : List Char} :
      unit? a b c d = some u → SpellsUnits units chars →
      SpellsUnits (u :: units) ('\\' :: 'u' :: a :: b :: c :: d :: chars)

/-- No word goes on here. -/
def Ends (chars : List Char) : Prop := ∀ c ∈ chars.head?, isWordChar c = false

inductive SpellsTokens : List Token → List Char → Prop
  | nil : SpellsTokens [] []
  | blank {c : Char} {ts : List Token} {chars : List Char} : isBlank c = true →
      SpellsTokens ts chars → SpellsTokens ts (c :: chars)
  | mark {c : Char} {t : Token} {ts : List Token} {chars : List Char} :
      Token.ofMark? c = some t → SpellsTokens ts chars → SpellsTokens (t :: ts) (c :: chars)
  | word {word : List Char} {t : Token} {ts : List Token} {chars : List Char} :
      Token.ofWord? word = some t → Ends chars → SpellsTokens ts chars →
      SpellsTokens (t :: ts) (word ++ chars)
  | text {units : List UInt16} {body : List Char} {ts : List Token} {chars : List Char} :
      SpellsUnits units body → SpellsTokens ts chars →
      SpellsTokens (.text units :: ts) ('"' :: body ++ '"' :: chars)

/-- A text is one of those that stand for a document in the syntax of JSON. -/
def IsSpelledBy (j : Json) (text : String) : Prop := SpellsTokens j.tokens text.toList

end VirtualDisk.Json
