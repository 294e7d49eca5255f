import VirtualDisk.Text.Hex

namespace VirtualDisk

structure UniqueId where
  octets : Vector UInt8 16
deriving DecidableEq

namespace UniqueId

def ofBytes? (bytes : List UInt8) : Option UniqueId :=
  if h : bytes.length = 16 then some ⟨⟨bytes.toArray, by simp [h]⟩⟩ else none

/-- Digits with a hyphen before each group but the first. The groups hold
eight, four, four, four and twelve digits. -/
def hyphenated (digits : List Char) : List Char :=
  digits.take 8 ++ '-' :: ((digits.drop 8).take 4) ++ '-' :: ((digits.drop 12).take 4)
    ++ '-' :: ((digits.drop 16).take 4) ++ '-' :: (digits.drop 20)

def toChars (id : UniqueId) : List Char := hyphenated (Hex.ofBytes id.octets.toList)

def text (id : UniqueId) : String := String.ofList id.toChars

def ofHyphenated? (chars : List Char) : Option UniqueId :=
  let digits := chars.take 8 ++ (chars.drop 9).take 4 ++ (chars.drop 14).take 4
    ++ (chars.drop 19).take 4 ++ chars.drop 24
  if hyphenated digits = chars then (Hex.bytes? digits).bind ofBytes? else none

def space : List Char := "urn:uuid:".toList

/-- Reads an identifier in any of its four forms: thirty-two digits, the
hyphenated form, the hyphenated form in braces, and the hyphenated form behind
the name of its space. The number of characters tells the forms apart. The
digits and the name may be in either case. -/
def ofChars? (chars : List Char) : Option UniqueId :=
  match chars.length with
  | 32 => (Hex.bytes? chars).bind ofBytes?
  | 36 => ofHyphenated? chars
  | 38 =>
    if chars.head? = some '\x7b' ∧ chars.getLast? = some '\x7d'
    then ofHyphenated? (chars.drop 1).dropLast else none
  | 45 => if (chars.take 9).map Char.toLower = space then ofHyphenated? (chars.drop 9) else none
  | _ => none

end UniqueId

end VirtualDisk
