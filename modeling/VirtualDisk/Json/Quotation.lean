import VirtualDisk.Text.Hex
import VirtualDisk.Text.Utf16

namespace VirtualDisk.Json

def letter? : Char → Option Char
  | '"' => some '"'
  | '\\' => some '\\'
  | '\x08' => some 'b'
  | '\x0c' => some 'f'
  | '\n' => some 'n'
  | '\r' => some 'r'
  | '\t' => some 't'
  | _ => none

def ofLetter? : Char → Option Char
  | '"' => some '"'
  | '\\' => some '\\'
  | '/' => some '/'
  | 'b' => some '\x08'
  | 'f' => some '\x0c'
  | 'n' => some '\n'
  | 'r' => some '\r'
  | 't' => some '\t'
  | _ => none

def unitEscape (u : UInt16) : List Char := '\\' :: 'u' :: (Hex.ofNat 4 u.toNat).toList

def unit? (a b c d : Char) : Option UInt16 := do
  let a ← Hex.value? a
  let b ← Hex.value? b
  let c ← Hex.value? c
  let d ← Hex.value? d
  return UInt16.ofNat (((a * 16 + b) * 16 + c) * 16 + d)

def writeChar (c : Char) : List Char :=
  match letter? c with
  | some letter => ['\\', letter]
  | none => if c < ' ' then unitEscape (UInt16.ofNat c.toNat) else [c]

def writeUnits : List UInt16 → List Char
  | [] => []
  | u :: rest =>
    if Utf16.isLow u then unitEscape u ++ writeUnits rest
    else if Utf16.isHigh u then
      match rest with
      | v :: tail =>
        if Utf16.isLow v then writeChar (Utf16.scalarOfPair u v) ++ writeUnits tail
        else unitEscape u ++ writeUnits (v :: tail)
      | [] => unitEscape u
    else writeChar (Char.ofNat u.toNat) ++ writeUnits rest

/-- The units up to the closing quotation mark, and what follows it. -/
def readUnits : List Char → Option (List UInt16 × List Char)
  | [] => none
  | '"' :: rest => some ([], rest)
  | '\\' :: 'u' :: a :: b :: c :: d :: rest => do
    let u ← unit? a b c d
    let (units, tail) ← readUnits rest
    return (u :: units, tail)
  | '\\' :: letter :: rest => do
    let c ← ofLetter? letter
    let (units, tail) ← readUnits rest
    return (Utf16.encodeChar c ++ units, tail)
  | c :: rest =>
    if c < ' ' then none
    else do
      let (units, tail) ← readUnits rest
      return (Utf16.encodeChar c ++ units, tail)

theorem length_readUnits {chars tail : List Char} {units : List UInt16}
    (h : readUnits chars = some (units, tail)) : tail.length < chars.length := by
  fun_induction readUnits chars generalizing units with
  | case1 => contradiction
  | case2 rest => cases h; simp
  | case3 a b c d rest ih =>
    simp only [Option.bind_eq_bind, Option.bind_eq_some_iff, pure] at h
    obtain ⟨_, _, ⟨_, _⟩, hr, he⟩ := h
    cases he
    have := ih hr
    simp only [List.length_cons] at this ⊢
    omega
  | case4 letter rest _ ih =>
    simp only [Option.bind_eq_bind, Option.bind_eq_some_iff, pure] at h
    obtain ⟨_, _, ⟨_, _⟩, hr, he⟩ := h
    cases he
    have := ih hr
    simp only [List.length_cons] at this ⊢
    omega
  | case5 => contradiction
  | case6 c rest _ _ _ _ ih =>
    simp only [Option.bind_eq_bind, Option.bind_eq_some_iff, pure] at h
    obtain ⟨⟨_, _⟩, hr, he⟩ := h
    cases he
    have := ih hr
    simp only [List.length_cons] at this ⊢
    omega

end VirtualDisk.Json
