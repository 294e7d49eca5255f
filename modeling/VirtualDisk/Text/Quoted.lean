import VirtualDisk.Text.Hex
import VirtualDisk.Text.Unprintable

namespace VirtualDisk.Quoted

def letter? : Char → Option Char
  | '\x00' => some '0'
  | '\t' => some 't'
  | '\n' => some 'n'
  | '\r' => some 'r'
  | '\\' => some '\\'
  | '"' => some '"'
  | _ => none

/-- The written form of a character. One that cannot be seen is given by its
code point. -/
def encodeChar (c : Char) : List Char :=
  match letter? c with
  | some letter => ['\\', letter]
  | none =>
    if Unprintable.contains c then
      ['\\', 'u', '\x7b'] ++ (Hex.ofNat 1 c.toNat).toList ++ ['\x7d']
    else [c]

def encode (text : String) : String :=
  String.ofList ('"' :: text.toList.flatMap encodeChar ++ ['"'])

end VirtualDisk.Quoted
