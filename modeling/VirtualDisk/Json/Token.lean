import VirtualDisk.Json.Quotation

namespace VirtualDisk.Json

inductive Token where
  | openObject
  | closeObject
  | openArray
  | closeArray
  | colon
  | comma
  | null
  | bool (value : Bool)
  | number (literal : List Char)
  | text (units : List UInt16)
deriving DecidableEq

def isBlank (c : Char) : Bool := c == ' ' || c == '\t' || c == '\n' || c == '\r'

def isWordChar (c : Char) : Bool := c.isAlphanum || c == '+' || c == '-' || c == '.'

def isExponent : List Char → Bool
  | [] => true
  | e :: rest =>
    let digits := match rest with
      | '+' :: digits | '-' :: digits => digits
      | digits => digits
    (e == 'e' || e == 'E') && !digits.isEmpty && digits.all Char.isDigit

def isFraction : List Char → Bool
  | '.' :: rest =>
    !(rest.takeWhile Char.isDigit).isEmpty && isExponent (rest.dropWhile Char.isDigit)
  | rest => isExponent rest

/-- A number: a zero or digits that start with another one, with a sign in
front if it is negative, and a fraction or an exponent behind. -/
def isNumber (word : List Char) : Bool :=
  let unsigned := match word with
    | '-' :: rest => rest
    | rest => rest
  let digits := unsigned.takeWhile Char.isDigit
  !digits.isEmpty && (digits.length == 1 || digits.head? != some '0')
    && isFraction (unsigned.dropWhile Char.isDigit)

namespace Token

def chars : Token → List Char
  | openObject => ['\x7b']
  | closeObject => ['\x7d']
  | openArray => ['[']
  | closeArray => [']']
  | colon => [':']
  | comma => [',']
  | null => "null".toList
  | bool true => "true".toList
  | bool false => "false".toList
  | number literal => literal
  | text units => '"' :: writeUnits units ++ ['"']

def ofMark? : Char → Option Token
  | '\x7b' => some openObject
  | '\x7d' => some closeObject
  | '[' => some openArray
  | ']' => some closeArray
  | ':' => some colon
  | ',' => some comma
  | _ => none

def ofWord? (word : List Char) : Option Token :=
  if word = "null".toList then some null
  else if word = "true".toList then some (bool true)
  else if word = "false".toList then some (bool false)
  else if isNumber word then some (number word)
  else none

end Token

def readTokens : List Char → Option (List Token)
  | [] => some []
  | c :: rest =>
    if isBlank c then readTokens rest
    else if c = '"' then
      match _h : readUnits rest with
      | some (units, tail) => (readTokens tail).map (.text units :: ·)
      | none => none
    else match Token.ofMark? c with
      | some mark => (readTokens rest).map (mark :: ·)
      | none => do
        let word ← Token.ofWord? ((c :: rest).takeWhile isWordChar)
        let tokens ← readTokens (rest.dropWhile isWordChar)
        return word :: tokens
termination_by chars => chars.length
decreasing_by
  · simp
  · have := length_readUnits _h
    simp only [List.length_cons]
    omega
  · simp
  · have := (List.dropWhile_sublist isWordChar (l := rest)).length_le
    simp only [List.length_cons]
    omega

def writeTokens (tokens : List Token) : List Char := tokens.flatMap Token.chars

end VirtualDisk.Json
