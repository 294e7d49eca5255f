namespace VirtualDisk.Utf8

def replacement : Char := '\uFFFD'

def isContinuation (b : UInt8) : Bool := 0x80 ≤ b && b ≤ 0xBF

/-- Whether `second` may follow the lead byte of a sequence of three. The
narrow cases exclude overlong spellings and surrogates. -/
def isSecondOfThree (lead second : UInt8) : Bool :=
  if lead == 0xE0 then 0xA0 ≤ second && second ≤ 0xBF
  else if lead == 0xED then 0x80 ≤ second && second ≤ 0x9F
  else isContinuation second

/-- Whether `second` may follow the lead byte of a sequence of four. The
narrow cases exclude overlong spellings and numbers past the last character. -/
def isSecondOfFour (lead second : UInt8) : Bool :=
  if lead == 0xF0 then 0x90 ≤ second && second ≤ 0xBF
  else if lead == 0xF4 then 0x80 ≤ second && second ≤ 0x8F
  else isContinuation second

def payload (b : UInt8) : Nat := b.toNat % 64

def scalarOfTwo (b c : UInt8) : Char :=
  Char.ofNat (b.toNat % 32 * 64 + payload c)

def scalarOfThree (b c d : UInt8) : Char :=
  Char.ofNat (b.toNat % 16 * 4096 + payload c * 64 + payload d)

def scalarOfFour (b c d e : UInt8) : Char :=
  Char.ofNat (b.toNat % 8 * 262144 + payload c * 4096 + payload d * 64 + payload e)

def decode : List UInt8 → List Char
  | [] => []
  | b :: rest =>
    if b < 0x80 then Char.ofNat b.toNat :: decode rest
    else if 0xC2 ≤ b && b ≤ 0xDF then
      match rest with
      | c :: tail =>
        if isContinuation c then scalarOfTwo b c :: decode tail
        else replacement :: decode (c :: tail)
      | [] => [replacement]
    else if 0xE0 ≤ b && b ≤ 0xEF then
      match rest with
      | c :: d :: tail =>
        if !isSecondOfThree b c then replacement :: decode (c :: d :: tail)
        else if isContinuation d then scalarOfThree b c d :: decode tail
        else replacement :: decode (d :: tail)
      | [c] => if isSecondOfThree b c then [replacement] else replacement :: decode [c]
      | [] => [replacement]
    else if 0xF0 ≤ b && b ≤ 0xF4 then
      match rest with
      | c :: d :: e :: tail =>
        if !isSecondOfFour b c then replacement :: decode (c :: d :: e :: tail)
        else if !isContinuation d then replacement :: decode (d :: e :: tail)
        else if isContinuation e then scalarOfFour b c d e :: decode tail
        else replacement :: decode (e :: tail)
      | [c, d] =>
        if !isSecondOfFour b c then replacement :: decode [c, d]
        else if isContinuation d then [replacement]
        else replacement :: decode [d]
      | [c] => if isSecondOfFour b c then [replacement] else replacement :: decode [c]
      | [] => [replacement]
    else replacement :: decode rest

def text (bytes : List UInt8) : String := String.ofList (decode bytes)

def encodeChar (c : Char) : List UInt8 :=
  let n := c.toNat
  if n < 0x80 then [UInt8.ofNat n]
  else if n < 0x800 then [UInt8.ofNat (0xC0 + n / 64), UInt8.ofNat (0x80 + n % 64)]
  else if n < 0x10000 then
    [UInt8.ofNat (0xE0 + n / 4096), UInt8.ofNat (0x80 + n / 64 % 64), UInt8.ofNat (0x80 + n % 64)]
  else
    [UInt8.ofNat (0xF0 + n / 262144), UInt8.ofNat (0x80 + n / 4096 % 64),
      UInt8.ofNat (0x80 + n / 64 % 64), UInt8.ofNat (0x80 + n % 64)]

def encode (chars : List Char) : List UInt8 := chars.flatMap encodeChar

end VirtualDisk.Utf8
