import VirtualDisk.Text.Utf8

namespace VirtualDisk.Utf16

def isHigh (u : UInt16) : Bool := 0xD800 ≤ u && u ≤ 0xDBFF

def isLow (u : UInt16) : Bool := 0xDC00 ≤ u && u ≤ 0xDFFF

def scalarOfPair (high low : UInt16) : Char :=
  Char.ofNat (0x10000 + (high.toNat - 0xD800) * 0x400 + (low.toNat - 0xDC00))

def decode : List UInt16 → List Char
  | [] => []
  | u :: rest =>
    if isLow u then Utf8.replacement :: decode rest
    else if isHigh u then
      match rest with
      | v :: tail =>
        if isLow v then scalarOfPair u v :: decode tail
        else Utf8.replacement :: decode (v :: tail)
      | [] => [Utf8.replacement]
    else Char.ofNat u.toNat :: decode rest

/-- The characters that the units spell, if no surrogate is without its partner. -/
def decode? : List UInt16 → Option (List Char)
  | [] => some []
  | u :: rest =>
    if isLow u then none
    else if isHigh u then
      match rest with
      | v :: tail => if isLow v then (decode? tail).map (scalarOfPair u v :: ·) else none
      | [] => none
    else (decode? rest).map (Char.ofNat u.toNat :: ·)

def text (units : List UInt16) : String := String.ofList (decode units)

def encodeChar (c : Char) : List UInt16 :=
  let n := c.toNat
  if n < 0x10000 then [UInt16.ofNat n]
  else
    [UInt16.ofNat (0xD800 + (n - 0x10000) / 0x400), UInt16.ofNat (0xDC00 + (n - 0x10000) % 0x400)]

def encode (chars : List Char) : List UInt16 := chars.flatMap encodeChar

/-- The units stored with the low byte first; a last odd byte is no unit. -/
def unitsLowFirst : List UInt8 → List UInt16
  | low :: high :: rest => UInt16.ofNat (high.toNat * 256 + low.toNat) :: unitsLowFirst rest
  | _ => []

def unitsHighFirst : List UInt8 → List UInt16
  | high :: low :: rest => UInt16.ofNat (high.toNat * 256 + low.toNat) :: unitsHighFirst rest
  | _ => []

def bytesLowFirst (units : List UInt16) : List UInt8 :=
  units.flatMap fun u => [UInt8.ofNat u.toNat, UInt8.ofNat (u.toNat / 256)]

def bytesHighFirst (units : List UInt16) : List UInt8 :=
  units.flatMap fun u => [UInt8.ofNat (u.toNat / 256), UInt8.ofNat u.toNat]

end VirtualDisk.Utf16
