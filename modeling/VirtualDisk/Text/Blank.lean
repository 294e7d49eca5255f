namespace VirtualDisk.Blank

/-- The blanks outside of ASCII, as the first and the last code point of each range. -/
def ranges : List (Nat × Nat) :=
  [(0x85, 0x85), (0xA0, 0xA0), (0x1680, 0x1680), (0x2000, 0x200A), (0x2028, 0x2029),
    (0x202F, 0x202F), (0x205F, 0x205F), (0x3000, 0x3000)]

def contains (c : Char) : Bool :=
  c == ' ' || ('\t' ≤ c && c ≤ '\r')
    || ranges.any fun range => range.1 ≤ c.toNat && c.toNat ≤ range.2

def trim (chars : List Char) : List Char := chars.dropWhile contains

end VirtualDisk.Blank
