namespace VirtualDisk

/-- The bytes from `start` on, `count` of them or as many as there are. The
bounds are clipped before the array is cut, so `start` and `count` may be of
any magnitude. -/
def slice (b : ByteArray) (start count : Nat) : ByteArray :=
  if start < b.size then b.extract start (min (start + count) b.size) else ByteArray.empty

theorem size_slice (b : ByteArray) (start count : Nat) :
    (slice b start count).size = min count (b.size - start) := by
  unfold slice
  split
  · simp only [ByteArray.size_extract]; omega
  · simp only [ByteArray.size_empty]; omega

def zeros (n : Nat) : ByteArray := ⟨Array.replicate n 0⟩

@[simp] theorem size_zeros (n : Nat) : (zeros n).size = n := by
  simp [zeros, ByteArray.size]

/-- The number that `bytes` spell, most significant byte first. -/
def bigEndian (bytes : List UInt8) : Nat :=
  bytes.foldl (fun n b => n * 256 + b.toNat) 0

/-- The lowest `width` bytes of `n`, most significant byte first. -/
def bigEndianBytes : (width n : Nat) → List UInt8
  | 0, _ => []
  | width + 1, n => bigEndianBytes width (n / 256) ++ [UInt8.ofNat n]

theorem bigEndian_append_singleton (bytes : List UInt8) (b : UInt8) :
    bigEndian (bytes ++ [b]) = bigEndian bytes * 256 + b.toNat := by
  simp [bigEndian]

@[simp] theorem length_bigEndianBytes (width n : Nat) :
    (bigEndianBytes width n).length = width := by
  induction width generalizing n with
  | zero => rfl
  | succ width ih => simp [bigEndianBytes, ih]

def packed {n : Nat} (v : Vector UInt8 n) : ByteArray := ⟨v.toArray⟩

@[simp] theorem size_packed {n : Nat} (v : Vector UInt8 n) : (packed v).size = n := by
  simp [packed, ByteArray.size]

def vectorAt (b : ByteArray) (start n : Nat) (h : start + n ≤ b.size) : Vector UInt8 n :=
  Vector.ofFn fun i => b[start + i]

def field {n : Nat} (v : Vector UInt8 n) (pos width : Nat) (h : pos + width ≤ n := by decide) :
    Vector UInt8 width :=
  Vector.ofFn fun i => v[pos + i]

def number {n : Nat} (v : Vector UInt8 n) (pos width : Nat) (h : pos + width ≤ n := by decide) :
    Nat :=
  bigEndian (field v pos width h).toList

def overwrite {n w : Nat} (v : Vector UInt8 n) (pos : Nat) (bytes : Vector UInt8 w) :
    Vector UInt8 n :=
  Vector.ofFn fun i =>
    if h : pos ≤ i.val ∧ i.val < pos + w then bytes[i.val - pos] else v[i]

theorem getElem_overwrite {n w : Nat} (v : Vector UInt8 n) (pos : Nat) (bytes : Vector UInt8 w)
    (i : Nat) (hi : i < n) :
    (overwrite v pos bytes)[i] =
      if h : pos ≤ i ∧ i < pos + w then bytes[i - pos] else v[i] := by
  simp [overwrite]

def numberBytes (width n : Nat) : Vector UInt8 width :=
  ⟨(bigEndianBytes width n).toArray, by simp⟩

end VirtualDisk
