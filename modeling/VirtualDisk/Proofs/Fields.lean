import VirtualDisk.Proofs.Octets

namespace VirtualDisk

variable {n w width pos at' : Nat} {v : Vector UInt8 n}

theorem getElem_field {i : Nat} (h : pos + width ≤ n) (hi : i < width) :
    (field v pos width h)[i] = v[pos + i] := by
  simp [field]

theorem field_overwrite_self (bytes : Vector UInt8 w) (h : pos + w ≤ n) :
    field (overwrite v pos bytes) pos w h = bytes := by
  ext i hi
  rw [getElem_field, getElem_overwrite, dif_pos (by omega)]
  simp only [Nat.add_sub_cancel_left]

theorem field_overwrite_of_disjoint (bytes : Vector UInt8 w) (h : pos + width ≤ n)
    (hd : pos + width ≤ at' ∨ at' + w ≤ pos) :
    field (overwrite v at' bytes) pos width h = field v pos width h := by
  ext i hi
  rw [getElem_field, getElem_field, getElem_overwrite, dif_neg (by omega)]

theorem field_replicate (x : UInt8) (h : pos + width ≤ n) :
    field (Vector.replicate n x) pos width h = Vector.replicate width x := by
  ext i hi
  rw [getElem_field, Vector.getElem_replicate, Vector.getElem_replicate]

def capacity : Nat → Nat
  | 0 => 1
  | w + 1 => 256 * capacity w

theorem bigEndian_bigEndianBytes {value : Nat} (h : value < capacity w) :
    bigEndian (bigEndianBytes w value) = value := by
  induction w generalizing value with
  | zero =>
    rw [Nat.lt_one_iff.mp h]
    rfl
  | succ w ih =>
    rw [bigEndianBytes, bigEndian_append_singleton, ih (Nat.div_lt_of_lt_mul h)]
    simp only [UInt8.toNat_ofNat']
    omega

theorem bigEndian_lt (bytes : List UInt8) : bigEndian bytes < capacity bytes.length := by
  have hfold (n : Nat) :
      bytes.foldl (fun n b => n * 256 + b.toNat) n < (n + 1) * capacity bytes.length := by
    induction bytes generalizing n with
    | nil => simp [capacity]
    | cons b more ih =>
      have hb : b.toNat < 256 := b.toNat_lt
      have hle : n * 256 + b.toNat + 1 ≤ (n + 1) * 256 := by omega
      calc
        _ < (n * 256 + b.toNat + 1) * capacity more.length := ih _
        _ ≤ (n + 1) * 256 * capacity more.length := Nat.mul_le_mul_right _ hle
        _ = (n + 1) * capacity (more.length + 1) := Nat.mul_assoc _ _ _
  simpa [bigEndian] using hfold 0

theorem number_lt (v : Vector UInt8 n) (h : pos + w ≤ n) : number v pos w h < capacity w := by
  have hlt := bigEndian_lt (field v pos w h).toList
  rwa [Vector.length_toList] at hlt

theorem number_overwrite_self {value : Nat} (h : pos + w ≤ n) (hv : value < capacity w) :
    number (overwrite v pos (numberBytes w value)) pos w h = value := by
  rw [number, field_overwrite_self]
  exact bigEndian_bigEndianBytes hv

theorem number_overwrite_of_disjoint (bytes : Vector UInt8 w) (h : pos + width ≤ n)
    (hd : pos + width ≤ at' ∨ at' + w ≤ pos) :
    number (overwrite v at' bytes) pos width h = number v pos width h := by
  rw [number, field_overwrite_of_disjoint bytes h hd]
  rfl

theorem bigEndian_replicate_zero (count : Nat) : bigEndian (List.replicate count 0) = 0 := by
  induction count with
  | zero => rfl
  | succ count ih => rw [List.replicate_succ', bigEndian_append_singleton, ih]; rfl

theorem number_replicate_zero (h : pos + width ≤ n) :
    number (Vector.replicate n 0) pos width h = 0 := by
  rw [number, field_replicate]
  exact bigEndian_replicate_zero width

end VirtualDisk
