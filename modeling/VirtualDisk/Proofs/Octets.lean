import VirtualDisk.Bytes

namespace VirtualDisk

def octets (b : ByteArray) : List UInt8 := b.data.toList

@[simp] theorem length_octets (b : ByteArray) : (octets b).length = b.size :=
  Array.length_toList

@[simp] theorem octets_empty : octets ByteArray.empty = [] := rfl

@[simp] theorem octets_append (a b : ByteArray) : octets (a ++ b) = octets a ++ octets b := by
  simp [octets]

theorem octets_replicate (n : Nat) (b : UInt8) :
    octets ⟨Array.replicate n b⟩ = List.replicate n b := Array.toList_replicate

@[simp] theorem octets_zeros (n : Nat) : octets (zeros n) = List.replicate n 0 :=
  octets_replicate n 0

theorem octets_eq_nil_iff {b : ByteArray} : octets b = [] ↔ b.size = 0 := by
  rw [← List.length_eq_zero_iff, length_octets]

theorem octets_injective {a b : ByteArray} (h : octets a = octets b) : a = b :=
  ByteArray.ext (Array.toList_inj.mp h)

theorem octets_slice (b : ByteArray) (start count : Nat) :
    octets (slice b start count) = ((octets b).drop start).take count := by
  unfold slice
  split
  · next h =>
    have hs : b.data.size = b.size := rfl
    apply List.ext_getElem
    · simp only [length_octets, ByteArray.size_extract, List.length_take, List.length_drop]
      omega
    · intro i h1 h2
      simp [octets]
  · next h =>
    have hd : (octets b).drop start = [] := by
      rw [List.drop_eq_nil_iff, length_octets]
      omega
    simp [hd]

variable {α : Type}

/-- The values of `f` from `lo` on, before `hi`. -/
def span (f : Nat → α) (lo hi : Nat) : List α := (List.range' lo (hi - lo)).map f

@[simp] theorem length_span (f : Nat → α) (lo hi : Nat) : (span f lo hi).length = hi - lo := by
  simp [span]

theorem span_eq_nil {f : Nat → α} {lo hi : Nat} (h : hi ≤ lo) : span f lo hi = [] := by
  apply List.eq_nil_of_length_eq_zero
  rw [length_span]
  omega

theorem span_append {f : Nat → α} {lo mid hi : Nat} (h1 : lo ≤ mid) (h2 : mid ≤ hi) :
    span f lo mid ++ span f mid hi = span f lo hi := by
  have hm : lo + (mid - lo) = mid := by omega
  have hl : mid - lo + (hi - mid) = hi - lo := by omega
  simp only [span, ← List.map_append]
  rw [← hl, ← List.range'_append_1, hm]

theorem span_congr {f g : Nat → α} {lo hi : Nat} (h : ∀ o, lo ≤ o → o < hi → f o = g o) :
    span f lo hi = span g lo hi := by
  apply List.map_congr_left
  intro o ho
  rw [List.mem_range'_1] at ho
  exact h o ho.1 (by omega)

theorem span_const (x : α) (lo hi : Nat) :
    span (fun _ => x) lo hi = List.replicate (hi - lo) x := by
  rw [span, List.map_const', List.length_range']

theorem getElem?_span {f : Nat → α} {lo hi i : Nat} (h : lo + i < hi) :
    (span f lo hi)[i]? = some (f (lo + i)) := by
  rw [span, List.getElem?_map, List.getElem?_range' (by omega)]
  simp

theorem take_span (f : Nat → α) (lo hi n : Nat) :
    (span f lo hi).take n = span f lo (min hi (lo + n)) := by
  apply List.ext_getElem?
  intro i
  rw [List.getElem?_take]
  by_cases h : lo + i < min hi (lo + n)
  · rw [if_pos (by omega), getElem?_span h, getElem?_span (by omega)]
  · split
    · rw [List.getElem?_eq_none (by simp; omega), List.getElem?_eq_none (by simp; omega)]
    · rw [List.getElem?_eq_none (by simp; omega)]

theorem drop_span (f : Nat → α) (lo hi n : Nat) :
    (span f lo hi).drop n = span f (lo + n) hi := by
  apply List.ext_getElem?
  intro i
  rw [List.getElem?_drop]
  by_cases h : lo + (n + i) < hi
  · rw [getElem?_span h, getElem?_span (by omega), Nat.add_assoc]
  · rw [List.getElem?_eq_none (by simp; omega), List.getElem?_eq_none (by simp; omega)]

theorem span_prefix {f : Nat → α} {lo hi n : Nat} (h : n ≤ hi - lo) :
    span f lo (lo + n) <+: span f lo hi := by
  have ht : (span f lo hi).take n = span f lo (lo + n) := by
    rw [take_span]
    by_cases hle : lo ≤ hi
    · rw [Nat.min_eq_right (by omega)]
    · rw [span_eq_nil (by omega), span_eq_nil (by omega)]
  rw [← ht]
  exact List.take_prefix _ _

theorem span_translate (f : Nat → α) (a b n : Nat) :
    span f a (a + n) = span (fun o => f (a + (o - b))) b (b + n) := by
  apply List.ext_getElem?
  intro i
  by_cases h : i < n
  · rw [getElem?_span (by omega), getElem?_span (by omega), Nat.add_sub_cancel_left]
  · rw [List.getElem?_eq_none (by simp; omega), List.getElem?_eq_none (by simp; omega)]

theorem map_some_take_drop (xs : List α) (start count : Nat) :
    ((xs.drop start).take count).map some = span (fun o => xs[o]?) start
      (min (start + count) xs.length) := by
  apply List.ext_getElem?
  intro i
  rw [List.getElem?_map, List.getElem?_take]
  by_cases h : start + i < min (start + count) xs.length
  · rw [if_pos (by omega), getElem?_span h, List.getElem?_drop,
      List.getElem?_eq_getElem (by omega)]
    rfl
  · rw [List.getElem?_eq_none (l := span _ _ _) (by simp; omega)]
    split
    · rw [List.getElem?_drop, List.getElem?_eq_none (by omega)]
      rfl
    · rfl

end VirtualDisk
