import VirtualDisk.Proofs.MergeYield

namespace VirtualDisk

namespace Source

variable {ε σ : Type}

def nth (s : Source ε σ) (env : ε) : Nat → σ → Pulled
  | 0, a => (s.pull env a).1
  | n + 1, a => s.nth env n (s.pull env a).2

def behind (s : Source ε σ) (env : ε) : Nat → σ → σ
  | 0, a => a
  | n + 1, a => s.behind env n (s.pull env a).2

/-- All that is pulled before the end. -/
def items (s : Source ε σ) (env : ε) (a : σ) : List Pulled :=
  (s.run env a).1.map .chunk ++ (s.run env a).2.toList.map .failed

/-- Once a pull has brought no chunk, the source has ended. -/
def Settles (s : Source ε σ) : Prop :=
  ∀ env a, (∃ bytes, (s.pull env a).1 = .chunk bytes) ∨
    s.pull env (s.pull env a).2 = (.ended, (s.pull env a).2)

variable {s : Source ε σ} {env : ε} {a b : σ}

theorem nth_eq (n : Nat) : s.nth env n a = (s.pull env (s.behind env n a)).1 := by
  induction n generalizing a with
  | zero => rfl
  | succ n ih => exact ih

theorem behind_add (m n : Nat) : s.behind env (m + n) a = s.behind env n (s.behind env m a) := by
  induction m generalizing a with
  | zero => rw [Nat.zero_add, behind]
  | succ m ih => rw [Nat.succ_add, behind, ih, behind]

theorem behind_of_ended (h : s.pull env a = (.ended, a)) (n : Nat) : s.behind env n a = a := by
  induction n with
  | zero => rfl
  | succ n ih => rw [behind, h, ih]

theorem nth_of_ended (h : s.pull env a = (.ended, a)) (n : Nat) : s.nth env n a = .ended := by
  induction n with
  | zero => rw [nth, h]
  | succ n ih => rw [nth, h, ih]

theorem nth_eq_items (hs : s.Settles) (n : Nat) :
    s.nth env n a = ((s.items env a)[n]?).getD .ended := by
  induction n generalizing a with
  | zero =>
    rw [nth]
    match ha : s.pull env a with
    | (.chunk bytes, b) => rw [items, run_of_chunk ha]; rfl
    | (.failed e, b) => rw [items, run_of_failed ha]; rfl
    | (.ended, b) => rw [items, run_of_ended ha]; rfl
  | succ n ih =>
    have hsettled := hs env a
    rw [nth]
    match ha : s.pull env a with
    | (.chunk bytes, b) =>
      rw [ih, items, items, run_of_chunk ha]
      rfl
    | (.failed e, b) =>
      rw [ha] at hsettled
      have hb := hsettled.resolve_left fun ⟨_, h⟩ => nomatch h
      rw [nth_of_ended hb, items, run_of_failed ha]
      rfl
    | (.ended, b) =>
      rw [ha] at hsettled
      have hb := hsettled.resolve_left fun ⟨_, h⟩ => nomatch h
      rw [nth_of_ended hb, items, run_of_ended ha]
      rfl

theorem forall_mem_run {I : σ → Prop} {P : ByteArray → Prop}
    (hstep : ∀ a b bytes, I a → s.pull env a = (.chunk bytes, b) → I b ∧ P bytes) (ha : I a) :
    ∀ bytes ∈ (s.run env a).1, P bytes := by
  induction hn : s.budget a using Nat.strongRecOn generalizing a with
  | ind n ih =>
    match hp : s.pull env a with
    | (.chunk bytes, b) =>
      obtain ⟨hb, hbytes⟩ := hstep a b bytes ha hp
      have hrest := ih _ (hn ▸ budget_lt_of_chunk hp) hb rfl
      rw [run_of_chunk hp]
      exact List.forall_mem_cons.mpr ⟨hbytes, hrest⟩
    | (.failed e, b) => rw [run_of_failed hp]; exact fun _ h => nomatch h
    | (.ended, b) => rw [run_of_ended hp]; exact fun _ h => nomatch h

/-- The bytes of a list of chunks up to its first error, and this error. -/
def joined : List (Except Error ByteArray) → Total
  | [] => ⟨[], none⟩
  | .ok bytes :: rest => ⟨octets bytes ++ (joined rest).bytes, (joined rest).fault⟩
  | .error e :: _ => ⟨[], some e⟩

theorem total_ofList (items : List (Except Error ByteArray)) :
    (ofList (ε := ε)).total env items = joined items := by
  induction items with
  | nil => exact total_of_ended rfl
  | cons item rest ih =>
    cases item with
    | ok bytes => rw [total_of_chunk (b := rest) rfl, ih, joined]
    | error e => exact total_of_failed (b := rest) rfl

end Source

section picked

variable {α : Type} (size count : Nat) (xs ys : List α)

/-- The first `count` sectors, each of `ys` if `isOwn` says so and else of `xs`. -/
def picked (isOwn : Nat → Bool) : List α :=
  (List.range count).flatMap fun k => ((if isOwn k then ys else xs).drop (k * size)).take size

variable {count} in
theorem picked_congr {isOwn isOwn' : Nat → Bool} (h : ∀ k < count, isOwn k = isOwn' k) :
    picked size count xs ys isOwn = picked size count xs ys isOwn' := by
  rw [picked, picked, List.flatMap_def, List.flatMap_def]
  congr 1
  apply List.map_congr_left
  intro k hk
  rw [h k (List.mem_range.mp hk)]

theorem interleave_eq_picked (bitmap : ByteArray) (bit : UInt64) :
    interleave bitmap size bit count xs ys
      = picked size count xs ys fun k => bitmapBit bitmap (bitAfter bit k).toNat := by
  unfold picked
  induction count with
  | zero => rfl
  | succ count ih =>
    rw [interleave_add, ih, List.range_succ, List.flatMap_append, List.flatMap_singleton]
    simp only [interleave, List.append_nil]
    congr 2
    split <;> rfl

end picked

namespace SectorMerge

variable {ε β ω : Type} {base : Source ε β} {own : Source ε ω} {env : ε}
  {m rest : SectorMerge β ω}

theorem pull_of_finished (h : m.finished = true) : pull base own env m = (.ended, m) := by
  rw [pull, if_pos h]

/-- What a pull tells of the merge that it leaves: it is finished, unless it has
given whole sectors. -/
def Follows (size : Nat) (rest : SectorMerge β ω) : Pulled → Prop
  | .chunk bytes => bytes.size ≠ 0 ∧ size ∣ bytes.size
  | .failed _ | .ended => rest.finished = true

theorem follows_of_pull {pulled : Pulled} (h : pull base own env m = (pulled, rest)) :
    rest.sectorSize = m.sectorSize ∧ rest.Follows m.sectorSize pulled := by
  fun_induction pull base own env m with
  | case1 m hf =>
    cases h
    exact ⟨rfl, hf⟩
  | case2 m hf hr =>
    cases h
    have hpos := Nat.mul_pos hr (sectorSize_pos_of_ready hr)
    have hsize := m.size_sectors
    exact ⟨rfl, by omega, hsize ▸ Nat.dvd_mul_left _ _⟩
  | case3 | case4 | case6 | case9 =>
    cases h
    exact ⟨rfl, rfl⟩
  | case5 m _ _ _ _ bytes s hp ih => exact ih h
  | case7 m _ _ _ _ s hp ih => exact ih h
  | case8 m _ _ _ _ bytes s hp ih => exact ih h
  | case10 m _ _ _ _ s hp ih => exact ih h

theorem settles : (SectorMerge.source base own).Settles := by
  intro env m
  have hp : (SectorMerge.source base own).pull env m = pull base own env m := rfl
  rcases h : pull base own env m with ⟨pulled, rest⟩
  obtain ⟨-, hend⟩ := follows_of_pull h
  rw [hp, h]
  cases pulled with
  | chunk bytes => exact .inl ⟨bytes, rfl⟩
  | failed e => exact .inr (pull_of_finished hend)
  | ended => exact .inr (pull_of_finished hend)

theorem wholeSectors_of_mem_run {bytes : ByteArray}
    (h : bytes ∈ ((SectorMerge.source base own).run env m).1) :
    bytes.size ≠ 0 ∧ m.sectorSize ∣ bytes.size := by
  have hstep (a b : SectorMerge β ω) (bytes : ByteArray) (ha : a.sectorSize = m.sectorSize)
      (hp : (SectorMerge.source base own).pull env a = (.chunk bytes, b)) :
      b.sectorSize = m.sectorSize ∧ bytes.size ≠ 0 ∧ m.sectorSize ∣ bytes.size := by
    obtain ⟨hsize, hchunk⟩ := follows_of_pull hp
    rw [ha] at hsize hchunk
    exact ⟨hsize, hchunk⟩
  exact Source.forall_mem_run hstep rfl bytes h

abbrev ofLists : Source Unit (SectorMerge (List (Except Error ByteArray))
    (List (Except Error ByteArray))) := SectorMerge.source Source.ofList Source.ofList

theorem total_ofLists (base own : List (Except Error ByteArray)) (bitmap : ByteArray)
    (bit : UInt64) {size : Nat} (hs : 0 < size) :
    ofLists.total () (.ofSources base own bitmap bit.toNat size)
      = mergeTotal bitmap size bit (Source.joined base) (Source.joined own)
        ((Source.joined base).bytes.length, (Source.joined own).bytes.length) := by
  rw [total_ofSources hs, Source.total_ofList, Source.total_ofList, UInt64.ofNat_toNat]

/-- The merge of two lists of chunks. Its chunks are sectors, each from the list to which its bit
assigns it, as many as both lists have whole; then comes its error, if it has one, and from then
on nothing. How the lists are cut into chunks makes no difference to the bytes and to the error.
Bits are counted in a machine word, which makes no difference while their numbers fit one. -/
theorem merges_lists (base own : List (Except Error ByteArray)) (bitmap : ByteArray)
    (start : UInt64) {size : Nat} (hs : 0 < size) :
    let x := Source.joined base
    let y := Source.joined own
    let count := min (x.bytes.length / size) (y.bytes.length / size)
    (∃ chunks : List ByteArray,
      (∀ n, ofLists.nth () n (.ofSources base own bitmap start.toNat size)
        = ((chunks.map .chunk ++ (mergeFault size x y
          (x.bytes.length, y.bytes.length)).toList.map .failed)[n]?).getD .ended) ∧
      chunks.flatMap octets = picked size count x.bytes y.bytes
        (fun k => bitmapBit bitmap (bitAfter start k).toNat) ∧
      (start.toNat + count < UInt64.size → chunks.flatMap octets
        = picked size count x.bytes y.bytes fun k => bitmapBit bitmap (start.toNat + k)) ∧
      ∀ bytes ∈ chunks, bytes.size ≠ 0 ∧ size ∣ bytes.size) ∧
    ∀ base' own', Source.joined base' = x → Source.joined own' = y →
      ofLists.total () (.ofSources base' own' bitmap start.toNat size)
        = ofLists.total () (.ofSources base own bitmap start.toNat size) := by
  intro x y count
  have htotal := total_ofLists base own bitmap start hs
  have hbytes : (ofLists.run () (.ofSources base own bitmap start.toNat size)).1.flatMap octets
      = picked size count x.bytes y.bytes fun k => bitmapBit bitmap (bitAfter start k).toNat := by
    rw [← interleave_eq_picked]
    exact congrArg Total.bytes htotal
  refine ⟨⟨(ofLists.run () (.ofSources base own bitmap start.toNat size)).1, ?_, hbytes, ?_, ?_⟩,
    ?_⟩
  · intro n
    rw [Source.nth_eq_items settles, Source.items]
    rw [show (ofLists.run () (.ofSources base own bitmap start.toNat size)).2
      = mergeFault size x y (x.bytes.length, y.bytes.length) from congrArg Total.fault htotal]
  · intro hfits
    rw [hbytes]
    apply picked_congr
    intro k hk
    rw [toNat_bitAfter (by omega)]
  · exact fun bytes h => wholeSectors_of_mem_run h
  · intro base' own' hbase hown
    rw [htotal, total_ofLists base' own' bitmap start hs, hbase, hown]

/-- Two lists that are cut apart from the sectors, the first of which ends with an
error: one sector is whole on both sides, and its bit is set. -/
theorem merges_lists_uneven :
    ∃ chunks : List ByteArray,
      (∀ n, ofLists.nth () n (.ofSources
          [.ok ⟨#[1, 2, 3]⟩, .ok ByteArray.empty, .ok ⟨#[4]⟩, .error (.unreadable .destroyed)]
          [.ok ⟨#[5]⟩, .ok ⟨#[6, 7]⟩] ⟨#[0x20]⟩ 2 2)
        = ((chunks.map .chunk ++ [.failed (.unreadable .destroyed)])[n]?).getD .ended) ∧
      chunks.flatMap octets = [5, 6] ∧ ∀ bytes ∈ chunks, bytes.size ≠ 0 ∧ 2 ∣ bytes.size := by
  obtain ⟨⟨chunks, hitems, -, hbytes, hwhole⟩, -⟩ := @merges_lists
    [.ok ⟨#[1, 2, 3]⟩, .ok ByteArray.empty, .ok ⟨#[4]⟩, .error (.unreadable .destroyed)]
    [.ok ⟨#[5]⟩, .ok ⟨#[6, 7]⟩] ⟨#[0x20]⟩ 2 2 (by decide)
  exact ⟨chunks, hitems, hbytes (by decide), hwhole⟩

end SectorMerge

end VirtualDisk
