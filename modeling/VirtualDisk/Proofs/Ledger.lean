import VirtualDisk.Stream.ChainStream
import VirtualDisk.Proofs.MergeYield

namespace VirtualDisk

namespace Pulled

def size : Pulled → Nat
  | chunk bytes => bytes.size
  | failed _ | ended => 0

def isFailed : Pulled → Bool
  | failed _ => true
  | chunk _ | ended => false

def sizes : List Pulled → Nat
  | [] => 0
  | p :: more => p.size + sizes more

theorem sizes_append (first second : List Pulled) :
    sizes (first ++ second) = sizes first + sizes second := by
  induction first with
  | nil => exact (Nat.zero_add _).symm
  | cons p more ih => rw [List.cons_append, sizes, sizes, ih, Nat.add_assoc]

theorem sizes_of_ended {log : List Pulled} (h : ∀ p ∈ log, p = .ended) : sizes log = 0 := by
  induction log with
  | nil => rfl
  | cons p more ih =>
    obtain ⟨rfl, hmore⟩ := List.forall_mem_cons.mp h
    rw [sizes, size, ih hmore]

end Pulled

namespace Source

variable {ε δ σ τ : Type}

/-- What a pull from a state that owes `n` bytes pays. -/
def Pays (owes : σ → Nat → Prop) (n : Nat) (rest : σ) : Pulled → Prop
  | .chunk bytes => ∃ left, owes rest left ∧ bytes.size + left = n
  | .failed _ => True
  | .ended => n = 0 ∧ owes rest 0

def Accounts (s : Source ε σ) (owes : σ → Nat → Prop) : Prop :=
  ∀ env a n, owes a n → Pays owes n (s.pull env a).2 (s.pull env a).1

def BothOwe (owes : σ → Nat → Prop) (owes' : τ → Nat → Prop) (s : σ × τ) (n : Nat) : Prop :=
  ∃ k l, owes s.1 k ∧ owes' s.2 l ∧ k + l = n

variable {s : Source ε σ} {owes : σ → Nat → Prop} {owes' : τ → Nat → Prop}

theorem Accounts.pays (h : s.Accounts owes) {env : ε} {a b : σ} {n : Nat} {pulled : Pulled}
    (ha : owes a n) (hp : s.pull env a = (pulled, b)) : Pays owes n b pulled := by
  have hpays := h env a n ha
  rwa [hp] at hpays

theorem Pays.map {rest : σ} {n : Nat} {pulled : Pulled} (h : Pays owes n rest pulled) {f : σ → τ}
    (hf : ∀ a k, owes a k → owes' (f a) k) : Pays owes' n (f rest) pulled := by
  cases pulled with
  | chunk bytes =>
    obtain ⟨left, hleft, hsum⟩ := h
    exact ⟨left, hf _ _ hleft, hsum⟩
  | failed e => trivial
  | ended => exact ⟨h.1, hf _ _ h.2⟩

theorem Accounts.on (h : s.Accounts owes) (part : δ → ε) : (s.on part).Accounts owes :=
  fun env => h (part env)

theorem Accounts.andThen {second : Source ε τ} (h : s.Accounts owes)
    (h' : second.Accounts owes') : (s.andThen second).Accounts (BothOwe owes owes') := by
  rintro env ⟨a, c⟩ n ⟨k, l, hk, hl, hsum⟩
  have hsecond := h' env c l hl
  simp only [Source.andThen]
  rcases hp : s.pull env a with ⟨pulled, b⟩
  have hfirst := h.pays hk hp
  cases pulled with
  | chunk bytes =>
    obtain ⟨left, hleft, hpaid⟩ := hfirst
    exact ⟨left + l, ⟨left, l, hleft, hl, rfl⟩, by omega⟩
  | failed e => trivial
  | ended =>
    obtain ⟨rfl, hb⟩ := hfirst
    obtain rfl : l = n := by omega
    exact hsecond.map fun d k hd => ⟨0, k, hb, hd, Nat.zero_add k⟩

end Source

open Source

/-- A range of a file owes the bytes that remain, unless it has failed. -/
def FileRange.Owes (r : FileRange) (n : Nat) : Prop := r.done = false ∧ r.remaining = n

theorem FileRange.accounts : FileRange.source.Accounts FileRange.Owes := by
  rintro contents r n ⟨hd, rfl⟩
  have hsize := r.window.size_read_le r.want ⟨contents, 0⟩
  have hleft := r.window.remaining_read r.want ⟨contents, 0⟩
  change Pays _ _ (r.pull contents).2 (r.pull contents).1
  unfold FileRange.pull
  generalize r.window.read r.want ⟨contents, 0⟩ = got at hsize hleft ⊢
  split
  · next h =>
    have hzero : r.remaining = 0 := h.resolve_left (by rw [hd]; exact Bool.false_ne_true)
    exact ⟨hzero, hd, hzero⟩
  · simp only
    split
    · refine ⟨got.2.1.remaining, ⟨hd, rfl⟩, ?_⟩
      simp only [FileRange.want, FileRange.remaining] at *
      omega
    · trivial

def ZeroRun.Owes (z : ZeroRun) (n : Nat) : Prop := z.remaining = n

theorem ZeroRun.accounts {ε : Type} : (ZeroRun.source (ε := ε)).Accounts ZeroRun.Owes := by
  rintro env z n rfl
  change Pays _ _ z.pull.2 z.pull.1
  unfold ZeroRun.pull
  split
  · next h => exact ⟨h, h⟩
  · refine ⟨_, rfl, ?_⟩
    simp only [size_zeros]
    omega

def MergeSide.Owes {σ : Type} (owes : σ → Nat → Prop) (side : MergeSide σ) (n : Nat) : Prop :=
  if side.ended then n = 0 else owes side.source n

namespace MergeSide

variable {ε σ : Type} {source : Source ε σ} {owes : σ → Nat → Prop} {side : MergeSide σ} {s : σ}
  {env : ε} {n : Nat}

theorem owes_of_live (h : side.ended = false) : side.Owes owes n ↔ owes side.source n := by
  rw [Owes, h, if_neg Bool.false_ne_true]

theorem owes_of_ended (h : side.ended = true) : side.Owes owes n ↔ n = 0 := by
  rw [Owes, if_pos h]

theorem owes_receive {bytes : ByteArray} (h : source.Accounts owes) (he : side.ended = false)
    (hn : side.Owes owes n) (hp : source.pull env side.source = (.chunk bytes, s)) :
    ∃ left, (side.receive bytes s).Owes owes left ∧ bytes.size + left = n := by
  obtain ⟨left, hleft, hsum⟩ := h.pays ((owes_of_live he).mp hn) hp
  have hlive : (side.receive bytes s).ended = false := he
  exact ⟨left, (owes_of_live hlive).mpr hleft, hsum⟩

theorem owes_end (h : source.Accounts owes) (he : side.ended = false) (hn : side.Owes owes n)
    (hp : source.pull env side.source = (.ended, s)) :
    n = 0 ∧ { side with source := s, ended := true }.Owes owes 0 := by
  obtain ⟨hzero, -⟩ := h.pays ((owes_of_live he).mp hn) hp
  exact ⟨hzero, (owes_of_ended rfl).mpr rfl⟩

end MergeSide

namespace SectorMerge

variable {ε β ω : Type} {base : Source ε β} {own : Source ε ω} {owes : β → Nat → Prop}
  {owes' : ω → Nat → Prop}

/-- A merge owes what is pending and still to come on a side, and this must be the
same on both sides. -/
def Owes (owes : β → Nat → Prop) (owes' : ω → Nat → Prop) (m : SectorMerge β ω) (n : Nat) : Prop :=
  if m.finished then n = 0
  else ∃ k l, m.base.Owes owes k ∧ m.own.Owes owes' l ∧
    m.base.pending.size + k = n ∧ m.own.pending.size + l = n

theorem owes_of_live {m : SectorMerge β ω} {n : Nat} (h : ¬m.finished = true) :
    m.Owes owes owes' n ↔ ∃ k l, m.base.Owes owes k ∧ m.own.Owes owes' l ∧
      m.base.pending.size + k = n ∧ m.own.pending.size + l = n := by
  rw [Owes, if_neg h]

theorem owes_drain {m : SectorMerge β ω} {n : Nat} (hf : ¬m.finished = true)
    (h : m.Owes owes owes' n) :
    ∃ left, (m.drain m.ready).Owes owes owes' left ∧ (m.sectors m.ready).size + left = n := by
  obtain ⟨k, l, hk, hl, hbase, hown⟩ := (owes_of_live hf).mp h
  have hb := m.ready_mul_le
  have ho := m.ready_mul_le_own
  refine ⟨n - m.ready * m.sectorSize,
    (owes_of_live (m := m.drain m.ready) hf).mpr ⟨k, l, hk, hl, ?_, ?_⟩, ?_⟩
  · simp only [drain, MergeSide.drain, size_slice]
    omega
  · simp only [drain, MergeSide.drain, size_slice]
    omega
  · rw [size_sectors]
    omega

theorem accounts (hbase : base.Accounts owes) (hown : own.Accounts owes') :
    (SectorMerge.source base own).Accounts (Owes owes owes') := by
  intro env m n h
  change Pays _ n (pull base own env m).2 (pull base own env m).1
  fun_induction pull base own env m with
  | case1 m hf =>
    rw [Owes, if_pos hf] at h
    exact ⟨h, by rw [Owes, if_pos hf]⟩
  | case2 m hf hr => exact owes_drain hf h
  | case3 m hf hr he hz =>
    obtain ⟨k, l, hk, hl, hsum, -⟩ := (owes_of_live hf).mp h
    have hempty : m.base.pending.size = 0 := by simpa [ByteArray.isEmpty] using hz.1
    have hnone := (MergeSide.owes_of_ended he.1).mp hk
    refine ⟨by omega, ?_⟩
    rw [Owes, if_pos rfl]
  | case4 | case6 | case9 => trivial
  | case5 m hf _ he hw bytes s hp ih =>
    obtain ⟨k, l, hk, hl, hsum, hsum'⟩ := (owes_of_live hf).mp h
    obtain ⟨left, hleft, hpaid⟩ := MergeSide.owes_receive hbase (ended_of_wantsBase hw) hk hp
    refine ih ((owes_of_live (m := { m with base := m.base.receive bytes s }) hf).mpr
      ⟨left, l, hleft, hl, ?_, hsum'⟩)
    simp only [MergeSide.receive, ByteArray.size_append]
    omega
  | case7 m hf _ he hw s hp ih =>
    obtain ⟨k, l, hk, hl, hsum, hsum'⟩ := (owes_of_live hf).mp h
    obtain ⟨rfl, hend⟩ := MergeSide.owes_end hbase (ended_of_wantsBase hw) hk hp
    exact ih ((owes_of_live (m := { m with base.source := s, base.ended := true }) hf).mpr
      ⟨0, l, hend, hl, hsum, hsum'⟩)
  | case8 m hf _ he hw bytes s hp ih =>
    obtain ⟨k, l, hk, hl, hsum, hsum'⟩ := (owes_of_live hf).mp h
    obtain ⟨left, hleft, hpaid⟩ := MergeSide.owes_receive hown (ended_of_not_wantsBase hw he) hl hp
    refine ih ((owes_of_live (m := { m with own := m.own.receive bytes s }) hf).mpr
      ⟨k, left, hk, hleft, hsum, ?_⟩)
    simp only [MergeSide.receive, ByteArray.size_append]
    omega
  | case10 m hf _ he hw s hp ih =>
    obtain ⟨k, l, hk, hl, hsum, hsum'⟩ := (owes_of_live hf).mp h
    obtain ⟨rfl, hend⟩ := MergeSide.owes_end hown (ended_of_not_wantsBase hw he) hl hp
    exact ih ((owes_of_live (m := { m with own.source := s, own.ended := true }) hf).mpr
      ⟨k, 0, hk, hend, hsum, hsum'⟩)

theorem owes_ofSources {b : β} {o : ω} {bitmap : ByteArray} {bit size n : Nat} (hb : owes b n)
    (ho : owes' o n) : (SectorMerge.ofSources b o bitmap bit size).Owes owes owes' n := by
  refine (owes_of_live (m := .ofSources b o bitmap bit size) Bool.false_ne_true).mpr
    ⟨n, n, ?_, ?_, ?_, ?_⟩
  · exact (MergeSide.owes_of_live rfl).mpr hb
  · exact (MergeSide.owes_of_live rfl).mpr ho
  · exact Nat.zero_add n
  · exact Nat.zero_add n

end SectorMerge

namespace Piece

variable {π : Type} {place : Place} {parent : Source Files π} {owes : π → Nat → Prop}

def Owes (owes : π → Nat → Prop) : Piece π → Nat → Prop
  | file range => range.Owes
  | zeros run => run.Owes
  | inherited range => BothOwe owes ZeroRun.Owes range
  | footer (some bytes) => fun n => bytes.size = n
  | footer none => fun n => n = 0
  | merge m => m.Owes (BothOwe owes ZeroRun.Owes) FileRange.Owes

theorem accounts_inherited (h : parent.Accounts owes) :
    (inheritedSource parent).Accounts (BothOwe owes ZeroRun.Owes) := h.andThen ZeroRun.accounts

theorem accounts (h : parent.Accounts owes) :
    (Piece.source place parent).Accounts (Piece.Owes owes) := by
  intro files piece n hn
  change Pays _ n (pull place parent files piece).2 (pull place parent files piece).1
  cases piece with
  | file range => exact (FileRange.accounts _ range n hn).map fun _ _ => id
  | zeros run => exact (ZeroRun.accounts files run n hn).map fun _ _ => id
  | inherited range => exact (accounts_inherited h files range n hn).map fun _ _ => id
  | footer bytes =>
    cases bytes with
    | some bytes => exact ⟨0, rfl, hn⟩
    | none => exact ⟨hn, rfl⟩
  | merge m =>
    have hm := SectorMerge.accounts (accounts_inherited h)
        (FileRange.accounts.on (·.contents place))
    exact (hm files m n hn).map fun _ _ => id

end Piece

end VirtualDisk
