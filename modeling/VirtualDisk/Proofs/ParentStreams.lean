import VirtualDisk.Proofs.CheckedPlan
import VirtualDisk.Proofs.Opened

namespace VirtualDisk

section parents

variable {π : Type} {level : Level} {view : Option (ParentView π)} {contents : ByteArray} {p : Plan}
  {piece : Piece π} {q : π}

def Piece.parent? : Piece π → Option π
  | inherited range => some range.1
  | merge m => some m.base.source.1
  | file _ | zeros _ | footer _ => none

namespace Plan

def Opens (view : Option (ParentView π)) (buffer : BufferSize) (q : π) : Prop :=
  ∃ v lo hi, view = some v ∧ sectorSize ∣ lo ∧ lo ≤ Limits.safeNumber ∧
    v.openAt lo (max (min hi v.size) lo) buffer = q

theorem parent?_afterBlocks {flattened : Footer} (h : (afterBlocks flattened p).1 = some piece) :
    piece.parent? = none := by
  unfold afterBlocks at h
  split at h
  · cases h
    rfl
  · split at h
    · cases h
    · simp only at h
      split at h
      · cases h
        rfl
      · cases h

theorem parent?_blockPiece {table : BlockTable} {buffer : BufferSize} {lo hi : Nat}
    {source : BlockSource π} (h : blockPiece table contents buffer lo hi source = .ok piece)
    (hq : piece.parent? = some q) :
    ∃ v, source.parent? = some v ∧ v.openAt lo (max (min hi v.size) lo) buffer = q := by
  cases source with
  | own data =>
    cases h
    cases hq
  | inherited v =>
    cases h
    exact ⟨v, rfl, Option.some.inj hq⟩
  | both bitmapOffset data v =>
    obtain ⟨bitmap, -, h⟩ := bind_eq_ok.mp h
    refine ⟨v, rfl, ?_⟩
    obtain rfl := Except.ok.inj h
    split at hq
    · cases hq
    · exact Option.some.inj hq
    · exact Option.some.inj hq

theorem opens_next (h : p.Sound) (hl : level.Fits)
    (hn : (next level view contents p).1 = .ok (some piece)) (hq : piece.parent? = some q) :
    Opens view p.buffer q := by
  fun_induction next level view contents p with
  | case1 p =>
    cases hn
    cases hq
  | case2 p hlt _ _ _ _ planned rest hr =>
    have hnone : piece.parent? = none := parent?_afterBlocks (by rw [hr]; exact Except.ok.inj hn)
    cases hnone.symm.trans hq
  | case3 p hlt layout hsparse _ _ hi _ ih =>
    obtain ⟨hc, hd⟩ : p.cursor < hi ∧ hi ≤ p.dataEnd := blockEnd_bounds hlt
    exact ih (h.owe (Nat.le_of_lt hc) hd (Sound.dvd_blockEnd (hl.table layout hsparse))) hn
  | case4 p =>
    cases hn
    cases hq
  | case5 p hlt layout hsparse _ _ hi source hs =>
    obtain ⟨planned, hb, hsome⟩ := map_eq_ok.mp hn
    cases hsome
    obtain ⟨v, hv, hopen⟩ := parent?_blockPiece hb hq
    have hle := Nat.le_trans (h.dataEnd_le_size hlt) h.size_le
    exact ⟨v, p.cursor, hi, parent?_blockSource hs hv, h.aligned hlt,
      Nat.le_trans (Nat.le_of_lt hlt) hle, hopen⟩
  | case6 p _ planned rest hr =>
    have hnone : piece.parent? = none := parent?_afterBlocks (by rw [hr]; exact Except.ok.inj hn)
    cases hnone.symm.trans hq

end Plan

end parents

/-- What holds of a state of a source holds behind each pull. -/
def Source.Keeps {ε σ : Type} (s : Source ε σ) (P : σ → Prop) : Prop :=
  ∀ env a, P a → P (s.pull env a).2

namespace Source.Keeps

variable {ε β ω : Type} {base : Source ε β} {P : β → Prop} {env : ε} {a b : β} {pulled : Pulled}

theorem of_pull (h : base.Keeps P) (ha : P a) (hp : base.pull env a = (pulled, b)) : P b := by
  have hkept := h env a ha
  rwa [hp] at hkept

theorem andThen (h : base.Keeps P) (second : Source ε ω) :
    (base.andThen second).Keeps fun s => P s.1 := by
  rintro env ⟨a, c⟩ ha
  simp only [Source.andThen]
  split
  · next b hp => exact h.of_pull ha hp
  · next pulled b _ hp => exact h.of_pull ha hp

theorem merge (h : base.Keeps P) (own : Source ε ω) :
    (SectorMerge.source base own).Keeps fun m => P m.base.source := by
  intro env m hm
  change P (SectorMerge.pull base own env m).2.base.source
  fun_induction SectorMerge.pull base own env m with
  | case1 | case2 | case3 | case4 | case9 => exact hm
  | case5 m _ _ _ _ bytes s hp ih => exact ih (h.of_pull hm hp)
  | case6 m _ _ _ _ e s hp => exact h.of_pull hm hp
  | case7 m _ _ _ _ s hp ih => exact ih (h.of_pull hm hp)
  | case8 m _ _ _ _ bytes s hp ih => exact ih hm
  | case10 m _ _ _ _ s hp ih => exact ih hm

variable {parent : Source Files β}

theorem piece (h : parent.Keeps P) (place : Place) :
    (Piece.source place parent).Keeps fun piece => ∀ q, piece.parent? = some q → P q := by
  have hinherited := h.andThen ZeroRun.source
  intro files piece hpiece q hq
  cases piece with
  | file range => cases hq
  | zeros run => cases hq
  | inherited range =>
    cases hq
    exact hinherited files range (hpiece _ rfl)
  | footer bytes => cases bytes <;> cases hq
  | merge m =>
    cases hq
    exact hinherited.merge (Piece.fileSource place) files m (hpiece _ rfl)

theorem levelStream {level : Level} {view : Option (ParentView β)}
    {hv : ∀ v, view = some v → v.IsBounded parent} {Q : Plan → Prop} (h : parent.Keeps P)
    (hplan : ∀ contents p, Q p → Q (p.next level view contents).2)
    (hopen : ∀ contents p piece q, Q p → (p.next level view contents).1 = .ok (some piece) →
      piece.parent? = some q → P q) :
    (LevelStream.source level parent view hv).Keeps fun t =>
      Q t.plan ∧ ∀ piece q, t.active = some piece → piece.parent? = some q → P q := by
  intro files t ht
  change Q (LevelStream.pull level parent view files t).2.plan ∧
    ∀ piece q, (LevelStream.pull level parent view files t).2.active = some piece → _
  have hpiece := h.piece level.place
  fun_induction LevelStream.pull level parent view files t with
  | case1 => exact ht
  | case2 t _ piece ha bytes rest hr _ ih =>
    refine ih ⟨ht.1, ?_⟩
    rintro _ q ⟨⟩
    exact hpiece.of_pull (ht.2 piece · ha) hr q
  | case3 t _ piece ha bytes rest hr =>
    refine ⟨ht.1, ?_⟩
    rintro _ q ⟨⟩
    exact hpiece.of_pull (ht.2 piece · ha) hr q
  | case4 t =>
    refine ⟨ht.1, ?_⟩
    rintro _ _ ⟨⟩
  | case5 t _ _ _ _ _ ih =>
    refine ih ⟨ht.1, ?_⟩
    rintro _ _ ⟨⟩
  | case6 t _ ha piece plan hn ih =>
    have hnext := hplan (files.contents level.place) t.plan ht.1
    rw [hn] at hnext
    refine ih ⟨hnext, ?_⟩
    rintro _ q ⟨⟩ hq
    exact hopen _ _ _ _ ht.1 (congrArg Prod.fst hn) hq
  | case7 t _ ha plan hn =>
    have hnext := hplan (files.contents level.place) t.plan ht.1
    rw [hn] at hnext
    refine ⟨hnext, ?_⟩
    intro piece q hactive
    cases ha.symm.trans hactive
  | case8 t _ ha e plan hn =>
    have hnext := hplan (files.contents level.place) t.plan ht.1
    rw [hn] at hnext
    refine ⟨hnext, ?_⟩
    rintro _ _ ⟨⟩

end Source.Keeps

namespace ChainStream

/-- What a stream through the chain `top` can come to, and the streams of parents that it
opens: it is pulled and closed at any time, and the files may change between two steps. -/
inductive Arises {top : List Level} (s : ChainStream top) :
    (chain : List Level) → ChainStream chain → Prop
  | first : Arises s top s
  | pulled {chain : List Level} {t : ChainStream chain} (files : Files) : Arises s chain t →
      Arises s chain ((source chain).pull files t).2
  | planned {level : Level} {ancestors : List Level} {t : LevelStream (ChainStream ancestors)}
      (contents : ByteArray) : Arises s (level :: ancestors) t → Arises s (level :: ancestors)
        { t with plan := (t.plan.next level (view ancestors) contents).2 }
  | opened {level : Level} {ancestors : List Level} {t : LevelStream (ChainStream ancestors)}
      {contents : ByteArray} {piece : Piece (ChainStream ancestors)} {q : ChainStream ancestors} :
      Arises s (level :: ancestors) t →
      (t.plan.next level (view ancestors) contents).1 = .ok (some piece) →
      piece.parent? = some q → Arises s ancestors q
  | closed {level : Level} {ancestors : List Level} {t : LevelStream (ChainStream ancestors)}
      (phase : Phase) : Arises s (level :: ancestors) t →
      Arises s (level :: ancestors) { t with active := none, phase }

/-- The stream, the stream of the parent that it uses, and those that this one uses. -/
inductive InUse : (chain : List Level) → ChainStream chain →
    (below : List Level) → ChainStream below → Prop
  | self {chain : List Level} {t : ChainStream chain} : InUse chain t chain t
  | parent {level : Level} {ancestors below : List Level} {t : LevelStream (ChainStream ancestors)}
      {piece : Piece (ChainStream ancestors)} {q : ChainStream ancestors} {u : ChainStream below} :
      t.active = some piece → piece.parent? = some q → InUse ancestors q below u →
      InUse (level :: ancestors) t below u

end ChainStream

end VirtualDisk
