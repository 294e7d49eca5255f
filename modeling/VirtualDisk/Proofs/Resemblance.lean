import Mathlib.Data.List.Forall2
import VirtualDisk.Proofs.ChainYield
import VirtualDisk.Proofs.Opened
import VirtualDisk.Proofs.StreamLedger

namespace VirtualDisk

namespace Source

variable {ε σ σ' τ : Type} {s : Source ε σ} {s' : Source ε σ'} {R : σ → σ' → Prop} {env : ε}
  {a : σ} {b : σ'}

/-- Two sources bring the same from related states, and leave related states. -/
def Mirrors (s : Source ε σ) (s' : Source ε σ') (R : σ → σ' → Prop) : Prop :=
  ∀ env a b, R a b → (s.pull env a).1 = (s'.pull env b).1 ∧ R (s.pull env a).2 (s'.pull env b).2

def FirstLike (R : σ → σ' → Prop) (x : σ × τ) (y : σ' × τ) : Prop := R x.1 y.1 ∧ x.2 = y.2

theorem Mirrors.pull (h : s.Mirrors s' R) (hr : R a b) {p : Pulled} {rest : σ}
    (hp : s.pull env a = (p, rest)) : ∃ rest', s'.pull env b = (p, rest') ∧ R rest rest' := by
  obtain ⟨hpulled, hrest⟩ := h env a b hr
  rw [hp] at hpulled hrest
  exact ⟨_, Prod.ext hpulled.symm rfl, hrest⟩

theorem Mirrors.andThen (h : s.Mirrors s' R) (second : Source ε τ) :
    (s.andThen second).Mirrors (s'.andThen second) (FirstLike R) := by
  rintro env ⟨a, c⟩ ⟨b, _⟩ ⟨hr, rfl⟩
  rcases hp : s.pull env a with ⟨p, rest⟩
  obtain ⟨rest', hp', hrest⟩ := h.pull hr hp
  simp only [Source.andThen, hp, hp']
  cases p with
  | chunk bytes => exact ⟨rfl, hrest, rfl⟩
  | failed e => exact ⟨rfl, hrest, rfl⟩
  | ended => exact ⟨rfl, hrest, rfl⟩

end Source

open Source

namespace SectorMerge

variable {ε β β' ω : Type} {base : Source ε β} {base' : Source ε β'} {own : Source ε ω}
  {R : β → β' → Prop}

def withBase (m : SectorMerge β ω) (b : β') : SectorMerge β' ω :=
  { m with base := ⟨b, m.base.pending, m.base.ended, m.base.received⟩ }

def Like (R : β → β' → Prop) (m : SectorMerge β ω) (n : SectorMerge β' ω) : Prop :=
  ∃ b, R m.base.source b ∧ n = m.withBase b

theorem pull_withBase {env : ε} {m : SectorMerge β ω} {b rest : β'} {p : Pulled}
    (hf : ¬m.finished = true) (hr : ¬0 < m.ready) (he : ¬(m.base.ended = true ∧ m.own.ended = true))
    (hw : m.wantsBase = true) (hp : base'.pull env b = (p, rest)) :
    pull base' own env (m.withBase b) = match p with
      | .chunk bytes =>
        pull base' own env ({ m with base := m.base.receive bytes m.base.source }.withBase rest)
      | .failed e => (.failed e, { m with finished := true }.withBase rest)
      | .ended => pull base' own env ({ m with base.ended := true }.withBase rest) := by
  have hpull := @pull_base _ _ _ base' own env (m.withBase b) (Bool.eq_false_iff.mpr hf) hr he hw
  rw [show (m.withBase b).base.source = b from rfl, hp] at hpull
  rw [hpull]
  cases p <;> rfl

theorem pull_withBase_own {env : ε} {m : SectorMerge β ω} {b : β'} {rest : ω} {p : Pulled}
    (hf : ¬m.finished = true) (hr : ¬0 < m.ready) (he : ¬(m.base.ended = true ∧ m.own.ended = true))
    (hw : ¬m.wantsBase = true) (hp : own.pull env m.own.source = (p, rest)) :
    pull base' own env (m.withBase b) = match p with
      | .chunk bytes => pull base' own env ({ m with own := m.own.receive bytes rest }.withBase b)
      | .failed e => (.failed e, { m with own.source := rest, finished := true }.withBase b)
      | .ended =>
        pull base' own env ({ m with own.source := rest, own.ended := true }.withBase b) := by
  have hpull := @pull_own _ _ _ base' own env (m.withBase b) (Bool.eq_false_iff.mpr hf) hr he hw
  rw [show (m.withBase b).own.source = m.own.source from rfl, hp] at hpull
  rw [hpull]
  cases p <;> rfl

theorem mirrors (h : base.Mirrors base' R) :
    (SectorMerge.source base own).Mirrors (SectorMerge.source base' own) (Like R) := by
  rintro env m _ ⟨b, hr, rfl⟩
  change (pull base own env m).1 = (pull base' own env (m.withBase b)).1 ∧
    Like R (pull base own env m).2 (pull base' own env (m.withBase b)).2
  fun_induction pull base own env m generalizing b with
  | case1 m hf =>
    rw [pull, if_pos (by exact hf)]
    exact ⟨rfl, b, hr, rfl⟩
  | case2 m hf hready =>
    rw [pull, if_neg (by exact hf), if_pos (by exact hready)]
    exact ⟨rfl, b, hr, rfl⟩
  | case3 m hf hready he hz =>
    rw [pull, if_neg (by exact hf), if_neg (by exact hready), if_pos (by exact he),
      if_pos (by exact hz)]
    exact ⟨rfl, b, hr, rfl⟩
  | case4 m hf hready he hz =>
    rw [pull, if_neg (by exact hf), if_neg (by exact hready), if_pos (by exact he),
      if_neg (by exact hz)]
    exact ⟨rfl, b, hr, rfl⟩
  | case5 m hf hready he hw bytes rest hp ih =>
    obtain ⟨rest', hp', hrest⟩ := h.pull hr hp
    rw [pull_withBase hf hready he hw hp']
    exact ih rest' hrest
  | case6 m hf hready he hw e rest hp =>
    obtain ⟨rest', hp', hrest⟩ := h.pull hr hp
    rw [pull_withBase hf hready he hw hp']
    exact ⟨rfl, rest', hrest, rfl⟩
  | case7 m hf hready he hw rest hp ih =>
    obtain ⟨rest', hp', hrest⟩ := h.pull hr hp
    rw [pull_withBase hf hready he hw hp']
    exact ih rest' hrest
  | case8 m hf hready he hw bytes rest hp ih =>
    rw [pull_withBase_own hf hready he hw hp]
    exact ih b hr
  | case9 m hf hready he hw e rest hp =>
    rw [pull_withBase_own hf hready he hw hp]
    exact ⟨rfl, b, hr, rfl⟩
  | case10 m hf hready he hw rest hp ih =>
    rw [pull_withBase_own hf hready he hw hp]
    exact ih b hr

end SectorMerge

/-- Two pulls bring the same, or parts of two footers as the last chunks. -/
inductive Pulled.Same (parts : ByteArray → ByteArray → Prop) (isLast : Prop) :
    Pulled → Pulled → Prop
  | refl (p : Pulled) : Same parts isLast p p
  | parts {bytes bytes' : ByteArray} : isLast → parts bytes bytes' →
      Same parts isLast (.chunk bytes) (.chunk bytes')

namespace Piece

variable {π ρ : Type} {parts : ByteArray → ByteArray → Prop} {R : π → ρ → Prop} {place : Place}
  {parent : Source Files π} {parent' : Source Files ρ}

inductive Like (parts : ByteArray → ByteArray → Prop) (R : π → ρ → Prop) :
    Piece π → Piece ρ → Prop
  | file (range : FileRange) : Like parts R (.file range) (.file range)
  | zeros (run : ZeroRun) : Like parts R (.zeros run) (.zeros run)
  | inherited {range : Inherited π} {range' : Inherited ρ} : FirstLike R range range' →
      Like parts R (.inherited range) (.inherited range')
  | footer {bytes bytes' : ByteArray} : parts bytes bytes' →
      Like parts R (.footer (some bytes)) (.footer (some bytes'))
  | given : Like parts R (.footer none) (.footer none)
  | merge {m : SectorMerge (Inherited π) FileRange} {m' : SectorMerge (Inherited ρ) FileRange} :
      m.Like (FirstLike R) m' → Like parts R (.merge m) (.merge m')

theorem Like.pull {x : Piece π} {y : Piece ρ} (h : Like parts R x y)
    (hparent : parent.Mirrors parent' R) (files : Files) :
    (Piece.pull place parent files x).1.Same parts
        ((Piece.pull place parent files x).2 = .footer none)
        (Piece.pull place parent' files y).1 ∧
      Like parts R (Piece.pull place parent files x).2 (Piece.pull place parent' files y).2 := by
  have hinherited := hparent.andThen (ZeroRun.source (ε := Files))
  cases h with
  | file range => exact ⟨.refl _, .file _⟩
  | zeros run => exact ⟨.refl _, .zeros _⟩
  | inherited hr =>
    obtain ⟨hp, hrest⟩ := hinherited files _ _ hr
    exact ⟨hp ▸ .refl _, .inherited hrest⟩
  | footer hbytes => exact ⟨.parts rfl hbytes, .given⟩
  | given => exact ⟨.refl _, .given⟩
  | merge hm =>
    have hmerge : (mergeSource place parent).Mirrors (mergeSource place parent') _ :=
      SectorMerge.mirrors hinherited
    obtain ⟨hp, hrest⟩ := hmerge files _ _ hm
    exact ⟨hp ▸ .refl _, .merge hrest⟩

theorem Like.pull_of {x rest : Piece π} {y : Piece ρ} {files : Files} {p : Pulled}
    (h : Like parts R x y) (hparent : parent.Mirrors parent' R)
    (hp : (Piece.source place parent).pull files x = (p, rest)) :
    ∃ q rest', (Piece.source place parent').pull files y = (q, rest') ∧
      p.Same parts (rest = .footer none) q ∧ Like parts R rest rest' := by
  obtain ⟨hsame, hrest⟩ := @Like.pull π ρ parts R place parent parent' x y h hparent files
  change Piece.pull place parent files x = (p, rest) at hp
  rw [hp] at hsame hrest
  exact ⟨_, _, rfl, hsame, hrest⟩

theorem footer_of_pull {piece rest : Piece π} {files : Files} {p : Pulled}
    (hp : (Piece.source place parent).pull files piece = (p, rest)) {bytes : Option ByteArray}
    (h : rest = .footer bytes) : ∃ before, piece = .footer before := by
  have hrest : (Piece.pull place parent files piece).2 = rest := congrArg Prod.snd hp
  rw [h] at hrest
  cases piece with
  | file range => cases hrest
  | zeros run => cases hrest
  | inherited range => cases hrest
  | footer before => exact ⟨before, rfl⟩
  | merge m => cases hrest

end Piece

section plan

variable {π ρ : Type} {parts : ByteArray → ByteArray → Prop} {R : π → ρ → Prop}
  {view : Option (ParentView π)} {view' : Option (ParentView ρ)}

structure ParentView.Like (R : π → ρ → Prop) (v : ParentView π) (w : ParentView ρ) : Prop where
  size_eq : v.size = w.size
  openAt : ∀ lo hi buffer, R (v.openAt lo (max (min hi v.size) lo) buffer)
    (w.openAt lo (max (min hi v.size) lo) buffer)

inductive BlockSource.Like (R : π → ρ → Prop) : BlockSource π → BlockSource ρ → Prop
  | own (data : Nat) : Like R (.own data) (.own data)
  | inherited {v : ParentView π} {w : ParentView ρ} : v.Like R w →
      Like R (.inherited v) (.inherited w)
  | both (bitmap data : Nat) {v : ParentView π} {w : ParentView ρ} : v.Like R w →
      Like R (.both bitmap data v) (.both bitmap data w)

namespace Plan

inductive Found (parts : ByteArray → ByteArray → Prop) (R : π → ρ → Prop) :
    Except Error (Option (Piece π)) → Except Error (Option (Piece ρ)) → Prop
  | error (e : Error) : Found parts R (.error e) (.error e)
  | nothing : Found parts R (.ok none) (.ok none)
  | piece {x : Piece π} {y : Piece ρ} : x.Like parts R y →
      Found parts R (.ok (some x)) (.ok (some y))

theorem like_parentRange {v : ParentView π} {w : ParentView ρ} (h : v.Like R w)
    (buffer : BufferSize) (lo hi : Nat) :
    FirstLike R (parentRange v buffer lo hi) (parentRange w buffer lo hi) := by
  unfold parentRange
  rw [← h.size_eq]
  exact ⟨h.openAt lo hi buffer, rfl⟩

theorem like_blockSource (h : Option.Rel (ParentView.Like R) view view') (layout : SparseLayout)
    (index : Nat) : Option.Rel (BlockSource.Like R) (blockSource layout view index)
      (blockSource layout view' index) := by
  unfold blockSource
  cases h with
  | none =>
    cases layout.table.sector? index with
    | none => exact .none
    | some sector => exact .some (.own _)
  | some hv =>
    simp only [Option.filter]
    cases layout.coverage.mayBeInParent index with
    | true =>
      cases layout.table.sector? index with
      | none => exact .some (.inherited hv)
      | some sector => exact .some (.both _ _ hv)
    | false =>
      cases layout.table.sector? index with
      | none => exact .none
      | some sector => exact .some (.own _)

theorem found_blockPiece {x : BlockSource π} {y : BlockSource ρ} (h : x.Like R y)
    (table : BlockTable) (contents : ByteArray) (buffer : BufferSize) (lo hi : Nat) :
    Found parts R ((blockPiece table contents buffer lo hi x).map some)
      ((blockPiece table contents buffer lo hi y).map some) := by
  cases h with
  | own data => exact .piece (.file _)
  | inherited hv => exact .piece (.inherited (like_parentRange hv buffer lo hi))
  | both bitmapOffset data hv =>
    have hrange := like_parentRange hv buffer lo hi
    simp only [blockPiece]
    cases readAt contents bitmapOffset table.bitmapSize "block bitmap" with
    | error e => exact .error e
    | ok bitmap =>
      simp only [bind, Except.bind, pure, Except.pure, Except.map]
      split
      · exact .piece (.file _)
      · exact .piece (.inherited hrange)
      · exact .piece (.merge ⟨_, hrange, rfl⟩)

def footerBytes (p : Plan) (flattened : Footer) : ByteArray :=
  slice flattened.bytes (p.footerStart - p.size) (p.stop - p.footerStart)

/-- The parts of two footers that are in a range, if it reaches into them. -/
def HasParts (parts : ByteArray → ByteArray → Prop) (f f' : Footer) (p : Plan) : Prop :=
  p.footerStart < p.stop → parts (p.footerBytes f) (p.footerBytes f')

theorem HasParts.of_bounds {f f' : Footer} {p q : Plan} (h : HasParts parts f f' p)
    (hb : q.bounds = p.bounds) : HasParts parts f f' q := by
  simp only [bounds, Prod.mk.injEq] at hb
  unfold HasParts footerBytes footerStart at *
  rwa [hb.1, hb.2.1, hb.2.2]

theorem found_afterBlocks {f f' : Footer} {p : Plan} (h : HasParts parts f f' p) :
    Found parts R (.ok (afterBlocks f p).1) (.ok (afterBlocks f' p).1) ∧
      (@afterBlocks π f p).2 = (@afterBlocks ρ f' p).2 := by
  unfold afterBlocks
  split
  · exact ⟨.piece (.zeros _), rfl⟩
  · split
    · exact ⟨.nothing, rfl⟩
    · simp only
      split
      · next hlt => exact ⟨.piece (.footer (h hlt)), rfl⟩
      · exact ⟨.nothing, rfl⟩

theorem next_of_block {l : Level} {layout : SparseLayout} {contents : ByteArray} {p : Plan}
    {source? : Option (BlockSource π)} (hp : p.cursor < p.dataEnd) (hl : l.sparse = some layout)
    (hlen : ¬layout.table.length ≤ layout.table.blockOf p.cursor)
    (hs : blockSource layout view (layout.table.blockOf p.cursor) = source?) :
    next l view contents p = match source? with
      | none => next l view contents { p with
          owed := p.owed + (min (blockEnd layout.table p.cursor) p.dataEnd - p.cursor)
          cursor := min (blockEnd layout.table p.cursor) p.dataEnd }
      | some source =>
        if 0 < p.owed then (.ok (some (.zeros p.owedRun)), p.paid)
        else ((blockPiece layout.table contents p.buffer p.cursor
            (min (blockEnd layout.table p.cursor) p.dataEnd) source).map some,
          { p with cursor := min (blockEnd layout.table p.cursor) p.dataEnd }) := by
  rw [next, dif_pos hp, hl]
  simp only [if_neg hlen, hs]
  cases source? <;> rfl

theorem found_next {l l' : Level} {p : Plan} (hsparse : l.sparse = l'.sparse)
    (hview : Option.Rel (ParentView.Like R) view view')
    (hparts : HasParts parts l.flattenedFooter l'.flattenedFooter p) (contents : ByteArray) :
    Found parts R (next l view contents p).1 (next l' view' contents p).1 ∧
      (next l view contents p).2 = (next l' view' contents p).2 := by
  fun_induction next l view contents p with
  | case1 p hp hfixed =>
    rw [next, dif_pos hp, ← hsparse, hfixed]
    exact ⟨.piece (.file _), rfl⟩
  | case2 p hp layout hl index hlen piece rest hr =>
    have hfound : Found parts R (.ok (afterBlocks l.flattenedFooter _).1) _ ∧ _ :=
      found_afterBlocks (p := { p with
        owed := p.owed + (p.dataEnd - p.cursor), cursor := p.dataEnd }) hparts
    rw [hr] at hfound
    rw [next, dif_pos hp, ← hsparse, hl]
    simp only [if_pos (show layout.table.length ≤ layout.table.blockOf p.cursor from hlen)]
    exact hfound
  | case3 p hp layout hl index hlen hi hsource ih =>
    have hlike := like_blockSource hview layout index
    generalize hb : blockSource layout view' index = source? at hlike
    rw [hsource] at hlike
    cases hlike
    rw [next_of_block hp (hsparse ▸ hl) hlen hb]
    exact ih hparts
  | case4 p hp layout hl index hlen source hsource ho =>
    have hlike := like_blockSource hview layout index
    generalize hb : blockSource layout view' index = source? at hlike
    rw [hsource] at hlike
    cases hlike
    rw [next_of_block hp (hsparse ▸ hl) hlen hb]
    simp only [if_pos ho]
    exact ⟨.piece (.zeros _), trivial⟩
  | case5 p hp layout hl index hlen hi source hsource ho =>
    have hlike := like_blockSource hview layout index
    generalize hb : blockSource layout view' index = source? at hlike
    rw [hsource] at hlike
    cases hlike with
    | some hx =>
      rw [next_of_block hp (hsparse ▸ hl) hlen hb]
      simp only [if_neg ho]
      exact ⟨found_blockPiece hx layout.table contents p.buffer p.cursor hi, rfl⟩
  | case6 p hp piece rest hr =>
    have hfound : Found parts R (.ok (afterBlocks l.flattenedFooter p).1) _ ∧ _ :=
      found_afterBlocks hparts
    rw [hr] at hfound
    rw [next, dif_neg hp]
    exact hfound

theorem found_of_next {l l' : Level} {p rest : Plan} {contents : ByteArray}
    {result : Except Error (Option (Piece π))} (hsparse : l.sparse = l'.sparse)
    (hview : Option.Rel (ParentView.Like R) view view')
    (hparts : HasParts parts l.flattenedFooter l'.flattenedFooter p)
    (hn : next l view contents p = (result, rest)) :
    ∃ result', next l' view' contents p = (result', rest) ∧ Found parts R result result' ∧
      HasParts parts l.flattenedFooter l'.flattenedFooter rest := by
  obtain ⟨hfound, hrest⟩ := found_next hsparse hview hparts contents
  have hbounds := bounds_next l view contents p
  rw [hn] at hfound hrest hbounds
  exact ⟨_, Prod.ext rfl hrest.symm, hfound, hparts.of_bounds hbounds⟩

theorem not_footer_of_blockPiece {table : BlockTable} {contents : ByteArray} {buffer : BufferSize}
    {lo hi : Nat} {source : BlockSource π} {bytes : Option ByteArray} :
    blockPiece table contents buffer lo hi source ≠ .ok (.footer bytes) := by
  intro h
  cases source with
  | own data => cases h
  | inherited v => cases h
  | both bitmapOffset data v =>
    simp only [blockPiece] at h
    cases hb : readAt contents bitmapOffset table.bitmapSize "block bitmap" with
    | error e => rw [hb] at h; cases h
    | ok bitmap =>
      rw [hb] at h
      simp only [bind, Except.bind, pure, Except.pure, Except.ok.injEq] at h
      split at h <;> cases h

theorem left_of_footer_afterBlocks {f : Footer} {p rest : Plan} {bytes : Option ByteArray}
    (hd : p.dataEnd ≤ p.cursor) (h : afterBlocks f p = (some (.footer bytes : Piece π), rest)) :
    rest.left = 0 := by
  unfold afterBlocks at h
  split at h
  · cases h
  · next ho =>
    split at h
    · cases h
    · simp only at h
      split at h
      · cases h
        change p.owed + (p.dataEnd - p.cursor) + 0 = 0
        omega
      · cases h

theorem left_of_footer {l : Level} {contents : ByteArray} {p rest : Plan}
    {bytes : Option ByteArray} (h : next l view contents p = (.ok (some (.footer bytes)), rest)) :
    rest.left = 0 := by
  fun_induction next l view contents p with
  | case1 p hp hfixed => cases h
  | case2 p hp layout hl index hlen piece after hr =>
    cases h
    exact left_of_footer_afterBlocks (Nat.le_refl _) hr
  | case3 p hp layout hl index hlen hi hsource ih => exact ih h
  | case4 p hp layout hl index hlen source hsource ho => cases h
  | case5 p hp layout hl index hlen hi source hsource ho =>
    obtain ⟨piece, hpiece, hsome⟩ := map_eq_ok.mp (congrArg Prod.fst h)
    cases hsome
    exact absurd hpiece not_footer_of_blockPiece
  | case6 p hp piece after hr =>
    cases h
    exact left_of_footer_afterBlocks (Nat.not_lt.mp hp) hr

end Plan

end plan

/-- Levels of which a stream takes the same, up to the footers of their flattened disks. -/
structure Level.Resembles (l l' : Level) : Prop where
  place_eq : l.place = l'.place
  sparse_eq : l.sparse = l'.sparse
  size_eq : l.footer.currentSize = l'.footer.currentSize

namespace LevelStream

variable {π ρ : Type} {parts : ByteArray → ByteArray → Prop} {R : π → ρ → Prop} {l l' : Level}
  {parent : Source Files π} {parent' : Source Files ρ} {view : Option (ParentView π)}
  {view' : Option (ParentView ρ)}

/-- Streams in the same state, up to the parts of two footers that are in the range. -/
structure Like (parts : ByteArray → ByteArray → Prop) (R : π → ρ → Prop) (f f' : Footer)
    (s : LevelStream π) (t : LevelStream ρ) : Prop where
  plan_eq : s.plan = t.plan
  given_eq : s.given = t.given
  phase_eq : s.phase = t.phase
  active : Option.Rel (Piece.Like parts R) s.active t.active
  hasParts : s.plan.HasParts parts f f'
  left_of_footer : ∀ bytes, s.active = some (.footer bytes) → s.plan.left = 0

theorem Like.ofRange (hl : l.Resembles l') {start stop : Nat} {buffer : BufferSize}
    (h : (Plan.ofRange l.footer.currentSize start stop buffer).HasParts parts l.flattenedFooter
      l'.flattenedFooter) :
    Like parts R l.flattenedFooter l'.flattenedFooter (ofRange l start stop buffer)
      (ofRange l' start stop buffer) where
  plan_eq := by
    unfold LevelStream.ofRange
    rw [hl.size_eq]
  given_eq := rfl
  phase_eq := rfl
  active := .none
  hasParts := h
  left_of_footer := fun _ h => nomatch h

section round

variable {f f' : Footer} {s : LevelStream π} {t : LevelStream ρ}

theorem Like.of_none {plan : Plan} {given : Nat} (h : plan.HasParts parts f f') (phase : Phase) :
    Like parts R f f' (⟨plan, given, none, phase⟩ : LevelStream π)
      (⟨plan, given, none, phase⟩ : LevelStream ρ) :=
  ⟨rfl, rfl, rfl, .none, h, fun _ hn => nomatch hn⟩

theorem Like.active_cases (h : Like parts R f f' s t) :
    s.active = none ∧ t.active = none ∨
      ∃ x y, s.active = some x ∧ t.active = some y ∧ x.Like parts R y := by
  have hactive := h.active
  generalize s.active = x, t.active = y at hactive ⊢
  cases hactive with
  | none => exact .inl ⟨rfl, rfl⟩
  | some hlike => exact .inr ⟨_, _, rfl, rfl, hlike⟩

/-- Rounds of two streams that bring the same, if anything, and leave streams in the same state. -/
structure RoundsLike (parts : ByteArray → ByteArray → Prop) (R : π → ρ → Prop) (f f' : Footer)
    (x : Option Pulled × LevelStream π) (y : Option Pulled × LevelStream ρ) : Prop where
  brought : Option.Rel (Pulled.Same parts (x.2.active = some (.footer none))) x.1 y.1
  behind : Like parts R f f' x.2 y.2

theorem Like.behindPiece (h : Like parts R f f' s t)
    (hsize : ∀ bytes bytes', parts bytes bytes' → bytes.size = bytes'.size) {rest : Piece π}
    {rest' : Piece ρ} {p q : Pulled} (hsame : p.Same parts (rest = .footer none) q)
    (hrest : rest.Like parts R rest') (hleft : ∀ bytes, rest = .footer bytes → s.plan.left = 0) :
    RoundsLike parts R f f' (s.behindPiece (p, rest)) (t.behindPiece (q, rest')) := by
  obtain ⟨plan, given, active, phase⟩ := s
  obtain ⟨_, _, active', _⟩ := t
  obtain ⟨rfl, rfl, rfl, -, hparts, -⟩ := h
  have hlike (given : Nat) :
      Like parts R f f' ⟨plan, given, some rest, phase⟩ ⟨plan, given, some rest', phase⟩ :=
    ⟨rfl, rfl, rfl, .some hrest, hparts, fun bytes hb => hleft bytes (Option.some.inj hb)⟩
  cases hsame with
  | refl =>
    cases p with
    | chunk bytes =>
      simp only [LevelStream.behindPiece]
      split
      · exact ⟨.none, hlike _⟩
      · exact ⟨.some (.refl _), hlike _⟩
    | failed e => exact ⟨.some (.refl _), .of_none hparts _⟩
    | ended => exact ⟨.none, .of_none hparts _⟩
  | @parts bytes bytes' hlast hbytes =>
    have hempty : bytes.isEmpty = bytes'.isEmpty := by
      rw [ByteArray.isEmpty, ByteArray.isEmpty, hsize _ _ hbytes]
    simp only [LevelStream.behindPiece, ← hempty, ← hsize _ _ hbytes]
    split
    · exact ⟨.none, hlike _⟩
    · exact ⟨.some (.parts (congrArg some hlast) hbytes), hlike _⟩

theorem Like.behindPlan (h : Like parts R f f' s t) (ha : s.active = none)
    {result : Except Error (Option (Piece π))} {result' : Except Error (Option (Piece ρ))}
    {plan : Plan} (hfound : Plan.Found parts R result result') (hparts : plan.HasParts parts f f')
    (hleft : ∀ bytes, result = .ok (some (.footer bytes)) → plan.left = 0) :
    RoundsLike parts R f f' (s.behindPlan (result, plan)) (t.behindPlan (result', plan)) := by
  obtain ⟨_, given, active, phase⟩ := s
  obtain ⟨_, _, active', _⟩ := t
  obtain ⟨rfl, rfl, rfl, hactive, -, -⟩ := h
  cases ha
  cases hactive
  cases hfound with
  | piece hlike =>
    refine ⟨.none, rfl, rfl, rfl, .some hlike, hparts, fun bytes hb => ?_⟩
    cases hb
    exact hleft bytes rfl
  | nothing => exact ⟨.some (.refl _), .of_none hparts _⟩
  | error e => exact ⟨.some (.refl _), .of_none hparts _⟩

end round

section pull

variable {s : LevelStream π} {t : LevelStream ρ}
  (hl : l.Resembles l') (hparent : parent.Mirrors parent' R)
  (hview : Option.Rel (ParentView.Like R) view view')
  (hsize : ∀ bytes bytes', parts bytes bytes' → bytes.size = bytes'.size)
  (h : Like parts R l.flattenedFooter l'.flattenedFooter s t) (files : Files)
include hl hparent hview hsize h

theorem Like.round :
    RoundsLike parts R l.flattenedFooter l'.flattenedFooter
      (LevelStream.round l parent view files s) (LevelStream.round l' parent' view' files t) := by
  obtain ⟨ha, hy⟩ | ⟨piece, y, ha, hy, hlike⟩ := h.active_cases
  · rw [round_idle ha, round_idle hy]
    rcases hn : s.plan.next l view (files.contents l.place) with ⟨result, plan⟩
    obtain ⟨result', hnext, hfound, hparts⟩ :=
      Plan.found_of_next hl.sparse_eq hview h.hasParts hn
    rw [hl.place_eq] at hnext
    rw [← h.plan_eq, hnext]
    refine h.behindPlan ha hfound hparts fun bytes hb => ?_
    rw [hb] at hn
    exact Plan.left_of_footer hn
  · rw [round_active ha, round_active hy]
    rcases hp : (Piece.source l.place parent).pull files piece with ⟨p, rest⟩
    obtain ⟨q, rest', hq, hsame, hrest⟩ := hlike.pull_of hparent hp
    rw [hl.place_eq] at hq
    rw [hq]
    refine h.behindPiece hsize hsame hrest fun bytes hb => ?_
    obtain ⟨before, rfl⟩ := Piece.footer_of_pull hp hb
    exact h.left_of_footer before ha

theorem Like.pull :
    (LevelStream.pull l parent view files s).1.Same parts
        ((LevelStream.pull l parent view files s).2.active = some (.footer none))
        (LevelStream.pull l' parent' view' files t).1 ∧
      Like parts R l.flattenedFooter l'.flattenedFooter (LevelStream.pull l parent view files s).2
        (LevelStream.pull l' parent' view' files t).2 := by
  induction s using @pull_induct π l parent view files generalizing t with
  | closed s hs =>
    rw [pull_of_closed hs, pull_of_closed (h.phase_eq ▸ hs)]
    exact ⟨.refl _, h⟩
  | brings s p rest hs hround =>
    have hlike := h.round hl hparent hview hsize files
    rcases hother : LevelStream.round l' parent' view' files t with ⟨_ | q, rest'⟩
    · rw [hround, hother] at hlike
      cases hlike.brought
    · rw [hround, hother] at hlike
      rw [pull_of_round hs hround, pull_of_round (h.phase_eq ▸ hs) hother]
      cases hlike.brought with
      | some hsame => exact ⟨hsame, hlike.behind⟩
  | goesOn s rest hs hround ih =>
    have hlike := h.round hl hparent hview hsize files
    rcases hother : LevelStream.round l' parent' view' files t with ⟨_ | q, rest'⟩
    · rw [hround, hother] at hlike
      rw [pull_of_round_none hs hround, pull_of_round_none (h.phase_eq ▸ hs) hother]
      exact ih hlike.behind
    · rw [hround, hother] at hlike
      cases hlike.brought

end pull

end LevelStream

abbrev NoParts (_ _ : ByteArray) : Prop := False

theorem Pulled.Same.eq {isLast : Prop} {p q : Pulled} (h : p.Same NoParts isLast q) : p = q := by
  cases h with
  | refl => rfl
  | parts _ hparts => exact hparts.elim

namespace ChainStream

def Like : (chain chain' : List Level) → ChainStream chain → ChainStream chain' → Prop
  | [], _ => fun s => nomatch s
  | _, [] => fun _ t => nomatch t
  | l :: ancestors, l' :: ancestors' =>
    LevelStream.Like NoParts (Like ancestors ancestors') l.flattenedFooter l'.flattenedFooter

theorem mirrors {chain chain' : List Level} (h : List.Forall₂ Level.Resembles chain chain') :
    (source chain).Mirrors (source chain') (Like chain chain') ∧
      Option.Rel (ParentView.Like (Like chain chain')) (view chain) (view chain') := by
  induction h with
  | nil => exact ⟨fun _ s => (nomatch s), .none⟩
  | @cons l l' ancestors ancestors' hl _ ih =>
    constructor
    · intro files s t hs
      obtain ⟨hsame, hrest⟩ := LevelStream.Like.pull hl ih.1 ih.2 (fun _ _ hp => hp.elim) hs files
      exact ⟨hsame.eq, hrest⟩
    · refine .some ⟨hl.size_eq, fun lo hi buffer => .ofRange hl fun hlt => ?_⟩
      simp only [Plan.ofRange, Plan.footerStart] at hlt
      omega

end ChainStream

end VirtualDisk
