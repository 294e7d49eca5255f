import VirtualDisk.Stream.Plan

namespace VirtualDisk

namespace Plan

variable {π : Type}

def pieceBudget (parent : Source Files π) : Option (Piece π) → Nat
  | some piece => piece.budget parent
  | none => 0

theorem work_paid {p : Plan} (h : 0 < p.owed) : p.paid.work < p.work := by
  have : p.paid.dataEnd = p.dataEnd := rfl
  simp only [work, this]
  simp [paid, h]

theorem left_paid (p : Plan) : p.owed + p.paid.left = p.left := by
  have : p.paid.dataEnd = p.dataEnd := rfl
  have : p.paid.footerLeft = p.footerLeft := rfl
  simp only [left] at *
  simp only [paid] at *
  omega

theorem work_afterBlocks {flattened : Footer} {p : Plan} {piece : Piece π}
    (h : (afterBlocks flattened p).1 = some piece) :
    (@afterBlocks π flattened p).2.work < p.work := by
  unfold afterBlocks at h ⊢
  split
  · next ho => simp only [work, paid, dataEnd, ho, decide_true, Bool.toNat_true]; simp
  · next ho =>
    rw [if_neg ho] at h
    split
    · next hf => rw [if_pos hf] at h; contradiction
    · next hf =>
      simp only at h ⊢
      split <;> simp [work, dataEnd, Bool.eq_false_iff.mpr hf]

theorem left_afterBlocks (parent : Source Files π) (flattened : Footer) (p : Plan) :
    pieceBudget parent (afterBlocks flattened p).1 + (@afterBlocks π flattened p).2.left
      ≤ p.left := by
  unfold afterBlocks
  split
  · exact Nat.le_of_eq p.left_paid
  · split
    · simp [pieceBudget]
    · next hf =>
      simp only
      split
      · next hs =>
        have hl : p.footerLeft = p.stop - p.footerStart := if_neg hf
        simp only [pieceBudget, Piece.budget, left, size_slice, hl]
        simp only [footerLeft, if_true, dataEnd]
        omega
      · simp only [pieceBudget, left]; simp only [footerLeft, if_true, dataEnd]; omega

theorem budget_blockPiece {parent : Source Files π} {table : BlockTable} {contents : ByteArray}
    {buffer : BufferSize} {lo hi : Nat} {source : BlockSource π} {piece : Piece π}
    (hv : ∀ v, source.parent? = some v → v.IsBounded parent)
    (h : blockPiece table contents buffer lo hi source = .ok piece) :
    piece.budget parent ≤ hi - lo := by
  have hown (data) : (ownRange table buffer data lo hi).remaining = hi - lo := rfl
  have hinherited (v) (h : ParentView.IsBounded parent v) :
      (Piece.inheritedSource parent).budget (parentRange v buffer lo hi) ≤ hi - lo := by
    have := h lo (max (min hi v.size) lo) buffer
    simp only [Piece.inheritedSource, Source.andThen, parentRange, ZeroRun.source]
    omega
  cases source with
  | own data =>
    cases h
    exact Nat.le_of_eq (hown data)
  | inherited v =>
    cases h
    exact hinherited v (hv v rfl)
  | both bitmapOffset data v =>
    simp only [blockPiece] at h
    cases hb : readAt contents bitmapOffset table.bitmapSize "block bitmap" with
    | error e => rw [hb] at h; contradiction
    | ok bitmap =>
      rw [hb] at h
      simp only [bind, Except.bind, pure, Except.pure, Except.ok.injEq] at h
      subst h
      split
      · exact Nat.le_of_eq (hown data)
      · exact hinherited v (hv v rfl)
      · simp only [Piece.budget, SectorMerge.ofSources, MergeSide.ofSource, ByteArray.size_empty,
          Nat.zero_add]
        exact hinherited v (hv v rfl)

theorem parent?_blockSource {layout : SparseLayout} {view : Option (ParentView π)} {index : Nat}
    {source : BlockSource π} {v : ParentView π} (h : blockSource layout view index = some source)
    (hv : source.parent? = some v) : view = some v := by
  have hf {w} (h : view.filter (fun _ => layout.coverage.mayBeInParent index) = some w) :
      view = some w := (Option.filter_eq_some_iff.mp h).1
  unfold blockSource at h
  split at h <;> cases h
  · simp [BlockSource.parent?] at hv
  · next hw => cases hv; exact hf hw
  · next hw => cases hv; exact hf hw

theorem work_of_cursor_lt {p : Plan} {cursor owed : Nat} (hc : p.cursor < cursor)
    (hd : cursor ≤ p.dataEnd) : Plan.work { p with cursor, owed } < p.work := by
  have : Plan.dataEnd { p with cursor, owed } = p.dataEnd := rfl
  have := Bool.toNat_le (decide (0 < owed))
  simp only [work, dataEnd] at *
  omega

theorem left_of_cursor_le {p : Plan} {cursor : Nat} (hc : p.cursor ≤ cursor)
    (hd : cursor ≤ p.dataEnd) :
    (cursor - p.cursor) + Plan.left { p with cursor } = p.left := by
  have : Plan.dataEnd { p with cursor } = p.dataEnd := rfl
  have : Plan.footerLeft { p with cursor } = p.footerLeft := rfl
  simp only [left] at *
  omega

theorem left_of_owed {p : Plan} {cursor : Nat} (hc : p.cursor ≤ cursor) (hd : cursor ≤ p.dataEnd) :
    Plan.left { p with cursor, owed := p.owed + (cursor - p.cursor) } = p.left := by
  have : Plan.dataEnd { p with cursor, owed := p.owed + (cursor - p.cursor) } = p.dataEnd := rfl
  have : Plan.footerLeft { p with cursor, owed := p.owed + (cursor - p.cursor) } = p.footerLeft :=
    rfl
  simp only [left] at *
  omega

theorem blockEnd_bounds {table : BlockTable} {p : Plan} (hp : p.cursor < p.dataEnd) :
    p.cursor < min (blockEnd table p.cursor) p.dataEnd ∧
      min (blockEnd table p.cursor) p.dataEnd ≤ p.dataEnd := by
  have := lt_blockEnd table p.cursor
  omega

theorem work_next {level : Level} {view : Option (ParentView π)} {contents : ByteArray} {p : Plan}
    {piece : Piece π} (h : (next level view contents p).1 = .ok (some piece)) :
    (next level view contents p).2.work < p.work := by
  fun_induction next level view contents p with
  | case1 p hp => exact work_of_cursor_lt hp (Nat.le_refl _)
  | case2 p hp _ _ _ _ planned rest hr =>
    have ha := @work_of_cursor_lt p p.dataEnd (p.owed + (p.dataEnd - p.cursor)) hp (Nat.le_refl _)
    have hb := work_afterBlocks (by rw [hr]; exact Except.ok.inj h)
    rw [hr] at hb
    exact Nat.lt_trans hb ha
  | case3 p hp layout _ _ _ _ _ ih =>
    obtain ⟨hl, hd⟩ := @blockEnd_bounds layout.table p hp
    exact Nat.lt_trans (ih h) (work_of_cursor_lt hl hd)
  | case4 p _ _ _ _ _ _ _ ho => exact work_paid ho
  | case5 p hp layout =>
    obtain ⟨hl, hd⟩ := @blockEnd_bounds layout.table p hp
    exact work_of_cursor_lt hl hd
  | case6 p _ planned rest hr =>
    have hb := work_afterBlocks (by rw [hr]; exact Except.ok.inj h)
    rwa [hr] at hb

theorem left_next {parent : Source Files π} {level : Level} {view : Option (ParentView π)}
    (hv : ∀ v, view = some v → v.IsBounded parent) (contents : ByteArray) (p : Plan) :
    (∀ piece, (next level view contents p).1 = .ok piece →
        pieceBudget parent piece + (next level view contents p).2.left ≤ p.left) ∧
      (next level view contents p).2.left ≤ p.left := by
  fun_induction next level view contents p with
  | case1 p hp =>
    have hl := left_of_cursor_le (Nat.le_of_lt hp) (Nat.le_refl _)
    refine ⟨?_, by simp only; omega⟩
    rintro _ ⟨⟩
    exact Nat.le_of_eq hl
  | case2 p hp _ _ _ _ planned rest hr =>
    have ha := left_of_owed (Nat.le_of_lt hp) (Nat.le_refl _)
    have hb := left_afterBlocks parent level.flattenedFooter
      { p with owed := p.owed + (p.dataEnd - p.cursor), cursor := p.dataEnd }
    rw [hr] at hb
    simp only at hb ha ⊢
    refine ⟨?_, by omega⟩
    rintro _ ⟨⟩
    omega
  | case3 p hp layout _ _ _ hi _ ih =>
    obtain ⟨hl, hd⟩ := @blockEnd_bounds layout.table p hp
    have ha := left_of_owed (Nat.le_of_lt hl) hd
    exact ⟨fun piece h => ha ▸ ih.1 piece h, ha ▸ ih.2⟩
  | case4 p _ _ _ _ _ _ _ ho =>
    have hl := p.left_paid
    refine ⟨?_, by simp only; omega⟩
    rintro _ ⟨⟩
    exact Nat.le_of_eq hl
  | case5 p hp layout _ _ _ hi source hs _ =>
    obtain ⟨hc, hd⟩ : p.cursor < hi ∧ hi ≤ p.dataEnd := blockEnd_bounds hp
    have hl := left_of_cursor_le (Nat.le_of_lt hc) hd
    refine ⟨fun piece h => ?_, by simp only; omega⟩
    cases hb : blockPiece layout.table contents p.buffer p.cursor hi source with
    | error e => rw [hb] at h; contradiction
    | ok planned =>
      rw [hb] at h
      cases h
      have := budget_blockPiece (fun v h => hv v (parent?_blockSource hs h)) hb
      simp only [pieceBudget]
      omega
  | case6 p _ planned rest hr =>
    have hb := left_afterBlocks parent level.flattenedFooter p
    rw [hr] at hb
    simp only at hb ⊢
    refine ⟨?_, by omega⟩
    rintro _ ⟨⟩
    omega

theorem work_of_next {level : Level} {view : Option (ParentView π)} {contents : ByteArray}
    {p rest : Plan} {piece : Piece π}
    (h : next level view contents p = (.ok (some piece), rest)) : rest.work < p.work := by
  have := @work_next π level view contents p piece (by rw [h])
  rwa [h] at this

theorem left_of_next {parent : Source Files π} {level : Level} {view : Option (ParentView π)}
    (hv : ∀ v, view = some v → v.IsBounded parent) {contents : ByteArray} {p rest : Plan}
    {result : Except Error (Option (Piece π))}
    (h : next level view contents p = (result, rest)) :
    (∀ piece, result = .ok piece → pieceBudget parent piece + rest.left ≤ p.left) ∧
      rest.left ≤ p.left := by
  have := @left_next π parent level view hv contents p
  rwa [h] at this

end Plan

end VirtualDisk
