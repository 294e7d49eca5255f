import VirtualDisk.Proofs.BlockYield

namespace VirtualDisk

namespace SparseLayout

variable {layout : SparseLayout} {contents : ByteArray} {hasParent : Bool}
  {inherited : Nat → Option UInt8} {below : Nat → Nat → Prop} {lo hi : Nat}

theorem readable_of_le (h : hi ≤ lo) : layout.Readable contents hasParent below lo hi := by
  intro index _ hlt
  omega

theorem blockOf_le {index : Nat} (h : lo < (index + 1) * layout.table.blockSize) :
    layout.table.blockOf lo ≤ index :=
  Nat.lt_succ_iff.mp ((Nat.div_lt_iff_lt_mul layout.table.blockSize_pos).mpr h)

theorem byte_past_table {o : Nat} (h : layout.table.length ≤ layout.table.blockOf lo)
    (hle : lo ≤ o) : layout.byte contents hasParent inherited o = some 0 :=
  if_pos (Nat.le_trans h (Nat.div_le_div_right hle))

theorem readable_past_table (h : layout.table.length ≤ layout.table.blockOf lo) :
    layout.Readable contents hasParent below lo hi := by
  intro index hindex hlt
  have : layout.table.blockOf lo ≤ index := blockOf_le (by omega)
  omega

/-- A range that starts in a block can be given if the part in this block and
the rest can. -/
theorem readable_split (hlt : lo < hi) (hlen : layout.table.blockOf lo < layout.table.length) :
    layout.Readable contents hasParent below lo hi ↔
      layout.BlockReadable contents hasParent below (layout.table.blockOf lo) lo
        (min (Plan.blockEnd layout.table lo) hi) ∧
      layout.Readable contents hasParent below (min (Plan.blockEnd layout.table lo) hi) hi := by
  have hstart : layout.table.blockOf lo * layout.table.blockSize ≤ lo := Nat.div_mul_le_self _ _
  have hend := Plan.lt_blockEnd layout.table lo
  have hfirst : max lo (layout.table.blockOf lo * layout.table.blockSize) = lo := by omega
  unfold Plan.blockEnd at hend ⊢
  constructor
  · intro h
    constructor
    · have hb := h _ hlen
      rw [hfirst, Nat.min_comm hi] at hb
      exact hb (by omega)
    · intro index hindex hrange
      have hle : layout.table.blockOf lo ≤ index := blockOf_le (by omega)
      have hne : index ≠ layout.table.blockOf lo := by
        rintro rfl
        omega
      have hmul := Nat.mul_le_mul_right layout.table.blockSize
        (show layout.table.blockOf lo + 1 ≤ index by omega)
      have hb := h index hindex
      rw [Nat.max_eq_right (by omega)] at hb hrange
      rw [Nat.max_eq_right (by omega)]
      exact hb hrange
  · rintro ⟨hb, hr⟩ index hindex hrange
    by_cases heq : index = layout.table.blockOf lo
    · rw [heq, hfirst, Nat.min_comm hi]
      exact hb
    · have hle : layout.table.blockOf lo ≤ index := blockOf_le (by omega)
      have hmul := Nat.mul_le_mul_right layout.table.blockSize
        (show layout.table.blockOf lo + 1 ≤ index by omega)
      have hb' := hr index hindex
      rw [Nat.max_eq_right (by omega)] at hb' hrange ⊢
      exact hb' hrange

end SparseLayout

def Level.HasFittingBlocks (level : Level) : Prop :=
  ∀ layout, level.sparse = some layout → layout.table.Fits

theorem Level.readable_of_le {level : Level} {contents : ByteArray} {hasParent : Bool}
    {below : Nat → Nat → Prop} {lo hi : Nat} (h : hi ≤ lo) :
    level.Readable contents hasParent below lo hi := by
  unfold Level.Readable
  split
  · intro hlt
    omega
  · exact SparseLayout.readable_of_le h

namespace Plan

variable {π : Type}

def footerPart (p : Plan) (flattened : Footer) : List (Option UInt8) :=
  if p.footerDone then []
  else span (fun o => byteAt flattened.bytes (o - p.size)) p.footerStart
    (min p.stop (p.size + Footer.size))

theorem footerPart_eq {p : Plan} {flattened : Footer} (hd : ¬p.footerDone = true) :
    p.footerPart flattened = (octets (slice flattened.bytes (p.footerStart - p.size)
      (p.stop - p.footerStart))).map some := by
  have hsize : flattened.bytes.size = Footer.size := size_packed _
  have hstart : p.size ≤ p.footerStart := Nat.le_max_right _ _
  rw [map_some_octets_slice, hsize, footerPart, if_neg hd]
  by_cases hlt : p.footerStart - p.size < Footer.size
  · rw [show min (p.footerStart - p.size + (p.stop - p.footerStart)) Footer.size
        = p.footerStart - p.size + (min p.stop (p.size + Footer.size) - p.footerStart) by omega,
      span_translate _ _ p.footerStart]
    by_cases hle : p.footerStart ≤ min p.stop (p.size + Footer.size)
    · rw [Nat.add_sub_cancel' hle]
      apply span_congr
      intro o h1 h2
      congr 1
      omega
    · rw [span_eq_nil (by omega), span_eq_nil (by omega)]
  · rw [span_eq_nil (by omega), span_eq_nil (by omega)]

def toGive (p : Plan) (flattened : Footer) (byte : Nat → Option UInt8) : List (Option UInt8) :=
  List.replicate p.owed (some 0) ++ (span byte p.cursor p.dataEnd ++ p.footerPart flattened)

/-- A plan that can go on: it goes on at a sector, and owes no zeros if the
image has no blocks. -/
structure Fits (p : Plan) (level : Level) : Prop where
  aligned : p.cursor < p.dataEnd → sectorSize ∣ p.cursor
  owed_eq : level.sparse = none → p.owed = 0

theorem fits_of_block {p : Plan} {level : Level} {layout : SparseLayout}
    (hs : level.HasFittingBlocks) (hl : level.sparse = some layout) (owed : Nat) :
    Fits { p with cursor := min (blockEnd layout.table p.cursor) p.dataEnd, owed } level := by
  constructor
  · intro hlt
    have hd : dataEnd { p with cursor := min (blockEnd layout.table p.cursor) p.dataEnd, owed }
        = p.dataEnd := rfl
    rw [hd] at hlt
    rw [Nat.min_eq_left (by simp only at hlt; omega)]
    exact Nat.dvd_trans (hs layout hl).sectorSize_dvd (Nat.dvd_mul_left _ _)
  · intro hn
    rw [hl] at hn
    cases hn

theorem toGive_of_le {q : Plan} {flattened : Footer} {byte : Nat → Option UInt8}
    (ho : q.owed = 0) (hd : q.dataEnd ≤ q.cursor) :
    q.toGive flattened byte = q.footerPart flattened := by
  rw [toGive, ho, span_eq_nil hd]
  rfl

theorem toGive_of_owed {p : Plan} {flattened : Footer} {byte : Nat → Option UInt8} {cursor : Nat}
    (hc : p.cursor ≤ cursor) (hd : cursor ≤ p.dataEnd)
    (h : ∀ o, p.cursor ≤ o → o < cursor → byte o = some 0) :
    toGive { p with owed := p.owed + (cursor - p.cursor), cursor } flattened byte
      = p.toGive flattened byte := by
  have hzeros : span byte p.cursor cursor = List.replicate (cursor - p.cursor) (some 0) := by
    rw [span_congr h, span_const]
  change List.replicate (p.owed + (cursor - p.cursor)) (some 0)
    ++ (span byte cursor p.dataEnd ++ p.footerPart flattened) = _
  rw [toGive, ← span_append hc hd, hzeros, ← List.replicate_append_replicate, List.append_assoc,
    List.append_assoc]

theorem toGive_of_advance {p : Plan} {flattened : Footer} {byte : Nat → Option UInt8}
    {cursor : Nat} (ho : p.owed = 0) (hc : p.cursor ≤ cursor) (hd : cursor ≤ p.dataEnd) :
    p.toGive flattened byte
      = span byte p.cursor cursor ++ toGive { p with cursor } flattened byte := by
  change _ = span byte p.cursor cursor
    ++ (List.replicate p.owed _ ++ (span byte cursor p.dataEnd ++ p.footerPart flattened))
  rw [toGive, ho, ← span_append hc hd, List.append_assoc]
  rfl

theorem toGive_paid (p : Plan) (flattened : Footer) (byte : Nat → Option UInt8) :
    p.toGive flattened byte
      = List.replicate p.owed (some 0) ++ p.paid.toGive flattened byte := rfl

variable (place : Place) (parent : Source Files π) (files : Files) (level : Level)
  (byte : Nat → Option UInt8) (readable : Nat → Nat → Prop)

/-- A step takes its piece off the front of what is to be given. There is none
if nothing is left, and an error if the next piece cannot be given. -/
def StepYields (p : Plan) : Except Error (Option (Piece π)) × Plan → Prop
  | (.ok (some piece), rest) => rest.Fits level ∧ ∃ want ok,
      (Piece.source place parent).Yields files piece want ok ∧
      p.toGive level.flattenedFooter byte = want ++ rest.toGive level.flattenedFooter byte ∧
      (readable p.cursor p.dataEnd ↔ ok ∧ readable rest.cursor rest.dataEnd)
  | (.ok none, _) => p.toGive level.flattenedFooter byte = [] ∧ readable p.cursor p.dataEnd
  | (.error _, _) => ¬readable p.cursor p.dataEnd

variable {place parent files level byte readable}

theorem StepYields.of_eq {p q : Plan} {step : Except Error (Option (Piece π)) × Plan}
    (h : q.StepYields place parent files level byte readable step)
    (hg : q.toGive level.flattenedFooter byte = p.toGive level.flattenedFooter byte)
    (hr : readable p.cursor p.dataEnd ↔ readable q.cursor q.dataEnd) :
    p.StepYields place parent files level byte readable step := by
  match step with
  | (.ok (some piece), rest) =>
    obtain ⟨hf, want, ok, hy, hw, ho⟩ := h
    exact ⟨hf, want, ok, hy, hg.symm.trans hw, hr.trans ho⟩
  | (.ok none, rest) => exact ⟨hg.symm.trans h.1, hr.mpr h.2⟩
  | (.error e, rest) => exact fun ho => h (hr.mp ho)

theorem stepYields_owed {p : Plan} (hf : p.Fits level) :
    p.StepYields place parent files level byte readable
      (.ok (some (.zeros p.owedRun)), p.paid) := by
  refine ⟨⟨hf.aligned, fun _ => rfl⟩, _, _, Piece.yields_zeros p.owedRun, toGive_paid _ _ _, ?_⟩
  exact (and_iff_right trivial).symm

theorem stepYields_afterBlocks {p : Plan} (hf : p.Fits level) (hd : p.dataEnd ≤ p.cursor)
    (hr : ∀ lo hi, hi ≤ lo → readable lo hi) :
    p.StepYields place parent files level byte readable
      ((.ok (afterBlocks level.flattenedFooter p).1,
        (@afterBlocks π level.flattenedFooter p).2)) := by
  unfold afterBlocks
  by_cases ho : 0 < p.owed
  · rw [if_pos ho]
    exact stepYields_owed hf
  · have hfront : p.toGive level.flattenedFooter byte = p.footerPart level.flattenedFooter :=
      toGive_of_le (by omega) hd
    rw [if_neg ho]
    by_cases hdone : p.footerDone = true
    · rw [if_pos hdone]
      refine ⟨?_, hr _ _ hd⟩
      rw [hfront, footerPart, if_pos hdone]
    · rw [if_neg hdone]
      by_cases hs : p.footerStart < p.stop
      · rw [if_pos hs]
        refine ⟨⟨hf.aligned, hf.owed_eq⟩, _, _, Piece.yields_footer _, ?_, ?_⟩
        · have hrest : toGive { p with footerDone := true } level.flattenedFooter byte = [] :=
            toGive_of_le (q := { p with footerDone := true }) (by simp only; omega) hd
          rw [hfront, footerPart_eq hdone]
          exact (List.append_nil _).symm.trans (congrArg (List.append _) hrest.symm)
        · exact (and_iff_right trivial).symm
      · rw [if_neg hs]
        refine ⟨?_, hr _ _ hd⟩
        rw [hfront, footerPart, if_neg hdone, span_eq_nil (by omega)]

variable {view : Option (ParentView π)} {inherited : Nat → Option UInt8}
  {below : Nat → Nat → Prop}

section cases

variable {p : Plan} {layout : SparseLayout}

theorem stepYields_fixed (hf : p.Fits level) (hfixed : level.sparse = none)
    (hp : p.cursor < p.dataEnd) :
    p.StepYields level.place parent files level
      (level.byte (files.contents level.place) view.isSome inherited)
      (level.Readable (files.contents level.place) view.isSome below)
      (.ok (some (.file (.ofRange p.cursor (p.dataEnd - p.cursor) p.buffer))),
        { p with cursor := p.dataEnd }) := by
  have hend : p.cursor + (p.dataEnd - p.cursor) = p.dataEnd := by omega
  refine ⟨⟨fun h => absurd h (Nat.lt_irrefl _), hf.owed_eq⟩, _, _,
    Piece.yields_file (Piece.yields_fileSource _ _ _ _), ?_, ?_⟩
  · rw [hend, toGive_of_advance (hf.owed_eq hfixed) (Nat.le_of_lt hp) (Nat.le_refl _),
      Level.byte_of_fixed _ _ hfixed]
  · rw [Level.readable_of_fixed _ _ hfixed, hend]
    constructor
    · exact fun h => ⟨.inr (h hp), Level.readable_of_le (Nat.le_refl _)⟩
    · rintro ⟨h | h, -⟩ <;> omega

theorem stepYields_past_table (hl : level.sparse = some layout) (hp : p.cursor < p.dataEnd)
    (hlen : layout.table.length ≤ layout.table.blockOf p.cursor) :
    p.StepYields level.place parent files level
      (level.byte (files.contents level.place) view.isSome inherited)
      (level.Readable (files.contents level.place) view.isSome below)
      (.ok (afterBlocks level.flattenedFooter
          { p with owed := p.owed + (p.dataEnd - p.cursor), cursor := p.dataEnd }).1,
        (@afterBlocks π level.flattenedFooter
          { p with owed := p.owed + (p.dataEnd - p.cursor), cursor := p.dataEnd }).2) := by
  have hbyte (o : Nat) (h1 : p.cursor ≤ o) (_ : o < p.dataEnd) :
      level.byte (files.contents level.place) view.isSome inherited o = some 0 := by
    rw [Level.byte_of_sparse _ _ hl]
    exact SparseLayout.byte_past_table hlen h1
  have hread : level.Readable (files.contents level.place) view.isSome below p.cursor
      p.dataEnd := by
    rw [Level.readable_of_sparse _ _ hl]
    exact SparseLayout.readable_past_table hlen
  have hfits : Fits { p with owed := p.owed + (p.dataEnd - p.cursor), cursor := p.dataEnd }
      level := ⟨fun h => absurd h (Nat.lt_irrefl _), fun hn => by rw [hl] at hn; cases hn⟩
  have hstep := @stepYields_afterBlocks π level.place parent files level
    (level.byte (files.contents level.place) view.isSome inherited)
    (level.Readable (files.contents level.place) view.isSome below) _ hfits (Nat.le_refl _)
    fun _ _ => Level.readable_of_le
  exact hstep.of_eq (toGive_of_owed (Nat.le_of_lt hp) (Nat.le_refl _) hbyte)
    ⟨fun _ => Level.readable_of_le (Nat.le_refl _), fun _ => hread⟩

/-- A block that is stored nowhere is owed as zeros, and the step goes on. -/
theorem stepYields_skip (hl : level.sparse = some layout) (hp : p.cursor < p.dataEnd)
    (hlen : layout.table.blockOf p.cursor < layout.table.length)
    (hsource : blockSource layout view (layout.table.blockOf p.cursor) = none)
    {step : Except Error (Option (Piece π)) × Plan}
    (h : StepYields level.place parent files level
      (level.byte (files.contents level.place) view.isSome inherited)
      (level.Readable (files.contents level.place) view.isSome below)
      { p with
        owed := p.owed + (min (blockEnd layout.table p.cursor) p.dataEnd - p.cursor)
        cursor := min (blockEnd layout.table p.cursor) p.dataEnd } step) :
    p.StepYields level.place parent files level
      (level.byte (files.contents level.place) view.isSome inherited)
      (level.Readable (files.contents level.place) view.isSome below) step := by
  obtain ⟨hlt, hle⟩ := blockEnd_bounds hp
  obtain ⟨hzero, hblock⟩ := byte_of_blockSource_none hlen (Nat.min_le_left _ p.dataEnd) hsource
  have hbyte (o : Nat) (h1 : p.cursor ≤ o)
      (h2 : o < min (blockEnd layout.table p.cursor) p.dataEnd) :
      level.byte (files.contents level.place) view.isSome inherited o = some 0 := by
    rw [Level.byte_of_sparse _ _ hl]
    exact hzero o h1 h2
  apply h.of_eq (toGive_of_owed (Nat.le_of_lt hlt) hle hbyte)
  rw [Level.readable_of_sparse _ _ hl]
  exact (SparseLayout.readable_split hp hlen).trans (and_iff_right hblock)

theorem stepYields_block (hs : level.HasFittingBlocks)
    (hv : ∀ v, view = some v → v.Gives parent files inherited below) (hf : p.Fits level)
    (hl : level.sparse = some layout) (hp : p.cursor < p.dataEnd)
    (hlen : layout.table.blockOf p.cursor < layout.table.length) {source : BlockSource π}
    (hsource : blockSource layout view (layout.table.blockOf p.cursor) = some source)
    (ho : ¬0 < p.owed) :
    p.StepYields level.place parent files level
      (level.byte (files.contents level.place) view.isSome inherited)
      (level.Readable (files.contents level.place) view.isSome below)
      ((blockPiece layout.table (files.contents level.place) p.buffer p.cursor
          (min (blockEnd layout.table p.cursor) p.dataEnd) source).map some,
        { p with cursor := min (blockEnd layout.table p.cursor) p.dataEnd }) := by
  obtain ⟨hlt, hle⟩ := blockEnd_bounds hp
  have hpiece := @pieceYields_blockPiece π level.place parent files layout view inherited below
    p.cursor _ p.buffer source (hs layout hl) (hf.aligned hp) hlt (Nat.min_le_left _ p.dataEnd)
    hlen hv hsource
  have hread := @SparseLayout.readable_split layout (files.contents level.place) view.isSome below
    p.cursor p.dataEnd hp hlen
  rw [← Level.readable_of_sparse _ _ hl] at hread
  cases hb : blockPiece layout.table (files.contents level.place) p.buffer p.cursor
      (min (blockEnd layout.table p.cursor) p.dataEnd) source with
  | error e =>
    rw [hb] at hpiece
    exact fun h => hpiece (hread.mp h).1
  | ok piece =>
    rw [hb] at hpiece
    refine ⟨fits_of_block hs hl _, _, _, hpiece, ?_, hread⟩
    rw [Level.byte_of_sparse _ _ hl]
    exact toGive_of_advance (by omega) (Nat.le_of_lt hlt) hle

end cases

/-- A step of a plan through an image, above a parent that gives its bytes. -/
theorem stepYields_next {p : Plan} (hs : level.HasFittingBlocks)
    (hv : ∀ v, view = some v → v.Gives parent files inherited below) (hf : p.Fits level) :
    p.StepYields level.place parent files level
      (level.byte (files.contents level.place) view.isSome inherited)
      (level.Readable (files.contents level.place) view.isSome below)
      (next level view (files.contents level.place) p) := by
  fun_induction next level view (files.contents level.place) p with
  | case1 p hp hfixed => exact stepYields_fixed hf hfixed hp
  | case2 p hp layout hl index hlen piece rest hr =>
    have hstep := @stepYields_past_table π parent files level view inherited below p layout hl
      hp hlen
    rw [hr] at hstep
    exact hstep
  | case3 p hp layout hl index hlen hi hsource ih =>
    exact stepYields_skip hl hp (Nat.not_le.mp hlen) hsource (ih (fits_of_block hs hl _))
  | case4 p hp layout hl index hlen source hsource ho => exact stepYields_owed hf
  | case5 p hp layout hl index hlen hi source hsource ho =>
    exact stepYields_block hs hv hf hl hp (Nat.not_le.mp hlen) hsource ho
  | case6 p hp piece rest hr =>
    have hstep := @stepYields_afterBlocks π level.place parent files level
      (level.byte (files.contents level.place) view.isSome inherited)
      (level.Readable (files.contents level.place) view.isSome below) _ hf (Nat.not_lt.mp hp)
      fun _ _ => Level.readable_of_le
    rw [hr] at hstep
    exact hstep

end Plan

end VirtualDisk
