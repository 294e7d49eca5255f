import VirtualDisk.Proofs.Ledger

namespace VirtualDisk

open Source

/-- The ranges of a parent owe as many bytes as they span within its disk. -/
def ParentView.Owes {π : Type} (owes : π → Nat → Prop) (v : ParentView π) : Prop :=
  ∀ lo hi buffer, owes (v.openAt lo (max (min hi v.size) lo) buffer) (max (min hi v.size) lo - lo)

namespace Plan

variable {π : Type} {owes : π → Nat → Prop} {level : Level} {view : Option (ParentView π)}
  {contents : ByteArray} {p : Plan}

def bounds (p : Plan) : Nat × Nat × Nat := (p.size, p.start, p.stop)

def EndsByFooter (p : Plan) : Prop := p.stop ≤ max (p.size + Footer.size) p.start

/-- What a step leaves and what its piece owes are together what was left before. -/
def Splits (owes : π → Nat → Prop) (left : Nat) : Except Error (Option (Piece π)) × Plan → Prop
  | (.ok (some piece), rest) => ∃ n, piece.Owes owes n ∧ n + rest.left = left
  | (.ok none, _) => left = 0
  | (.error _, _) => True

theorem bounds_afterBlocks (flattened : Footer) (p : Plan) :
    (@afterBlocks π flattened p).2.bounds = p.bounds := by
  unfold afterBlocks
  split
  · rfl
  · split
    · rfl
    · simp only
      split <;> rfl

theorem bounds_next (level : Level) (view : Option (ParentView π)) (contents : ByteArray)
    (p : Plan) : (next level view contents p).2.bounds = p.bounds := by
  fun_induction next level view contents p with
  | case1 p => rfl
  | case2 p _ _ _ _ _ piece rest hr =>
    have h := @bounds_afterBlocks π level.flattenedFooter
      { p with owed := p.owed + (p.dataEnd - p.cursor), cursor := p.dataEnd }
    rwa [hr] at h
  | case3 p _ _ _ _ _ _ _ ih => exact ih
  | case4 p => rfl
  | case5 p => rfl
  | case6 p _ piece rest hr =>
    have h := @bounds_afterBlocks π level.flattenedFooter p
    rwa [hr] at h

theorem endsByFooter_of_bounds {q : Plan} (h : q.bounds = p.bounds) (hp : p.EndsByFooter) :
    q.EndsByFooter := by
  simp only [bounds, Prod.mk.injEq] at h
  rw [EndsByFooter, h.1, h.2.1, h.2.2]
  exact hp

theorem size_footer_part (flattened : Footer) (hp : p.EndsByFooter) :
    (slice flattened.bytes (p.footerStart - p.size) (p.stop - p.footerStart)).size
      = p.stop - p.footerStart := by
  have hsize : flattened.bytes.size = Footer.size := size_packed _
  rw [size_slice, hsize]
  unfold EndsByFooter at hp
  unfold footerStart
  omega

theorem splits_afterBlocks (flattened : Footer) (hp : p.EndsByFooter) (hd : p.dataEnd ≤ p.cursor) :
    Splits owes p.left ((.ok (afterBlocks flattened p).1, (@afterBlocks π flattened p).2)) := by
  have hleft : p.left = p.owed + p.footerLeft := by
    unfold left
    omega
  unfold afterBlocks
  by_cases ho : 0 < p.owed
  · rw [if_pos ho]
    exact ⟨p.owed, rfl, p.left_paid⟩
  · rw [if_neg ho]
    by_cases hdone : p.footerDone = true
    · rw [if_pos hdone]
      have hnone : p.footerLeft = 0 := if_pos hdone
      change p.left = 0
      omega
    · have hfooter : p.footerLeft = p.stop - p.footerStart := if_neg hdone
      have hrest : Plan.left { p with footerDone := true } = 0 := by
        change p.owed + (p.dataEnd - p.cursor) + 0 = 0
        omega
      rw [if_neg hdone]
      by_cases hs : p.footerStart < p.stop
      · simp only [if_pos hs]
        refine ⟨_, size_footer_part flattened hp, ?_⟩
        rw [hrest]
        omega
      · simp only [if_neg hs]
        change p.left = 0
        omega

theorem owes_blockPiece {table : BlockTable} {buffer : BufferSize} {lo hi : Nat}
    {source : BlockSource π} {piece : Piece π} (hlt : lo < hi)
    (hv : ∀ v, source.parent? = some v → v.Owes owes)
    (h : blockPiece table contents buffer lo hi source = .ok piece) :
    piece.Owes owes (hi - lo) := by
  have hown (data) : (ownRange table buffer data lo hi).Owes (hi - lo) := ⟨rfl, rfl⟩
  have hinherited (v : ParentView π) (hv : v.Owes owes) :
      BothOwe owes ZeroRun.Owes (parentRange v buffer lo hi) (hi - lo) := by
    refine ⟨_, _, hv lo hi buffer, rfl, ?_⟩
    simp only [parentRange]
    omega
  cases source with
  | own data =>
    cases h
    exact hown data
  | inherited v =>
    cases h
    exact hinherited v (hv v rfl)
  | both bitmapOffset data v =>
    simp only [blockPiece] at h
    cases hb : readAt contents bitmapOffset table.bitmapSize "block bitmap" with
    | error e => rw [hb] at h; contradiction
    | ok bitmap =>
      rw [hb] at h
      simp only [bind, Except.bind, pure, Except.pure, Except.ok.injEq] at h
      subst h
      split
      · exact hown data
      · exact hinherited v (hv v rfl)
      · exact SectorMerge.owes_ofSources (hinherited v (hv v rfl)) (hown data)

theorem splits_next (hv : ∀ v, view = some v → v.Owes owes) (hp : p.EndsByFooter) :
    Splits owes p.left (next level view contents p) := by
  fun_induction next level view contents p with
  | case1 p hlt =>
    exact ⟨_, ⟨rfl, rfl⟩, left_of_cursor_le (Nat.le_of_lt hlt) (Nat.le_refl _)⟩
  | case2 p hlt _ _ _ _ piece rest hr =>
    have h := @splits_afterBlocks π owes
      { p with owed := p.owed + (p.dataEnd - p.cursor), cursor := p.dataEnd }
      level.flattenedFooter hp (Nat.le_refl _)
    rwa [hr, left_of_owed (Nat.le_of_lt hlt) (Nat.le_refl _)] at h
  | case3 p hlt layout _ _ _ hi _ ih =>
    obtain ⟨hc, hd⟩ := @blockEnd_bounds layout.table p hlt
    have h := ih hp
    rwa [left_of_owed (Nat.le_of_lt hc) hd] at h
  | case4 p => exact ⟨p.owed, rfl, p.left_paid⟩
  | case5 p hlt layout _ _ _ hi source hs _ =>
    obtain ⟨hc, hd⟩ : p.cursor < hi ∧ hi ≤ p.dataEnd := blockEnd_bounds hlt
    cases hb : blockPiece layout.table contents p.buffer p.cursor hi source with
    | error e => trivial
    | ok piece =>
      have hpiece := owes_blockPiece hc (fun v h => hv v (parent?_blockSource hs h)) hb
      exact ⟨hi - p.cursor, hpiece, left_of_cursor_le (Nat.le_of_lt hc) hd⟩
  | case6 p hlt piece rest hr =>
    have h := @splits_afterBlocks π owes p level.flattenedFooter hp (Nat.not_lt.mp hlt)
    rwa [hr] at h

end Plan

namespace LevelStream

variable {π : Type} {level : Level} {parent : Source Files π} {view : Option (ParentView π)}
  {hv : ∀ v, view = some v → v.IsBounded parent} {owes : π → Nat → Prop} {files : Files}
  {s t : LevelStream π} {n : Nat}

/-- A stream owes what its active piece owes and what is not planned. -/
def Owes (owes : π → Nat → Prop) (s : LevelStream π) (n : Nat) : Prop :=
  match s.phase, s.active with
  | .streaming, some piece => s.plan.EndsByFooter ∧ ∃ k, piece.Owes owes k ∧ k + s.plan.left = n
  | .streaming, none => s.plan.EndsByFooter ∧ s.plan.left = n
  | .finished, _ => n = 0
  | .failed, _ | .destroyed, _ => False

theorem owes_active {piece : Piece π} (hs : s.phase = .streaming) (ha : s.active = some piece) :
    s.Owes owes n ↔ s.plan.EndsByFooter ∧ ∃ k, piece.Owes owes k ∧ k + s.plan.left = n := by
  rw [Owes, hs, ha]

theorem owes_idle (hs : s.phase = .streaming) (ha : s.active = none) :
    s.Owes owes n ↔ s.plan.EndsByFooter ∧ s.plan.left = n := by
  rw [Owes, hs, ha]

theorem pays_closed (hs : s.phase ≠ .streaming) (h : s.Owes owes n) : n = 0 ∧ s.Owes owes 0 := by
  unfold Owes at h ⊢
  split at h
  · next hp _ => exact absurd hp hs
  · next hp _ => exact absurd hp hs
  · exact ⟨h, rfl⟩
  · exact h.elim
  · exact h.elim

theorem accounts (hparent : parent.Accounts owes) (hview : ∀ v, view = some v → v.Owes owes) :
    (LevelStream.source level parent view hv).Accounts (Owes owes) := by
  intro files s n h
  change Pays _ n (pull level parent view files s).2 (pull level parent view files s).1
  have hpieces := @Piece.accounts π level.place parent owes hparent
  fun_induction pull level parent view files s with
  | case1 s hs => exact pays_closed hs h
  | case2 s hs piece ha bytes rest hr he ih =>
    have hphase := Decidable.not_not.mp hs
    obtain ⟨hend, k, hk, hsum⟩ := (owes_active hphase ha).mp h
    obtain ⟨left, hleft, hpaid⟩ := hpieces.pays hk hr
    have hempty : bytes.size = 0 := by simpa [ByteArray.isEmpty] using he
    refine ih ((owes_active (s := { s with active := some rest }) hphase rfl).mpr
      ⟨hend, left, hleft, ?_⟩)
    change left + s.plan.left = n
    omega
  | case3 s hs piece ha bytes rest hr he =>
    have hphase := Decidable.not_not.mp hs
    obtain ⟨hend, k, hk, hsum⟩ := (owes_active hphase ha).mp h
    obtain ⟨left, hleft, hpaid⟩ := hpieces.pays hk hr
    refine ⟨left + s.plan.left, (owes_active (s := { s with
      active := some rest, given := s.given + bytes.size }) hphase rfl).mpr
      ⟨hend, left, hleft, rfl⟩, ?_⟩
    omega
  | case4 => trivial
  | case5 s hs piece ha rest hr ih =>
    have hphase := Decidable.not_not.mp hs
    obtain ⟨hend, k, hk, hsum⟩ := (owes_active hphase ha).mp h
    obtain ⟨rfl, -⟩ := hpieces.pays hk hr
    rw [Nat.zero_add] at hsum
    exact ih ((owes_idle (s := { s with active := none }) hphase rfl).mpr ⟨hend, hsum⟩)
  | case6 s hs ha piece plan hn ih =>
    have hphase := Decidable.not_not.mp hs
    obtain ⟨hend, rfl⟩ := (owes_idle hphase ha).mp h
    have hsplits := @Plan.splits_next π owes level view (files.contents level.place) s.plan
      hview hend
    have hbounds := Plan.bounds_next level view (files.contents level.place) s.plan
    rw [hn] at hsplits hbounds
    exact ih ((owes_active (s := { s with plan, active := some piece }) hphase rfl).mpr
      ⟨Plan.endsByFooter_of_bounds hbounds hend, hsplits⟩)
  | case7 s hs ha plan hn =>
    have hphase := Decidable.not_not.mp hs
    obtain ⟨hend, rfl⟩ := (owes_idle hphase ha).mp h
    have hsplits := @Plan.splits_next π owes level view (files.contents level.place) s.plan
      hview hend
    rw [hn] at hsplits
    exact ⟨hsplits, rfl⟩
  | case8 => trivial

/-- How a pull changes a stream, apart from what it owes. -/
def Moves (s t : LevelStream π) : Pulled → Prop
  | .chunk bytes => bytes.size ≠ 0 ∧ s.phase = .streaming ∧ t.phase = .streaming ∧
      t.given = s.given + bytes.size
  | .failed _ => s.phase = .streaming ∧ t.phase = .failed ∧ t.given = s.given
  | .ended => s.phase = .streaming ∧ t.phase = .finished ∧ t.given = s.given ∨
      s.phase ≠ .streaming ∧ t = s

theorem Moves.of_streaming {r : LevelStream π} {pulled : Pulled} (h : r.Moves t pulled)
    (hr : r.phase = .streaming) (hs : s.phase = .streaming) (hg : r.given = s.given) :
    s.Moves t pulled := by
  cases pulled with
  | chunk bytes => exact ⟨h.1, hs, h.2.2.1, hg ▸ h.2.2.2⟩
  | failed e => exact ⟨hs, h.2.1, hg ▸ h.2.2⟩
  | ended =>
    obtain ⟨-, hphase, hgiven⟩ := h.resolve_right fun hn => hn.1 hr
    exact .inl ⟨hs, hphase, hg ▸ hgiven⟩

theorem moves_of_pull {pulled : Pulled} (h : pull level parent view files s = (pulled, t)) :
    t.plan.bounds = s.plan.bounds ∧ s.Moves t pulled := by
  fun_induction pull level parent view files s with
  | case1 s hs =>
    cases h
    exact ⟨rfl, .inr ⟨hs, rfl⟩⟩
  | case2 s hs piece ha bytes rest hr he ih =>
    have hphase : s.phase = .streaming := Decidable.not_not.mp hs
    exact ⟨(ih h).1, (ih h).2.of_streaming hphase hphase rfl⟩
  | case3 s hs piece ha bytes rest hr he =>
    cases h
    have hphase : s.phase = .streaming := Decidable.not_not.mp hs
    have hsize : bytes.size ≠ 0 := by simpa [ByteArray.isEmpty] using he
    exact ⟨rfl, hsize, hphase, hphase, rfl⟩
  | case4 s hs =>
    cases h
    exact ⟨rfl, Decidable.not_not.mp hs, rfl, rfl⟩
  | case5 s hs piece ha rest hr ih =>
    have hphase : s.phase = .streaming := Decidable.not_not.mp hs
    exact ⟨(ih h).1, (ih h).2.of_streaming hphase hphase rfl⟩
  | case6 s hs ha piece plan hn ih =>
    have hphase : s.phase = .streaming := Decidable.not_not.mp hs
    have hbounds := Plan.bounds_next level view (files.contents level.place) s.plan
    rw [hn] at hbounds
    exact ⟨(ih h).1.trans hbounds, (ih h).2.of_streaming hphase hphase rfl⟩
  | case7 s hs ha plan hn =>
    cases h
    have hbounds := Plan.bounds_next level view (files.contents level.place) s.plan
    rw [hn] at hbounds
    exact ⟨hbounds, .inl ⟨Decidable.not_not.mp hs, rfl, rfl⟩⟩
  | case8 s hs ha e plan hn =>
    cases h
    have hbounds := Plan.bounds_next level view (files.contents level.place) s.plan
    rw [hn] at hbounds
    exact ⟨hbounds, Decidable.not_not.mp hs, rfl, rfl⟩

theorem owes_ofRange {start stop : Nat} {buffer : BufferSize}
    (h : stop ≤ max (level.footer.currentSize + Footer.size) start) :
    (LevelStream.ofRange level start stop buffer).Owes owes (stop - start) := by
  refine (owes_idle rfl rfl).mpr ⟨?_, ChainStream.left_ofRange _ _ _ _⟩
  change max stop start ≤ max (level.footer.currentSize + Footer.size) start
  omega

end LevelStream

namespace ChainStream

def Owes : (chain : List Level) → ChainStream chain → Nat → Prop
  | [] => fun s => nomatch s
  | _ :: ancestors => LevelStream.Owes (Owes ancestors)

theorem accounts_view (chain : List Level) : (source chain).Accounts (Owes chain) ∧
    ∀ v, view chain = some v → v.Owes (Owes chain) := by
  induction chain with
  | nil =>
    constructor
    · intro _ s
      exact nomatch s
    · intro v h
      cases h
  | cons level ancestors ih =>
    constructor
    · exact @LevelStream.accounts _ level _ _ (boundedSource ancestors).2 _ ih.1 ih.2
    · intro v h lo hi buffer
      cases h
      apply LevelStream.owes_ofRange
      change max (min hi level.footer.currentSize) lo
        ≤ max (level.footer.currentSize + Footer.size) lo
      omega

end ChainStream

end VirtualDisk
