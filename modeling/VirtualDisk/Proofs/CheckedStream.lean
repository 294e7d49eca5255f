import VirtualDisk.Proofs.Accounting
import VirtualDisk.Proofs.ParentStreams

namespace VirtualDisk

theorem Pulled.size_le_cost (p : Pulled) : p.size ≤ p.cost := by
  cases p with
  | chunk bytes => exact Nat.le_max_right _ _
  | failed e => exact Nat.le_refl 0
  | ended => exact Nat.le_refl 0

namespace LevelStream

variable {π : Type} {level : Level} {parent : Source Files π} {view : Option (ParentView π)}
  {t : LevelStream π}

structure Sound (parent : Source Files π) (t : LevelStream π) : Prop where
  plan : t.plan.Sound
  within : t.given + t.budget parent ≤ t.plan.stop - t.plan.start

/-- The next chunk in machine words: planned pieces must come on, and what is given in all
must be a number. -/
def pull? (level : Level) (parent : Source Files π) (view : Option (ParentView π))
    (files : Files) (s : LevelStream π) : Option (Pulled × LevelStream π) :=
  if s.phase ≠ .streaming then some (.ended, s)
  else match _ha : s.active with
    | some piece =>
      match _h : (Piece.source level.place parent).pull files piece with
      | (.chunk bytes, rest) =>
        if bytes.isEmpty then pull? level parent view files { s with active := some rest }
        else do
          let given ← Word.add? s.given bytes.size
          return (.chunk bytes, { s with active := some rest, given })
      | (.failed e, _) => some (.failed e, s.fail)
      | (.ended, _) => pull? level parent view files { s with active := none }
    | none =>
      match s.plan.next? level view (files.contents level.place) with
      | some (.ok (some piece), plan) =>
        if plan.work < s.plan.work then
          pull? level parent view files { s with plan, active := some piece }
        else none
      | some (.ok none, plan) => some (.ended, { s with plan, phase := .finished })
      | some (.error e, plan) => some (.failed e, { s with plan }.fail)
      | none => none
termination_by (s.plan.work, s.activeWork parent)
decreasing_by
  · have := (Piece.source level.place parent).budget_of_pull _h
    have := Pulled.cost_pos bytes
    apply Prod.Lex.right
    simp only [activeWork, _ha, Piece.source] at *
    omega
  · apply Prod.Lex.right
    simp [activeWork, _ha]
  · apply Prod.Lex.left
    assumption

section cases

variable {files : Files} {plan : Plan} {given : Nat}

theorem pull?_of_active {piece : Piece π} :
    pull? level parent view files ⟨plan, given, some piece, .streaming⟩
      = match (Piece.source level.place parent).pull files piece with
        | (.chunk bytes, rest) =>
          if bytes.isEmpty then pull? level parent view files ⟨plan, given, some rest, .streaming⟩
          else do
            let given ← Word.add? given bytes.size
            return (.chunk bytes, ⟨plan, given, some rest, .streaming⟩)
        | (.failed e, _) => some (.failed e, ⟨plan, given, none, .failed⟩)
        | (.ended, _) => pull? level parent view files ⟨plan, given, none, .streaming⟩ := by
  rw [pull?, if_neg (fun h => h rfl)]
  simp only
  split
  · next h => rw [h]
  · next h =>
    rw [h]
    rfl
  · next h => rw [h]

theorem pull?_of_idle :
    pull? level parent view files ⟨plan, given, none, .streaming⟩
      = match plan.next? level view (files.contents level.place) with
        | some (.ok (some piece), rest) =>
          if rest.work < plan.work then
            pull? level parent view files ⟨rest, given, some piece, .streaming⟩
          else none
        | some (.ok none, rest) => some (.ended, ⟨rest, given, none, .finished⟩)
        | some (.error e, rest) => some (.failed e, ⟨rest, given, none, .failed⟩)
        | none => none := by
  rw [pull?, if_neg (fun h => h rfl)]
  rfl

end cases

/-- What the stream computes it can compute in machine words. -/
structure IsExact (level : Level) (parent : Source Files π) (view : Option (ParentView π))
    (t : LevelStream π) : Prop where
  pull?_eq : ∀ files, t.pull? level parent view files = some (t.pull level parent view files)
  length?_eq : Word.sub? t.plan.stop t.plan.start = some (t.plan.stop - t.plan.start)
  position?_eq : Word.add? t.plan.start t.given = some (t.plan.start + t.given)

theorem sound_ofRange {start stop : Nat} {buffer : BufferSize} (hl : level.Fits)
    (hstart : start < Limits.machineWord) (hdvd : sectorSize ∣ start)
    (hstop : stop ≤ max (level.footer.currentSize + Footer.size) start) :
    (LevelStream.ofRange level start stop buffer).Sound parent where
  plan := Plan.sound_ofRange hl.size_le hstart hdvd hstop
  within := by
    have hleft := ChainStream.left_ofRange level.footer.currentSize start stop buffer
    change 0 + ((Plan.ofRange level.footer.currentSize start stop buffer).left + 0)
      ≤ max stop start - start
    omega

namespace Sound

theorem of_bounds {u : LevelStream π} (h : t.Sound parent) (hplan : u.plan.Sound)
    (hbounds : u.plan.bounds = t.plan.bounds)
    (hwithin : u.given + u.budget parent ≤ t.given + t.budget parent) : u.Sound parent := by
  simp only [Plan.bounds, Prod.mk.injEq] at hbounds
  refine ⟨hplan, ?_⟩
  rw [hbounds.2.1, hbounds.2.2]
  exact Nat.le_trans hwithin h.within

theorem next (h : t.Sound parent) (hl : level.Fits)
    (hv : ∀ v, view = some v → v.IsBounded parent) (contents : ByteArray) :
    LevelStream.Sound parent { t with plan := (t.plan.next level view contents).2 } := by
  have hleft : (t.plan.next level view contents).2.left ≤ t.plan.left :=
    (Plan.left_next hv contents t.plan).2
  refine h.of_bounds (h.plan.next hl) (Plan.bounds_next level view contents t.plan) ?_
  simp only [budget]
  omega

theorem close (h : t.Sound parent) (phase : Phase) :
    LevelStream.Sound parent { t with active := none, phase } := by
  refine h.of_bounds h.plan rfl ?_
  simp only [budget, Plan.pieceBudget]
  omega

theorem active {piece rest : Piece π} {pulled : Pulled} {files : Files} {given : Nat}
    (h : t.Sound parent) (ha : t.active = some piece)
    (hr : (Piece.source level.place parent).pull files piece = (pulled, rest))
    (hg : given ≤ t.given + pulled.size) :
    LevelStream.Sound parent { t with active := some rest, given } := by
  have hbudget : rest.budget parent + pulled.cost ≤ piece.budget parent :=
    (Piece.source level.place parent).budget_of_pull hr
  have hcost := pulled.size_le_cost
  refine h.of_bounds h.plan rfl ?_
  simp only [budget, Plan.pieceBudget, ha]
  omega

theorem planned {piece : Piece π} {plan : Plan} {contents : ByteArray} (h : t.Sound parent)
    (hl : level.Fits) (hv : ∀ v, view = some v → v.IsBounded parent) (ha : t.active = none)
    (hn : t.plan.next level view contents = (.ok (some piece), plan)) :
    LevelStream.Sound parent { t with plan, active := some piece } := by
  have hplan : (t.plan.next level view contents).2.Sound := h.plan.next hl
  have hbounds := Plan.bounds_next level view contents t.plan
  have hleft := (Plan.left_of_next hv hn).1 _ rfl
  rw [hn] at hplan hbounds
  refine h.of_bounds hplan hbounds ?_
  simp only [budget, Plan.pieceBudget, ha] at hleft ⊢
  omega

theorem pull (h : t.Sound parent) (hl : level.Fits)
    (hv : ∀ v, view = some v → v.IsBounded parent) (files : Files) :
    (t.pull level parent view files).2.Sound parent := by
  fun_induction LevelStream.pull level parent view files t with
  | case1 => exact h
  | case2 t _ piece ha bytes rest hr _ ih => exact ih (h.active ha hr (Nat.le_add_right _ _))
  | case3 t _ piece ha bytes rest hr => exact h.active ha hr (Nat.le_refl _)
  | case4 => exact h.close .failed
  | case5 t _ _ _ _ _ ih => exact ih (h.close t.phase)
  | case6 t _ ha piece plan hn ih => exact ih (h.planned hl hv ha hn)
  | case7 t _ _ plan hn =>
    have hnext := h.next hl hv (files.contents level.place)
    rw [hn] at hnext
    exact hnext.of_bounds hnext.plan rfl (Nat.le_refl _)
  | case8 t _ _ e plan hn =>
    have hnext := h.next hl hv (files.contents level.place)
    rw [hn] at hnext
    exact hnext.close .failed

theorem given_lt (h : t.Sound parent) : t.plan.start + t.given < Limits.machineWord := by
  have hstop := h.plan.stop_lt
  have hstart := h.plan.start_le_stop
  have hwithin := h.within
  omega

theorem pull?_eq (h : t.Sound parent) (hl : level.Fits)
    (hv : ∀ v, view = some v → v.IsBounded parent) (files : Files) :
    t.pull? level parent view files = some (t.pull level parent view files) := by
  fun_induction LevelStream.pull level parent view files t with
  | case1 t hs => rw [pull?, if_pos hs]
  | case2 t hs piece ha bytes rest hr he ih =>
    have hrest := h.active ha hr (Nat.le_add_right _ _)
    obtain ⟨plan, given, active, phase⟩ := t
    cases ha
    cases Decidable.not_not.mp hs
    rw [pull?_of_active, hr]
    simp only [if_pos he]
    exact ih hrest
  | case3 t hs piece ha bytes rest hr he =>
    have hgiven := (h.active ha hr (Nat.le_refl _)).given_lt
    obtain ⟨plan, given, active, phase⟩ := t
    cases ha
    cases Decidable.not_not.mp hs
    have hsum : given + bytes.size < Limits.machineWord :=
      Nat.lt_of_le_of_lt (Nat.le_add_left _ _) hgiven
    rw [pull?_of_active, hr]
    simp only [if_neg he, Word.add?_eq hsum]
    rfl
  | case4 t hs piece ha e rest hr =>
    obtain ⟨plan, given, active, phase⟩ := t
    cases ha
    cases Decidable.not_not.mp hs
    rw [pull?_of_active, hr]
    rfl
  | case5 t hs piece ha rest hr ih =>
    have hnone := h.close .streaming
    obtain ⟨plan, given, active, phase⟩ := t
    cases ha
    cases Decidable.not_not.mp hs
    rw [pull?_of_active, hr]
    exact ih hnone
  | case6 t hs ha piece plan hn ih =>
    have hplanned := h.planned hl hv ha hn
    obtain ⟨_, given, active, phase⟩ := t
    cases ha
    cases Decidable.not_not.mp hs
    rw [pull?_of_idle, Plan.next?_eq h.plan hl, hn]
    simp only [if_pos (Plan.work_of_next hn)]
    exact ih hplanned
  | case7 t hs ha plan hn =>
    obtain ⟨_, given, active, phase⟩ := t
    cases ha
    cases Decidable.not_not.mp hs
    rw [pull?_of_idle, Plan.next?_eq h.plan hl, hn]
  | case8 t hs ha e plan hn =>
    obtain ⟨_, given, active, phase⟩ := t
    cases ha
    cases Decidable.not_not.mp hs
    rw [pull?_of_idle, Plan.next?_eq h.plan hl, hn]
    rfl

theorem isExact (h : t.Sound parent) (hl : level.Fits)
    (hv : ∀ v, view = some v → v.IsBounded parent) : t.IsExact level parent view where
  pull?_eq := h.pull?_eq hl hv
  length?_eq := Word.sub?_eq h.plan.start_le_stop
  position?_eq := Word.add?_eq h.given_lt

end Sound

end LevelStream

end VirtualDisk
