import VirtualDisk.Stream.PlanBounds

namespace VirtualDisk

/-- Whether a stream still gives chunks, and if not, why. -/
inductive Phase where
  | streaming
  | finished
  | failed
  | destroyed
deriving DecidableEq

structure LevelStream (π : Type) where
  plan : Plan
  given : Nat
  active : Option (Piece π)
  phase : Phase

namespace LevelStream

variable {π : Type}

def ofRange (level : Level) (start stop : Nat) (buffer : BufferSize) : LevelStream π :=
  ⟨Plan.ofRange level.footer.currentSize start stop buffer, 0, none, .streaming⟩

def fail (s : LevelStream π) : LevelStream π := { s with active := none, phase := .failed }

/-- Decreases with each chunk of the active piece, and with its end. -/
def activeWork (parent : Source Files π) (s : LevelStream π) : Nat :=
  match s.active with
  | some piece => piece.budget parent + 1
  | none => 0

/-- The next chunk that is not empty. -/
def pull (level : Level) (parent : Source Files π) (view : Option (ParentView π))
    (files : Files) (s : LevelStream π) : Pulled × LevelStream π :=
  if s.phase ≠ .streaming then (.ended, s)
  else match _ha : s.active with
    | some piece =>
      match _h : (Piece.source level.place parent).pull files piece with
      | (.chunk bytes, rest) =>
        if bytes.isEmpty then pull level parent view files { s with active := some rest }
        else (.chunk bytes, { s with active := some rest, given := s.given + bytes.size })
      | (.failed e, _) => (.failed e, s.fail)
      | (.ended, _) => pull level parent view files { s with active := none }
    | none =>
      match _h : s.plan.next level view (files.contents level.place) with
      | (.ok (some piece), plan) =>
        pull level parent view files { s with plan, active := some piece }
      | (.ok none, plan) => (.ended, { s with plan, phase := .finished })
      | (.error e, plan) => (.failed e, { s with plan }.fail)
termination_by (s.plan.work, s.activeWork parent)
decreasing_by
  · have := (Piece.source level.place parent).budget_of_pull _h
    have := Pulled.cost_pos bytes
    apply Prod.Lex.right
    simp only [activeWork, _ha, Piece.source] at *
    omega
  · apply Prod.Lex.right
    simp [activeWork, _ha]
  · apply Prod.Lex.left
    exact Plan.work_of_next _h

def budget (parent : Source Files π) (s : LevelStream π) : Nat :=
  s.plan.left + Plan.pieceBudget parent s.active

def source (level : Level) (parent : Source Files π) (view : Option (ParentView π))
    (hv : ∀ v, view = some v → v.IsBounded parent) : Source Files (LevelStream π) where
  pull := pull level parent view
  budget := budget parent
  budget_pull files s := by
    fun_induction pull level parent view files s with
    | case1 => simp [Pulled.cost]
    | case2 s _ piece ha bytes rest hr _ ih =>
      have := (Piece.source level.place parent).budget_of_pull hr
      simp only [budget, Plan.pieceBudget, Piece.source, ha] at *
      omega
    | case3 s _ piece ha bytes rest hr he =>
      have := (Piece.source level.place parent).budget_of_pull hr
      simp only [budget, Plan.pieceBudget, Piece.source, ha] at *
      omega
    | case4 s => simp [budget, Plan.pieceBudget, fail, Pulled.cost]
    | case5 s _ _ _ _ _ ih => simp only [budget, Plan.pieceBudget] at *; omega
    | case6 s _ ha piece plan hn ih =>
      have := (Plan.left_of_next hv hn).1 (some piece) rfl
      simp only [budget, ha] at *
      simp only [Plan.pieceBudget] at *
      omega
    | case7 s _ ha plan hn =>
      have := (Plan.left_of_next hv hn).2
      simp only [budget, ha, Pulled.cost] at *
      omega
    | case8 s _ ha e plan hn =>
      have := (Plan.left_of_next hv hn).2
      simp only [budget, ha, Pulled.cost, fail] at *
      omega

end LevelStream

end VirtualDisk
