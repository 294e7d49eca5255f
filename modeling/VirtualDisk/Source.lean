import VirtualDisk.Error

namespace VirtualDisk

inductive Pulled where
  | chunk (bytes : ByteArray)
  | failed (error : Error)
  | ended

def Pulled.cost : Pulled → Nat
  | chunk bytes => max 1 bytes.size
  | failed _ | ended => 0

theorem Pulled.cost_pos (bytes : ByteArray) : 0 < (Pulled.chunk bytes).cost := by
  simp only [cost]; omega

/-- How to pull chunks from states of type `σ` in an environment of type `ε`. -/
structure Source (ε σ : Type) where
  pull : ε → σ → Pulled × σ
  budget : σ → Nat
  budget_pull : ∀ env s, budget (pull env s).2 + (pull env s).1.cost ≤ budget s

namespace Source

variable {ε δ σ τ : Type}

theorem budget_of_pull (s : Source ε σ) {env : ε} {a b : σ} {p : Pulled}
    (h : s.pull env a = (p, b)) : s.budget b + p.cost ≤ s.budget a := by
  have := s.budget_pull env a
  rwa [h] at this

/-- The same source in an environment of which it sees a part. -/
def on (s : Source ε σ) (part : δ → ε) : Source δ σ where
  pull env := s.pull (part env)
  budget := s.budget
  budget_pull env := s.budget_pull (part env)

def andThen (first : Source ε σ) (second : Source ε τ) : Source ε (σ × τ) where
  pull env s :=
    match first.pull env s.1 with
    | (.ended, a) => ((second.pull env s.2).1, (a, (second.pull env s.2).2))
    | (p, a) => (p, (a, s.2))
  budget s := first.budget s.1 + second.budget s.2
  budget_pull env s := by
    have h1 := first.budget_pull env s.1
    have h2 := second.budget_pull env s.2
    split
    · next a h => rw [h] at h1; simp only [Pulled.cost] at h1; simp only; omega
    · next p a _ h => rw [h] at h1; simp only at h1 ⊢; omega

def listBudget : List (Except Error ByteArray) → Nat
  | [] => 0
  | .ok bytes :: rest => max 1 bytes.size + listBudget rest
  | .error _ :: rest => listBudget rest

def ofList : Source ε (List (Except Error ByteArray)) where
  pull _
    | [] => (.ended, [])
    | .ok bytes :: rest => (.chunk bytes, rest)
    | .error e :: rest => (.failed e, rest)
  budget := listBudget
  budget_pull _ items := by
    split <;> simp only [listBudget, Pulled.cost] <;> omega

def never : Source ε Empty where
  pull _ s := nomatch s
  budget s := nomatch s
  budget_pull _ s := nomatch s

end Source

end VirtualDisk
