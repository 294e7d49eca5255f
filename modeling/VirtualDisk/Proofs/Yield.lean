import VirtualDisk.Proofs.Octets
import VirtualDisk.Source

namespace VirtualDisk

/-- What a source gives in all: bytes, and the error that ends them, if one does. -/
structure Total where
  bytes : List UInt8
  fault : Option Error

namespace Total

/-- What two sources give in a row, the second only if no error ends the first. -/
def followedBy (x y : Total) : Total :=
  match x.fault with
  | some e => ⟨x.bytes, some e⟩
  | none => ⟨x.bytes ++ y.bytes, y.fault⟩

/-- The front of the bytes that are wanted is given, and all of them if no
error ends it, which is so just if `ok` holds. A byte that is `none` cannot be
given. -/
structure Yields (x : Total) (want : List (Option UInt8)) (ok : Prop) : Prop where
  front : x.bytes.map some <+: want
  complete : x.fault = none → x.bytes.map some = want
  fault_iff : x.fault = none ↔ ok

theorem prepend_followedBy (bytes : List UInt8) (x y : Total) :
    followedBy ⟨bytes ++ x.bytes, x.fault⟩ y
      = ⟨bytes ++ (x.followedBy y).bytes, (x.followedBy y).fault⟩ := by
  unfold followedBy
  cases x.fault with
  | some e => rfl
  | none => simp

variable {x y : Total} {want want' : List (Option UInt8)} {ok ok' : Prop}

theorem yields_nil (hok : ok) : Yields ⟨[], none⟩ [] ok := by
  constructor
  · exact List.nil_prefix
  · exact fun _ => rfl
  · exact ⟨fun _ => hok, fun _ => rfl⟩

theorem yields_of_not {e : Error} (hok : ¬ok) : Yields ⟨[], some e⟩ want ok := by
  constructor
  · exact List.nil_prefix
  · exact fun h => nomatch h
  · exact ⟨fun h => (nomatch h), fun h => absurd h hok⟩

theorem Yields.length_le (h : x.Yields want ok) : x.bytes.length ≤ want.length := by
  have hle := h.front.length_le
  rwa [List.length_map] at hle

theorem Yields.length_eq (h : x.Yields want ok) (he : x.fault = none) :
    x.bytes.length = want.length := by
  have hall := congrArg List.length (h.complete he)
  rwa [List.length_map] at hall

theorem Yields.prepend (h : x.Yields want ok) (bytes : List UInt8) :
    Yields ⟨bytes ++ x.bytes, x.fault⟩ (bytes.map some ++ want) ok := by
  constructor
  · rw [List.map_append]
    exact (List.prefix_append_right_inj _).mpr h.front
  · intro he
    rw [List.map_append, h.complete he]
  · exact h.fault_iff

theorem Yields.of_prepend {bytes : List UInt8}
    (h : Yields ⟨bytes ++ x.bytes, x.fault⟩ want ok) :
    ∃ rest, want = bytes.map some ++ rest ∧ x.Yields rest ok := by
  obtain ⟨more, hmore⟩ := h.front
  rw [List.map_append, List.append_assoc] at hmore
  refine ⟨x.bytes.map some ++ more, hmore.symm, List.prefix_append _ _, ?_, h.fault_iff⟩
  intro hf
  have hc := h.complete hf
  rw [List.map_append, ← hmore] at hc
  exact List.append_cancel_left hc

theorem Yields.congr (h : x.Yields want ok) (ho : ok' ↔ ok) : x.Yields want ok' :=
  ⟨h.front, h.complete, h.fault_iff.trans ho.symm⟩

theorem Yields.followedBy (h : x.Yields want ok) (h' : y.Yields want' ok') :
    (x.followedBy y).Yields (want ++ want') (ok ∧ ok') := by
  unfold Total.followedBy
  cases hf : x.fault with
  | some e =>
    have hok : ¬ok := fun ho => by
      rw [h.fault_iff.mpr ho] at hf
      cases hf
    constructor
    · exact h.front.trans (List.prefix_append _ _)
    · exact fun he => nomatch he
    · exact ⟨fun he => (nomatch he), fun ho => absurd ho.1 hok⟩
  | none =>
    have hw := h.complete hf
    constructor
    · rw [List.map_append, hw]
      exact (List.prefix_append_right_inj _).mpr h'.front
    · intro he
      rw [List.map_append, hw, h'.complete he]
    · exact h'.fault_iff.trans ⟨fun ho => ⟨h.fault_iff.mp hf, ho⟩, fun ho => ho.2⟩

end Total

namespace Source

variable {ε σ τ : Type}

/-- The chunks that a source still gives while its environment stays as it is,
and the error that ends them, if one does. -/
def run (s : Source ε σ) (env : ε) (a : σ) : List ByteArray × Option Error :=
  match _h : s.pull env a with
  | (.chunk bytes, rest) => (bytes :: (s.run env rest).1, (s.run env rest).2)
  | (.failed e, _) => ([], some e)
  | (.ended, _) => ([], none)
termination_by s.budget a
decreasing_by
  have := s.budget_of_pull _h
  have := Pulled.cost_pos bytes
  omega

def total (s : Source ε σ) (env : ε) (a : σ) : Total :=
  ⟨(s.run env a).1.flatMap octets, (s.run env a).2⟩

variable {s : Source ε σ} {env : ε} {a b : σ}

theorem run_of_chunk {bytes : ByteArray} (h : s.pull env a = (.chunk bytes, b)) :
    s.run env a = (bytes :: (s.run env b).1, (s.run env b).2) := by
  rw [run, h]

theorem run_of_failed {e : Error} (h : s.pull env a = (.failed e, b)) :
    s.run env a = ([], some e) := by
  rw [run, h]

theorem run_of_ended (h : s.pull env a = (.ended, b)) : s.run env a = ([], none) := by
  rw [run, h]

theorem total_of_chunk {bytes : ByteArray} (h : s.pull env a = (.chunk bytes, b)) :
    s.total env a = ⟨octets bytes ++ (s.total env b).bytes, (s.total env b).fault⟩ := by
  simp [total, run_of_chunk h]

theorem total_of_failed {e : Error} (h : s.pull env a = (.failed e, b)) :
    s.total env a = ⟨[], some e⟩ := by
  simp [total, run_of_failed h]

theorem total_of_ended (h : s.pull env a = (.ended, b)) : s.total env a = ⟨[], none⟩ := by
  simp [total, run_of_ended h]

theorem total_congr (h : s.pull env a = s.pull env b) : s.total env a = s.total env b := by
  have hr : s.run env a = s.run env b := by rw [run, run, h]
  rw [total, total, hr]

theorem budget_lt_of_chunk {bytes : ByteArray} (h : s.pull env a = (.chunk bytes, b)) :
    s.budget b < s.budget a := by
  have := s.budget_of_pull h
  have := Pulled.cost_pos bytes
  omega

/-- Two states that bring the same give the same to the end. -/
theorem total_embed {δ : Type} {s : Source ε σ} {s' : Source δ τ} {env' : δ} {f : σ → τ}
    (h : ∀ a, s'.pull env' (f a) = (s.pull env a).map id f) (a : σ) :
    s'.total env' (f a) = s.total env a := by
  induction hn : s.budget a using Nat.strongRecOn generalizing a with
  | ind n ih =>
    have hp := h a
    match ha : s.pull env a with
    | (.chunk bytes, rest) =>
      rw [ha] at hp
      rw [total_of_chunk hp, total_of_chunk ha, ih _ (hn ▸ budget_lt_of_chunk ha) rest rfl]
    | (.failed e, rest) =>
      rw [ha] at hp
      rw [total_of_failed hp, total_of_failed ha]
    | (.ended, rest) =>
      rw [ha] at hp
      rw [total_of_ended hp, total_of_ended ha]

theorem total_on {δ : Type} (s : Source ε σ) (part : δ → ε) (env : δ) (a : σ) :
    (s.on part).total env a = s.total (part env) a := by
  have h (b : σ) : (s.on part).pull env (id b) = (s.pull (part env) b).map id id := rfl
  exact total_embed h a

/-- Once such a source has ended, it stays as it is. -/
def StaysEnded (s : Source ε σ) : Prop :=
  ∀ env a b, s.pull env a = (.ended, b) → s.pull env b = (.ended, b)

theorem total_andThen_of_ended {first : Source ε σ} {second : Source ε τ}
    (h : first.pull env a = (.ended, a)) (c : τ) :
    (first.andThen second).total env (a, c) = second.total env c := by
  induction hn : second.budget c using Nat.strongRecOn generalizing c with
  | ind n ih =>
    have hp : (first.andThen second).pull env (a, c)
        = ((second.pull env c).1, (a, (second.pull env c).2)) := by
      simp only [andThen, h]
    rcases hc : second.pull env c with ⟨pulled, rest⟩
    rw [hc] at hp
    cases pulled with
    | chunk bytes =>
      have hr := ih _ (hn ▸ budget_lt_of_chunk hc) rest rfl
      rw [total_of_chunk hp, total_of_chunk hc, hr]
    | failed e => rw [total_of_failed hp, total_of_failed hc]
    | ended => rw [total_of_ended hp, total_of_ended hc]

theorem total_andThen {first : Source ε σ} {second : Source ε τ} (hs : first.StaysEnded)
    (a : σ) (c : τ) :
    (first.andThen second).total env (a, c)
      = (first.total env a).followedBy (second.total env c) := by
  induction hn : first.budget a using Nat.strongRecOn generalizing a with
  | ind n ih =>
    match ha : first.pull env a with
    | (.chunk bytes, rest) =>
      have hp : (first.andThen second).pull env (a, c) = (.chunk bytes, (rest, c)) := by
        simp only [andThen, ha]
      have hr := ih _ (hn ▸ budget_lt_of_chunk ha) rest rfl
      rw [total_of_chunk hp, hr, total_of_chunk ha, Total.prepend_followedBy]
    | (.failed e, rest) =>
      have hp : (first.andThen second).pull env (a, c) = (.failed e, (rest, c)) := by
        simp only [andThen, ha]
      rw [total_of_failed hp, total_of_failed ha]
      rfl
    | (.ended, rest) =>
      -- The second source is asked in the state in which the first one settles.
      have hr := hs env a rest ha
      have hp : (first.andThen second).pull env (a, c)
          = (first.andThen second).pull env (rest, c) := by
        simp only [andThen, ha, hr]
      rw [total_congr hp, total_andThen_of_ended hr, total_of_ended ha]
      rfl

/-- Pulled to its end in an environment that stays as it is, a source yields
some bytes. -/
def Yields (s : Source ε σ) (env : ε) (a : σ) (want : List (Option UInt8)) (ok : Prop) : Prop :=
  (s.total env a).Yields want ok

theorem Yields.andThen {first : Source ε σ} {second : Source ε τ} {a : σ} {c : τ}
    {want want' : List (Option UInt8)} {ok ok' : Prop} (hs : first.StaysEnded)
    (h : first.Yields env a want ok) (h' : second.Yields env c want' ok') :
    (first.andThen second).Yields env (a, c) (want ++ want') (ok ∧ ok') := by
  rw [Yields, total_andThen hs]
  exact h.followedBy h'

end Source

end VirtualDisk
