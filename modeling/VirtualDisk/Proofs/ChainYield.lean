import VirtualDisk.Stream.ChainStream
import VirtualDisk.Proofs.PlanYield

namespace VirtualDisk

namespace LevelStream

variable {π : Type} {level : Level} {parent : Source Files π} {view : Option (ParentView π)}
  {hv : ∀ v, view = some v → v.IsBounded parent} {files : Files}

theorem pull_of_closed {s : LevelStream π} (h : s.phase ≠ .streaming) :
    pull level parent view files s = (.ended, s) := by
  rw [pull, if_pos h]

theorem pull_of_active {plan : Plan} {given : Nat} {piece : Piece π} :
    pull level parent view files ⟨plan, given, some piece, .streaming⟩
      = match (Piece.source level.place parent).pull files piece with
        | (.chunk bytes, rest) =>
          if bytes.isEmpty then pull level parent view files ⟨plan, given, some rest, .streaming⟩
          else (.chunk bytes, ⟨plan, given + bytes.size, some rest, .streaming⟩)
        | (.failed e, _) => (.failed e, ⟨plan, given, none, .failed⟩)
        | (.ended, _) => pull level parent view files ⟨plan, given, none, .streaming⟩ := by
  rw [pull, if_neg (fun h => h rfl)]
  simp only
  split
  · next h => rw [h]
  · next h =>
    rw [h]
    rfl
  · next h => rw [h]

theorem pull_of_idle {plan : Plan} {given : Nat} :
    pull level parent view files ⟨plan, given, none, .streaming⟩
      = match plan.next level view (files.contents level.place) with
        | (.ok (some piece), rest) =>
          pull level parent view files ⟨rest, given, some piece, .streaming⟩
        | (.ok none, rest) => (.ended, ⟨rest, given, none, .finished⟩)
        | (.error e, rest) => (.failed e, ⟨rest, given, none, .failed⟩) := by
  rw [pull, if_neg (fun h => h rfl)]
  simp only
  split
  · next h => rw [h]
  · next h => rw [h]
  · next h =>
    rw [h]
    rfl

section round

variable {s rest : LevelStream π} {p : Pulled}

/-- What a stream brings when its active piece is pulled, if it brings something. -/
def behindPiece (s : LevelStream π) : Pulled × Piece π → Option Pulled × LevelStream π
  | (.chunk bytes, piece) =>
    if bytes.isEmpty then (none, { s with active := some piece })
    else (some (.chunk bytes), { s with active := some piece, given := s.given + bytes.size })
  | (.failed e, _) => (some (.failed e), s.fail)
  | (.ended, _) => (none, { s with active := none })

def behindPlan (s : LevelStream π) :
    Except Error (Option (Piece π)) × Plan → Option Pulled × LevelStream π
  | (.ok (some piece), plan) => (none, { s with plan, active := some piece })
  | (.ok none, plan) => (some .ended, { s with plan, phase := .finished })
  | (.error e, plan) => (some (.failed e), { s with plan }.fail)

/-- One round of the loop in a pull. -/
def round (level : Level) (parent : Source Files π) (view : Option (ParentView π)) (files : Files)
    (s : LevelStream π) : Option Pulled × LevelStream π :=
  match s.active with
  | some piece => s.behindPiece ((Piece.source level.place parent).pull files piece)
  | none => s.behindPlan (s.plan.next level view (files.contents level.place))

theorem round_active {piece : Piece π} (ha : s.active = some piece) :
    round level parent view files s
      = s.behindPiece ((Piece.source level.place parent).pull files piece) := by
  rw [round, ha]

theorem round_idle (ha : s.active = none) :
    round level parent view files s
      = s.behindPlan (s.plan.next level view (files.contents level.place)) := by
  rw [round, ha]

theorem pull_eq_round (hs : s.phase = .streaming) :
    pull level parent view files s
      = match round level parent view files s with
        | (some p, rest) => (p, rest)
        | (none, rest) => pull level parent view files rest := by
  obtain ⟨plan, given, active, phase⟩ := s
  cases hs
  cases active with
  | some piece =>
    rw [pull_of_active, round_active rfl]
    generalize (Piece.source level.place parent).pull files piece = pulled
    match pulled with
    | (.chunk bytes, rest) =>
      simp only [behindPiece]
      split <;> rfl
    | (.failed e, rest) => rfl
    | (.ended, rest) => rfl
  | none =>
    rw [pull_of_idle, round_idle rfl]
    generalize plan.next level view (files.contents level.place) = next
    match next with
    | (.ok (some piece), rest) => rfl
    | (.ok none, rest) => rfl
    | (.error e, rest) => rfl

theorem pull_of_round (hs : s.phase = .streaming)
    (h : round level parent view files s = (some p, rest)) :
    pull level parent view files s = (p, rest) := by
  rw [pull_eq_round hs, h]

theorem pull_of_round_none (hs : s.phase = .streaming)
    (h : round level parent view files s = (none, rest)) :
    pull level parent view files s = pull level parent view files rest := by
  rw [pull_eq_round hs, h]

/-- A pull makes rounds up to the first that brings something. -/
theorem pull_induct {motive : LevelStream π → Prop}
    (closed : ∀ s, s.phase ≠ .streaming → motive s)
    (brings : ∀ s p rest, s.phase = .streaming →
      round level parent view files s = (some p, rest) → motive s)
    (goesOn : ∀ s rest, s.phase = .streaming →
      round level parent view files s = (none, rest) → motive rest → motive s)
    (s : LevelStream π) : motive s := by
  fun_induction pull level parent view files s with
  | case1 s hs => exact closed s hs
  | case2 s hs piece ha bytes rest hr he ih =>
    exact goesOn s _ (Decidable.not_not.mp hs)
      (by simp only [round, ha, hr, behindPiece, he]; rfl) ih
  | case3 s hs piece ha bytes rest hr he =>
    exact brings s _ _ (Decidable.not_not.mp hs)
      (by simp only [round, ha, hr, behindPiece, he]; rfl)
  | case4 s hs piece ha e rest hr =>
    exact brings s _ _ (Decidable.not_not.mp hs) (by simp only [round, ha, hr]; rfl)
  | case5 s hs piece ha rest hr ih =>
    exact goesOn s _ (Decidable.not_not.mp hs) (by simp only [round, ha, hr]; rfl) ih
  | case6 s hs ha piece plan hn ih =>
    exact goesOn s _ (Decidable.not_not.mp hs) (by simp only [round, ha, hn]; rfl) ih
  | case7 s hs ha plan hn =>
    exact brings s _ _ (Decidable.not_not.mp hs) (by simp only [round, ha, hn]; rfl)
  | case8 s hs ha e plan hn =>
    exact brings s _ _ (Decidable.not_not.mp hs) (by simp only [round, ha, hn]; rfl)

theorem phase_of_round_ended (h : round level parent view files s = (some .ended, rest)) :
    rest.phase = .finished := by
  cases ha : s.active with
  | some piece =>
    rw [round_active ha] at h
    unfold behindPiece at h
    split at h
    · split at h <;> cases h
    · cases h
    · cases h
  | none =>
    rw [round_idle ha] at h
    unfold behindPlan at h
    split at h
    · cases h
    · cases h
      rfl
    · cases h

end round

theorem stays_ended : (LevelStream.source level parent view hv).StaysEnded := by
  intro files s rest h
  change pull level parent view files s = (.ended, rest) at h
  suffices hclosed : rest.phase ≠ .streaming from pull_of_closed hclosed
  induction s using @pull_induct π level parent view files with
  | closed s hs =>
    rw [pull_of_closed hs] at h
    cases h
    exact hs
  | brings s p more hs hround =>
    rw [pull_of_round hs hround] at h
    cases h
    rw [phase_of_round_ended hround]
    exact fun h => nomatch h
  | goesOn s more hs hround ih => exact ih (pull_of_round_none hs hround ▸ h)

variable {want want' : List (Option UInt8)} {ok ok' : Prop}

/-- The active piece comes first, and then what is planned. -/
theorem yields_active {plan : Plan} {piece : Piece π}
    (hrest : ∀ given, (LevelStream.source level parent view hv).Yields files
      ⟨plan, given, none, .streaming⟩ want' ok')
    (h : (Piece.source level.place parent).Yields files piece want ok) (given : Nat) :
    (LevelStream.source level parent view hv).Yields files
      ⟨plan, given, some piece, .streaming⟩ (want ++ want') (ok ∧ ok') := by
  induction hn : (Piece.source level.place parent).budget piece using Nat.strongRecOn
    generalizing piece given want with
  | ind n ih =>
    have hp := @pull_of_active π level parent view files plan given piece
    rcases hpull : (Piece.source level.place parent).pull files piece with ⟨pulled, rest⟩
    rw [hpull] at hp
    cases pulled with
    | chunk bytes =>
      have hlt := hn ▸ Source.budget_lt_of_chunk hpull
      rw [Source.Yields, Source.total_of_chunk hpull] at h
      obtain ⟨more, rfl, hmore⟩ := h.of_prepend
      have hnext (given : Nat) := ih _ hlt hmore given rfl
      by_cases he : bytes.isEmpty = true
      · have hempty : octets bytes = [] := by
          rw [octets_eq_nil_iff]
          simpa [ByteArray.isEmpty] using he
        simp only [he, if_true] at hp
        rw [Source.Yields, Source.total_congr hp, hempty]
        exact hnext given
      · simp only [he, Bool.false_eq_true, if_false] at hp
        rw [Source.Yields, Source.total_of_chunk hp, List.append_assoc]
        exact (hnext _).prepend _
    | failed e =>
      rw [Source.Yields, Source.total_of_failed hpull] at h
      rw [Source.Yields, Source.total_of_failed hp]
      exact Total.yields_of_not fun ho => Option.some_ne_none _ (h.fault_iff.mpr ho.1)
    | ended =>
      rw [Source.Yields, Source.total_of_ended hpull] at h
      rw [Source.Yields, Source.total_congr hp, ← h.complete rfl]
      exact (hrest given).congr (and_iff_right (h.fault_iff.mp rfl))

variable {inherited : Nat → Option UInt8} {below : Nat → Nat → Prop}

/-- A stream gives all that its plan has to give. -/
theorem yields_plan (hs : level.HasFittingBlocks)
    (hgives : ∀ v, view = some v → v.Gives parent files inherited below) {plan : Plan}
    (hf : plan.Fits level) (given : Nat) :
    (LevelStream.source level parent view hv).Yields files ⟨plan, given, none, .streaming⟩
      (plan.toGive level.flattenedFooter
        (level.byte (files.contents level.place) view.isSome inherited))
      (level.Readable (files.contents level.place) view.isSome below plan.cursor plan.dataEnd) := by
  -- The piece that a step plans is pulled to its end before the next step.
  induction hn : plan.work using Nat.strongRecOn generalizing plan given with
  | ind n ih =>
    have hp := @pull_of_idle π level parent view files plan given
    have hstep := @Plan.stepYields_next π parent files level view inherited below plan hs hgives hf
    match hnext : plan.next level view (files.contents level.place) with
    | (.ok (some piece), rest) =>
      rw [hnext] at hp hstep
      obtain ⟨hfits, want, ok, hpiece, hwant, hok⟩ := hstep
      have hlt := hn ▸ Plan.work_of_next hnext
      rw [Source.Yields, Source.total_congr hp, hwant]
      exact (yields_active (fun given => ih _ hlt hfits given rfl) hpiece given).congr hok
    | (.ok none, rest) =>
      rw [hnext] at hp hstep
      rw [Source.Yields, Source.total_of_ended hp, hstep.1]
      exact Total.yields_nil hstep.2
    | (.error e, rest) =>
      rw [hnext] at hp hstep
      rw [Source.Yields, Source.total_of_failed hp]
      exact Total.yields_of_not hstep

end LevelStream

theorem readable_of_le {files : Files} {chain : List Level} {lo hi : Nat} (h : hi ≤ lo) :
    Readable files chain lo hi := by
  cases chain with
  | nil => trivial
  | cons level ancestors => exact Level.readable_of_le h

namespace ChainStream

variable {files : Files} {level : Level} {ancestors : List Level}

theorem isSome_view (chain : List Level) : (view chain).isSome = !chain.isEmpty := by
  cases chain <;> rfl

theorem span_append_span {f : Nat → Option UInt8} (lo stop size more : Nat) :
    span f lo (max (min (max stop lo) size) lo)
        ++ span f (max lo size) (min (max stop lo) (size + more))
      = span f lo (min stop (size + more)) := by
  by_cases hs : stop ≤ lo
  · rw [span_eq_nil (by omega), span_eq_nil (by omega), span_eq_nil (by omega), List.append_nil]
  · rw [Nat.max_eq_left (Nat.le_of_not_le hs)]
    by_cases hl : lo ≤ size
    · rw [Nat.max_eq_right hl, Nat.max_eq_left (by omega)]
      by_cases hd : stop ≤ size
      · rw [@span_eq_nil _ f size _ (by omega), List.append_nil]
        congr 1
        omega
      · rw [Nat.min_eq_right (Nat.le_of_not_le hd), span_append hl (by omega)]
    · rw [Nat.max_eq_left (Nat.le_of_not_le hl), Nat.max_eq_right (by omega),
        span_eq_nil (Nat.le_refl lo), List.nil_append]

theorem toGive_ofRange (lo stop : Nat) (buffer : BufferSize) :
    (Plan.ofRange level.footer.currentSize lo stop buffer).toGive level.flattenedFooter
        (content files (level :: ancestors))
      = span (flattened files (level :: ancestors)) lo
        (min stop (level.footer.currentSize + Footer.size)) := by
  rw [← span_append_span]
  change span _ _ _ ++ span _ _ _ = _
  congr 1
  · apply span_congr
    intro o h1 h2
    have hlt : o < level.footer.currentSize := by
      simp only [Plan.dataEnd, Plan.ofRange] at h1 h2
      omega
    exact (if_pos hlt).symm
  · apply span_congr
    intro o h1 h2
    have hge : level.footer.currentSize ≤ o :=
      Nat.le_trans (Nat.le_max_right lo _) h1
    exact (if_neg (Nat.not_lt.mpr hge)).symm

theorem readable_ofRange (lo stop : Nat) (buffer : BufferSize) :
    Readable files (level :: ancestors) lo
        (Plan.ofRange level.footer.currentSize lo stop buffer).dataEnd
      ↔ Readable files (level :: ancestors) lo (min stop level.footer.currentSize) := by
  simp only [Plan.dataEnd, Plan.ofRange]
  by_cases h : min stop level.footer.currentSize ≤ lo
  · exact ⟨fun _ => readable_of_le h, fun _ => readable_of_le (by omega)⟩
  · rw [show max (min (max stop lo) level.footer.currentSize) lo
      = min stop level.footer.currentSize by omega]

theorem yields_cons (hs : level.HasFittingBlocks)
    (hv : ∀ v, view ancestors = some v → v.Gives (source ancestors) files
      (inherited files ancestors) fun lo hi =>
        Readable files ancestors lo (min hi (extent ancestors)))
    {lo : Nat} (hl : sectorSize ∣ lo) (stop : Nat) (buffer : BufferSize) :
    (source (level :: ancestors)).Yields files (LevelStream.ofRange level lo stop buffer)
      (span (flattened files (level :: ancestors)) lo
        (min stop (level.footer.currentSize + Footer.size)))
      (Readable files (level :: ancestors) lo (min stop level.footer.currentSize)) := by
  have hf : (Plan.ofRange level.footer.currentSize lo stop buffer).Fits level :=
    ⟨fun _ => hl, fun _ => rfl⟩
  have hy := @LevelStream.yields_plan _ level (source ancestors) (view ancestors)
    (boundedSource ancestors).2 files _ _ hs hv _ hf 0
  rw [isSome_view, ← content_cons, toGive_ofRange] at hy
  exact hy.congr (readable_ofRange lo stop buffer).symm

theorem stays_ended (chain : List Level) : (source chain).StaysEnded := by
  cases chain with
  | nil =>
    intro _ a
    exact nomatch a
  | cons level ancestors =>
    exact @LevelStream.stays_ended _ level _ (view ancestors) (boundedSource ancestors).2

theorem span_inherited_front (lo hi : Nat) :
    span (flattened files (level :: ancestors)) lo
        (min (max (min hi level.footer.currentSize) lo) (level.footer.currentSize + Footer.size))
      = span (inherited files (level :: ancestors)) lo
        (max (min hi level.footer.currentSize) lo) := by
  by_cases hd : min hi level.footer.currentSize ≤ lo
  · rw [span_eq_nil (by omega), span_eq_nil (by omega)]
  · rw [Nat.min_eq_left (by omega)]
    apply span_congr
    intro o h1 h2
    have hlt : o < extent (level :: ancestors) := by
      change o < level.footer.currentSize
      omega
    exact (if_pos hlt).trans (if_pos hlt).symm

theorem span_inherited_rest (lo hi : Nat) :
    List.replicate (hi - max (min hi level.footer.currentSize) lo) (some 0)
      = span (inherited files (level :: ancestors))
        (max (min hi level.footer.currentSize) lo) hi := by
  rw [← span_const]
  apply span_congr
  intro o h1 h2
  have hge : ¬o < extent (level :: ancestors) := by
    change ¬o < level.footer.currentSize
    omega
  exact (if_neg hge).symm

theorem gives_view (chain : List Level) (hs : ∀ level ∈ chain, level.HasFittingBlocks) :
    ∀ v, view chain = some v → v.Gives (source chain) files (inherited files chain)
      fun lo hi => Readable files chain lo (min hi (extent chain)) := by
  induction chain with
  | nil =>
    intro v h
    cases h
  | cons level ancestors ih =>
    intro v h lo hi buffer hle hl
    cases h
    -- The range is that of the topmost image, as far as its disk goes, and a run of zeros.
    have hy := yields_cons (hs level List.mem_cons_self)
      (ih fun l hm => hs l (List.mem_cons_of_mem _ hm)) hl
      (max (min hi level.footer.currentSize) lo) buffer
    have hz := ZeroRun.yields files ⟨hi - max (min hi level.footer.currentSize) lo, buffer⟩
    have hall := hy.andThen (stays_ended (level :: ancestors)) hz
    rw [span_inherited_front, span_inherited_rest, span_append (by omega) (by omega)] at hall
    apply hall.congr
    rw [and_true]
    change Readable files (level :: ancestors) lo (min hi level.footer.currentSize) ↔ _
    by_cases hd : min hi level.footer.currentSize ≤ lo
    · exact ⟨fun _ => readable_of_le (by omega), fun _ => readable_of_le hd⟩
    · rw [show min (max (min hi level.footer.currentSize) lo) level.footer.currentSize
        = min hi level.footer.currentSize by omega]

/-- The stream of a range of a chain. -/
theorem yields_ofRange (hs : ∀ l ∈ level :: ancestors, l.HasFittingBlocks) {lo : Nat}
    (hl : sectorSize ∣ lo) (stop : Nat) (buffer : BufferSize) :
    (source (level :: ancestors)).Yields files (LevelStream.ofRange level lo stop buffer)
      (span (flattened files (level :: ancestors)) lo
        (min stop (level.footer.currentSize + Footer.size)))
      (Readable files (level :: ancestors) lo (min stop level.footer.currentSize)) :=
  yields_cons (hs level List.mem_cons_self)
    (gives_view ancestors fun l hm => hs l (List.mem_cons_of_mem _ hm)) hl stop buffer

end ChainStream

end VirtualDisk
