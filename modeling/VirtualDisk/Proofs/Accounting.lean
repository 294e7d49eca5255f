import VirtualDisk.Proofs.StreamLedger
import VirtualDisk.Proofs.Flattening

namespace VirtualDisk

inductive Action where
  | next
  | read (count : Nat)
  | destroy

theorem Source.Pays.size_le {σ : Type} {owes : σ → Nat → Prop} {n : Nat} {rest : σ} {p : Pulled}
    (h : Pays owes n rest p) : p.size ≤ n := by
  cases p with
  | chunk bytes =>
    obtain ⟨left, -, hsum⟩ := h
    exact Nat.le_of_add_right_le (Nat.le_of_eq hsum)
  | failed e => exact Nat.zero_le n
  | ended => exact Nat.zero_le n

namespace LevelStream

variable {π : Type} {s t : LevelStream π} {p : Pulled}

theorem Moves.given (h : s.Moves t p) : t.given = s.given + p.size := by
  cases p with
  | chunk bytes => exact h.2.2.2
  | failed e => exact h.2.2
  | ended =>
    obtain ⟨-, -, hgiven⟩ | ⟨-, rfl⟩ := h
    · exact hgiven
    · rfl

/-- The stream can be read on: it gives chunks, or it came to its end. -/
def IsOpen (s : LevelStream π) : Prop := s.phase = .streaming ∨ s.phase = .finished

theorem Moves.isOpen_iff (h : s.Moves t p) : t.IsOpen ↔ s.IsOpen ∧ p.isFailed = false := by
  cases p with
  | chunk bytes => exact ⟨fun _ => ⟨.inl h.2.1, rfl⟩, fun _ => .inl h.2.2.1⟩
  | failed e =>
    constructor
    · rintro (hopen | hopen) <;> cases h.2.1.symm.trans hopen
    · rintro ⟨-, hnot⟩
      cases hnot
  | ended =>
    obtain ⟨hstreaming, hfinished, -⟩ | ⟨-, rfl⟩ := h
    · exact ⟨fun _ => ⟨.inl hstreaming, rfl⟩, fun _ => .inr hfinished⟩
    · exact ⟨fun hopen => ⟨hopen, rfl⟩, And.left⟩

end LevelStream

namespace DiskStream

variable {d : Disk} {files : Files} {a : Action} {s t : DiskStream d} {request : RangeRequest}

/-- A read of `count` bytes takes a chunk from the stream. -/
def Pulls (s : DiskStream d) (count : Nat) : Prop :=
  count ≠ 0 ∧ s.unread.size = 0 ∧ s.closed? = none

instance (s : DiskStream d) (count : Nat) : Decidable (s.Pulls count) :=
  inferInstanceAs (Decidable (_ ∧ _ ∧ _ = none))

theorem pull_of_next {p : Pulled} (h : s.next files = (p, t)) :
    (source d).pull files s.levels = (p, t.levels) := by
  cases h
  rfl

theorem fill_of_unread (h : s.unread.size ≠ 0) : s.fill files = (.ok s.unread, s) :=
  if_pos (Nat.pos_of_ne_zero h)

theorem read_zero : s.read files 0 = (.ok ByteArray.empty, s) := if_pos rfl

theorem read_of_unread {count : Nat} (hc : count ≠ 0) (hu : s.unread.size ≠ 0) :
    s.read files count
      = (.ok (slice s.unread 0 count),
        { s with unread := slice s.unread count s.unread.size }) := by
  rw [read, if_neg hc, fill_of_unread hu]

theorem read_of_closed {count : Nat} {e : Error} (hc : count ≠ 0) (hu : s.unread.size = 0)
    (he : s.closed? = some e) : s.read files count = (.error e, s) := by
  rw [read, if_neg hc, fill, if_neg (by omega), he]

/-- A read that pulls gives the front of the chunk, nothing at the end, or the
error of the pull. -/
theorem read_of_pulls {count : Nat} (h : s.Pulls count) :
    s.read files count = match s.next files with
      | (.chunk bytes, rest) =>
        (.ok (slice bytes 0 count), { rest with unread := slice bytes count bytes.size })
      | (.failed e, rest) => (.error e, rest)
      | (.ended, rest) => (.ok ByteArray.empty, { rest with unread := ByteArray.empty }) := by
  obtain ⟨hc, hu, hclosed⟩ := h
  rw [read, if_neg hc, fill, if_neg (by omega), hclosed]
  rcases s.next files with ⟨_ | _ | _, rest⟩ <;> rfl

/-- What an action pulls, if it pulls, and the stream behind it. -/
def act (files : Files) (s : DiskStream d) : Action → Option Pulled × DiskStream d
  | .next => (some (s.next files).1, (s.next files).2)
  | .read count => (if s.Pulls count then some (s.next files).1 else none, (s.read files count).2)
  | .destroy => (none, s.destroy)

def after (s : DiskStream d) : List (Files × Action) → DiskStream d
  | [] => s
  | (files, a) :: more => (s.act files a).2.after more

def log (s : DiskStream d) : List (Files × Action) → List Pulled
  | [] => []
  | (files, a) :: more => (s.act files a).1.toList ++ (s.act files a).2.log more

/-- The ways a read ends: what it returns, what it pulls and the stream behind it. -/
inductive Reads (files : Files) (s : DiskStream d) (count : Nat) :
    Except Error ByteArray → Option Pulled → DiskStream d → Prop
  | nothing : count = 0 → s.Reads files count (.ok ByteArray.empty) none s
  | rest : count ≠ 0 → s.unread.size ≠ 0 → s.Reads files count (.ok (slice s.unread 0 count)) none
      { s with unread := slice s.unread count s.unread.size }
  | closed {e : Error} : count ≠ 0 → s.unread.size = 0 → s.closed? = some e →
      s.Reads files count (.error e) none s
  | chunk {bytes : ByteArray} {t : DiskStream d} : s.Pulls count →
      s.next files = (.chunk bytes, t) →
      s.Reads files count (.ok (slice bytes 0 count)) (some (.chunk bytes))
        { t with unread := slice bytes count bytes.size }
  | failed {e : Error} {t : DiskStream d} : s.Pulls count → s.next files = (.failed e, t) →
      s.Reads files count (.error e) (some (.failed e)) t
  | ended {t : DiskStream d} : s.Pulls count → s.next files = (.ended, t) →
      s.Reads files count (.ok ByteArray.empty) (some .ended) { t with unread := ByteArray.empty }

theorem reads_read (files : Files) (s : DiskStream d) (count : Nat) :
    s.Reads files count (s.read files count).1 (s.act files (.read count)).1
      (s.read files count).2 := by
  rw [act]
  by_cases hp : s.Pulls count
  · rw [if_pos hp, read_of_pulls hp]
    match hn : s.next files with
    | (.chunk bytes, t) => exact .chunk hp hn
    | (.failed e, t) => exact .failed hp hn
    | (.ended, t) => exact .ended hp hn
  · rw [if_neg hp]
    by_cases hc : count = 0
    · rw [hc, read_zero]
      exact .nothing rfl
    by_cases hu : s.unread.size = 0
    · cases hclosed : s.closed? with
      | none => exact absurd ⟨hc, hu, hclosed⟩ hp
      | some e =>
        rw [read_of_closed hc hu hclosed]
        exact .closed hc hu hclosed
    · rw [read_of_unread hc hu]
      exact .rest hc hu

theorem Reads.levels_eq {count : Nat} {result : Except Error ByteArray} {pulled : Option Pulled}
    (h : s.Reads files count result pulled t) :
    pulled = none ∧ t.levels = s.levels ∨
      pulled = some ((source d).pull files s.levels).1 ∧
        t.levels = ((source d).pull files s.levels).2 := by
  cases h with
  | nothing | rest | closed => exact .inl ⟨rfl, rfl⟩
  | chunk _ hn | failed _ hn | ended _ hn =>
    rw [pull_of_next hn]
    exact .inr ⟨rfl, rfl⟩

theorem act_cases (files : Files) (s : DiskStream d) (a : Action) :
    (a ≠ .destroy ∧ (s.act files a).1 = none ∧ (s.act files a).2.levels = s.levels) ∨
      (a ≠ .destroy ∧ (s.act files a).1 = some ((source d).pull files s.levels).1 ∧
        (s.act files a).2.levels = ((source d).pull files s.levels).2) ∨
      (a = .destroy ∧ (s.act files a).1 = none ∧ (s.act files a).2 = s.destroy) := by
  cases a with
  | next => exact .inr (.inl ⟨Action.noConfusion, rfl, rfl⟩)
  | read count =>
    obtain ⟨hp, hl⟩ | ⟨hp, hl⟩ := (reads_read files s count).levels_eq
    · exact .inl ⟨Action.noConfusion, hp, hl⟩
    · exact .inr (.inl ⟨Action.noConfusion, hp, hl⟩)
  | destroy => exact .inr (.inr ⟨rfl, rfl, rfl⟩)

theorem pull_moves (files : Files) (levels : LevelStream (ChainStream d.ancestors)) :
    ((source d).pull files levels).2.plan.bounds = levels.plan.bounds ∧
      levels.Moves ((source d).pull files levels).2 ((source d).pull files levels).1 :=
  LevelStream.moves_of_pull rfl

theorem isReadable_iff : s.isReadable = true ↔ s.levels.IsOpen := by
  rw [isReadable, Bool.or_eq_true, decide_eq_true_iff, decide_eq_true_iff]
  rfl

theorem not_streaming (h : ¬s.isReadable = true) : s.levels.phase ≠ .streaming :=
  fun hp => h (isReadable_iff.mpr (.inl hp))

theorem bounds_act (files : Files) (s : DiskStream d) (a : Action) :
    (s.act files a).2.levels.plan.bounds = s.levels.plan.bounds := by
  obtain ⟨-, -, hs⟩ | ⟨-, -, hs⟩ | ⟨-, -, hs⟩ := act_cases files s a
  · rw [hs]
  · rw [hs]
    exact (pull_moves files s.levels).1
  · rw [hs]
    rfl

theorem given_act (files : Files) (s : DiskStream d) (a : Action) :
    (s.act files a).2.levels.given = s.levels.given + Pulled.sizes (s.act files a).1.toList := by
  obtain ⟨-, hp, hs⟩ | ⟨-, hp, hs⟩ | ⟨-, hp, hs⟩ := act_cases files s a
  · rw [hp, hs]
    rfl
  · rw [hp, hs]
    exact (pull_moves files s.levels).2.given
  · rw [hp, hs]
    rfl

theorem size_of_mem_act {bytes : ByteArray} (h : .chunk bytes ∈ (s.act files a).1.toList) :
    bytes.size ≠ 0 := by
  obtain ⟨-, hp, -⟩ | ⟨-, hp, -⟩ | ⟨-, hp, -⟩ := act_cases files s a
  · rw [hp] at h
    cases h
  · rw [hp, Option.toList_some, List.mem_singleton] at h
    have hmoves := (pull_moves files s.levels).2
    rw [← h] at hmoves
    exact hmoves.1
  · rw [hp] at h
    cases h

/-- An action keeps a stream readable unless it destroys it or pulls an error. -/
theorem isReadable_act (files : Files) (s : DiskStream d) (a : Action) :
    (s.act files a).2.isReadable = true ↔ s.isReadable = true ∧ a ≠ .destroy ∧
      ∀ p ∈ (s.act files a).1.toList, p.isFailed = false := by
  rw [isReadable_iff, isReadable_iff]
  obtain ⟨ha, hp, hs⟩ | ⟨ha, hp, hs⟩ | ⟨ha, hp, hs⟩ := act_cases files s a
  · rw [hp, hs]
    exact ⟨fun h => ⟨h, ha, List.forall_mem_nil _⟩, And.left⟩
  · rw [hp, hs, (pull_moves files s.levels).2.isOpen_iff, Option.toList_some,
      List.forall_mem_singleton]
    exact and_congr_right fun _ => (and_iff_right ha).symm
  · rw [hs]
    constructor
    · rintro (h | h) <;> cases h
    · rintro ⟨-, hne, -⟩
      exact absurd ha hne

theorem pull_of_closed (h : s.levels.phase ≠ .streaming) :
    (source d).pull files s.levels = (.ended, s.levels) := by
  change LevelStream.pull d.top _ _ files s.levels = _
  rw [LevelStream.pull, if_pos h]

theorem act_closed (files : Files) (a : Action) (h : s.levels.phase ≠ .streaming) :
    (∀ p ∈ (s.act files a).1.toList, p = .ended) ∧
      (s.act files a).2.levels.phase ≠ .streaming := by
  obtain ⟨-, hp, hs⟩ | ⟨-, hp, hs⟩ | ⟨-, hp, hs⟩ := act_cases files s a
  · rw [hp, hs]
    exact ⟨List.forall_mem_nil _, h⟩
  · rw [hp, hs, pull_of_closed h]
    exact ⟨fun p hm => List.mem_singleton.mp hm, h⟩
  · rw [hp, hs]
    exact ⟨List.forall_mem_nil _, Phase.noConfusion⟩

theorem closed_of_failed {p : Pulled} (hm : p ∈ (s.act files a).1.toList)
    (hf : p.isFailed = true) : (s.act files a).2.levels.phase ≠ .streaming := by
  apply not_streaming
  intro hr
  have hnot := ((isReadable_act files s a).mp hr).2.2 p hm
  rw [hf] at hnot
  cases hnot

theorem closed_of_ended (h : (s.act files a).1 = some .ended) :
    (s.act files a).2.levels.phase ≠ .streaming := by
  obtain ⟨-, hp, -⟩ | ⟨-, hp, hs⟩ | ⟨-, hp, -⟩ := act_cases files s a
  · cases hp.symm.trans h
  · have hmoves := (pull_moves files s.levels).2
    rw [← Option.some.inj (h.symm.trans hp)] at hmoves
    rw [hs]
    obtain ⟨-, hfinished, -⟩ | ⟨hclosed, hsame⟩ := hmoves
    · rw [hfinished]
      exact Phase.noConfusion
    · rwa [hsame]
  · cases hp.symm.trans h

theorem isReadable_of_ended (hr : s.isReadable = true) (h : (s.act files a).1 = some .ended) :
    (s.act files a).2.isReadable = true := by
  refine (isReadable_act files s a).mpr ⟨hr, ?_, ?_⟩
  · rintro rfl
    cases h
  · rw [h]
    exact fun p hm => List.mem_singleton.mp hm ▸ rfl

/-- No more than the length is given, and a stream that can be read on owes the
rest. -/
structure Balanced (s : DiskStream d) : Prop where
  given_le : s.levels.given ≤ s.length
  owes : s.isReadable = true →
    s.levels.Owes (ChainStream.Owes d.ancestors) (s.length - s.levels.given)

theorem length_eq_of_bounds (h : t.levels.plan.bounds = s.levels.plan.bounds) :
    t.length = s.length := by
  simp only [Plan.bounds, Prod.mk.injEq] at h
  rw [length, length, stop, stop, h.2.1, h.2.2]

theorem start_eq_of_bounds (h : t.levels.plan.bounds = s.levels.plan.bounds) :
    t.levels.plan.start = s.levels.plan.start := by
  simp only [Plan.bounds, Prod.mk.injEq] at h
  exact h.2.1

namespace Balanced

theorem pays (hb : s.Balanced) (hr : s.isReadable = true) (files : Files) :
    Source.Pays (LevelStream.Owes (ChainStream.Owes d.ancestors)) (s.length - s.levels.given)
      ((source d).pull files s.levels).2 ((source d).pull files s.levels).1 :=
  (ChainStream.accounts_view d.levels).1 files s.levels _ (hb.owes hr)

theorem given_of_ended (hb : s.Balanced) (hr : s.isReadable = true)
    (h : (s.act files a).1 = some .ended) : s.levels.given = s.length := by
  have hpays := hb.pays hr files
  obtain ⟨-, hp, -⟩ | ⟨-, hp, -⟩ | ⟨-, hp, -⟩ := act_cases files s a
  · cases hp.symm.trans h
  · rw [Option.some.inj (hp.symm.trans h)] at hpays
    exact Nat.le_antisymm hb.given_le (Nat.sub_eq_zero_iff_le.mp hpays.1)
  · cases hp.symm.trans h

theorem sizes_act_le (hb : s.Balanced) (files : Files) (a : Action) :
    Pulled.sizes (s.act files a).1.toList ≤ s.length - s.levels.given := by
  by_cases hr : s.isReadable = true
  · obtain ⟨-, hp, -⟩ | ⟨-, hp, -⟩ | ⟨-, hp, -⟩ := act_cases files s a
    · rw [hp]
      exact Nat.zero_le _
    · rw [hp]
      exact (hb.pays hr files).size_le
    · rw [hp]
      exact Nat.zero_le _
  · rw [Pulled.sizes_of_ended (act_closed files a (not_streaming hr)).1]
    exact Nat.zero_le _

theorem owes_act (hb : s.Balanced) (hr : (s.act files a).2.isReadable = true) :
    (s.act files a).2.levels.Owes (ChainStream.Owes d.ancestors)
      (s.length - (s.levels.given + Pulled.sizes (s.act files a).1.toList)) := by
  obtain ⟨hs, ha, hfail⟩ := (isReadable_act files s a).mp hr
  obtain ⟨-, hp, hl⟩ | ⟨-, hp, hl⟩ | ⟨hd, -, -⟩ := act_cases files s a
  · rw [hp, hl]
    exact hb.owes hs
  · have hpays := hb.pays hs files
    rw [hp] at hfail ⊢
    rw [hl]
    cases hpull : ((source d).pull files s.levels).1 with
    | chunk bytes =>
      rw [hpull] at hpays
      obtain ⟨left, hleft, hsum⟩ := hpays
      have hrest : s.length - (s.levels.given + bytes.size) = left := by omega
      exact hrest ▸ hleft
    | failed e =>
      rw [hpull] at hfail
      cases hfail _ (List.mem_singleton.mpr rfl)
    | ended =>
      rw [hpull] at hpays
      have hrest : s.length - (s.levels.given + 0) = 0 := hpays.1
      exact hrest ▸ hpays.2
  · exact absurd hd ha

protected theorem act (hb : s.Balanced) (files : Files) (a : Action) :
    (s.act files a).2.Balanced := by
  have hlength := length_eq_of_bounds (bounds_act files s a)
  have hgiven := given_act files s a
  constructor
  · have hle := hb.given_le
    have hpart := hb.sizes_act_le files a
    omega
  · intro hr
    rw [hlength, hgiven]
    exact hb.owes_act hr

theorem after (hb : s.Balanced) (steps : List (Files × Action)) :
    (s.after steps).Balanced := by
  induction steps generalizing s with
  | nil => exact hb
  | cons step more ih => exact ih (hb.act step.1 step.2)

end Balanced

section run

variable (s : DiskStream d) (steps : List (Files × Action))

theorem bounds_after : (s.after steps).levels.plan.bounds = s.levels.plan.bounds := by
  induction steps generalizing s with
  | nil => rfl
  | cons step more ih => exact (ih _).trans (bounds_act step.1 s step.2)

theorem given_after :
    (s.after steps).levels.given = s.levels.given + Pulled.sizes (s.log steps) := by
  induction steps generalizing s with
  | nil => rfl
  | cons step more ih =>
    rw [after, ih, given_act, log, Pulled.sizes_append, Nat.add_assoc]

theorem size_of_mem_log {bytes : ByteArray} (h : .chunk bytes ∈ s.log steps) : bytes.size ≠ 0 := by
  induction steps generalizing s with
  | nil => cases h
  | cons step more ih => exact (List.mem_append.mp h).elim size_of_mem_act (ih _)

theorem isReadable_after : (s.after steps).isReadable = true ↔ s.isReadable = true ∧
    (∀ step ∈ steps, step.2 ≠ .destroy) ∧ ∀ p ∈ s.log steps, p.isFailed = false := by
  induction steps generalizing s with
  | nil => exact ⟨fun h => ⟨h, List.forall_mem_nil _, List.forall_mem_nil _⟩, And.left⟩
  | cons step more ih =>
    rw [after, ih, isReadable_act, log, List.forall_mem_cons, List.forall_mem_append]
    constructor
    · rintro ⟨⟨hs, hstep, hpull⟩, hmore, hlog⟩
      exact ⟨hs, ⟨hstep, hmore⟩, hpull, hlog⟩
    · rintro ⟨hs, ⟨hstep, hmore⟩, hpull, hlog⟩
      exact ⟨⟨hs, hstep, hpull⟩, hmore, hlog⟩

variable {s} in
theorem after_closed (h : s.levels.phase ≠ .streaming) :
    (∀ p ∈ s.log steps, p = .ended) ∧ (s.after steps).levels.phase ≠ .streaming := by
  induction steps generalizing s with
  | nil => exact ⟨List.forall_mem_nil _, h⟩
  | cons step more ih =>
    obtain ⟨hended, hclosed⟩ := act_closed step.1 step.2 h
    exact ⟨List.forall_mem_append.mpr ⟨hended, (ih hclosed).1⟩, (ih hclosed).2⟩

theorem failures_log_le : (s.log steps).countP Pulled.isFailed ≤ 1 := by
  induction steps generalizing s with
  | nil => exact Nat.zero_le 1
  | cons step more ih =>
    rw [log, List.countP_append]
    by_cases hsome : ∃ p ∈ (s.act step.1 step.2).1.toList, p.isFailed = true
    · -- behind an error nothing but the end is pulled
      obtain ⟨p, hm, hf⟩ := hsome
      have hended := (after_closed more (closed_of_failed hm hf)).1
      have hrest : ((s.act step.1 step.2).2.log more).countP Pulled.isFailed = 0 := by
        rw [List.eq_replicate_of_mem hended, List.countP_replicate]
        rfl
      rw [hrest]
      exact Nat.le_trans List.countP_le_length Option.length_toList_le
    · rw [List.countP_eq_zero.mpr fun p hm hf => hsome ⟨p, hm, hf⟩, Nat.zero_add]
      exact ih _

end run

/-- Behind the end a stream can be read until it is destroyed. -/
theorem isReadable_after_ended (hr : s.isReadable = true) (h : (s.act files a).1 = some .ended)
    {more : List (Files × Action)} (hm : ∀ step ∈ more, step.2 ≠ .destroy) :
    ((s.act files a).2.after more).isReadable = true := by
  have hended := (after_closed more (closed_of_ended h)).1
  exact (isReadable_after _ more).mpr ⟨isReadable_of_ended hr h, hm, fun p hp => hended p hp ▸ rfl⟩

/-- A stream that failed or was destroyed gives nothing more and stays as it is. -/
theorem silent_of_not_readable (h : s.isReadable = false) (more : List (Files × Action)) :
    (∀ p ∈ s.log more, p = .ended) ∧ (s.after more).position = s.position ∧
      (s.after more).isReadable = false := by
  have hnot := Bool.eq_false_iff.mp h
  have hended := (after_closed more (not_streaming hnot)).1
  refine ⟨hended, ?_, ?_⟩
  · rw [position, position, given_after, Pulled.sizes_of_ended hended,
      start_eq_of_bounds (s.bounds_after more), Nat.add_zero]
  · exact Bool.eq_false_iff.mpr fun hr => hnot ((isReadable_after s more).mp hr).1

/-- The account of a stream of a range that starts at `start`, after the given
actions. -/
structure Accounted (s : DiskStream d) (start : Nat) (steps : List (Files × Action)) : Prop where
  position_eq : (s.after steps).position = start + Pulled.sizes (s.log steps)
  length_eq : (s.after steps).length = s.length
  position_le : (s.after steps).position ≤ start + s.length
  size_ne_zero : ∀ bytes, .chunk bytes ∈ s.log steps → bytes.size ≠ 0
  failures_le : (s.log steps).countP Pulled.isFailed ≤ 1
  isReadable_iff : (s.after steps).isReadable = true ↔
    (∀ step ∈ steps, step.2 ≠ .destroy) ∧ ∀ p ∈ s.log steps, p.isFailed = false
  /-- If the end comes, everything is given, and the stream stays readable until it
  is destroyed. -/
  complete : (s.after steps).isReadable = true → ∀ files a,
    ((s.after steps).act files a).1 = some .ended →
      ((s.after steps).act files a).2.position = start + s.length ∧
      ∀ more, (∀ step ∈ more, step.2 ≠ .destroy) →
        (((s.after steps).act files a).2.after more).isReadable = true
  /-- A stream that failed or was destroyed gives nothing more. -/
  silent : (s.after steps).isReadable = false → ∀ more,
    (∀ p ∈ (s.after steps).log more, p = .ended) ∧
      ((s.after steps).after more).position = (s.after steps).position ∧
      ((s.after steps).after more).isReadable = false

theorem balanced_of_stream (hs : d.stream request = .ok s) : s.Balanced := by
  have hlength := length_eq hs
  obtain ⟨-, rfl⟩ := stream_eq_ok_iff.mp hs
  constructor
  · exact Nat.zero_le _
  · intro _
    rw [hlength]
    exact LevelStream.owes_ofRange (Nat.le_trans (stop_le request d.flattenedLength)
      (Nat.le_max_left _ request.start))

theorem position_of_stream (hs : d.stream request = .ok s) :
    s.levels.plan.start = request.start ∧ s.levels.given = 0 ∧ s.isReadable = true := by
  obtain ⟨-, rfl⟩ := stream_eq_ok_iff.mp hs
  exact ⟨rfl, rfl, rfl⟩

/-- A stream gives all bytes of its range or pulls an error, whatever the files turn
into while it is used. -/
theorem stays_accounted (hs : d.stream request = .ok s) (steps : List (Files × Action)) :
    s.Accounted request.start steps := by
  obtain ⟨hstart, hnone, hreadable⟩ := position_of_stream hs
  have hbounds := s.bounds_after steps
  have hlength := length_eq_of_bounds hbounds
  have hbalanced := (balanced_of_stream hs).after steps
  have hplace : (s.after steps).levels.plan.start = request.start :=
    (start_eq_of_bounds hbounds).trans hstart
  have hgiven : (s.after steps).levels.given = Pulled.sizes (s.log steps) := by
    rw [given_after, hnone, Nat.zero_add]
  constructor
  case position_eq => rw [position, hplace, hgiven]
  case length_eq => exact hlength
  case position_le =>
    rw [position, hplace]
    exact Nat.add_le_add_left (hlength ▸ hbalanced.given_le) _
  case size_ne_zero => exact fun bytes => size_of_mem_log s steps
  case failures_le => exact failures_log_le s steps
  case isReadable_iff => rw [isReadable_after, and_iff_right hreadable]
  case complete =>
    intro hr files a hended
    refine ⟨?_, fun more => isReadable_after_ended hr hended⟩
    rw [position, start_eq_of_bounds (bounds_act files _ a), hplace, given_act,
      hbalanced.given_of_ended hr hended, hlength, hended]
    rfl
  case silent => exact silent_of_not_readable

theorem stays_accounted_mixedPair :
    ∃ s : DiskStream ((mixedPair 1024 (by decide)).disk unchecked),
      s.Accounted 0 [((mixedPair 1024 (by decide)).files, .read 100), (FileTree.empty.host, .next),
        ((mixedPair 1024 (by decide)).files, .destroy)] := by
  obtain ⟨s, hs⟩ := stream_whole ((mixedPair 1024 (by decide)).disk unchecked)
  exact ⟨s, stays_accounted hs _⟩

end DiskStream

end VirtualDisk
