import VirtualDisk.Proofs.Chunking
import VirtualDisk.Proofs.Ledger

namespace VirtualDisk

def MergeSide.hear {σ : Type} (side : MergeSide σ) : Pulled × σ → MergeSide σ
  | (.chunk bytes, s) => side.receive bytes s
  | (.failed _, s) => { side with source := s }
  | (.ended, s) => { side with source := s, ended := true }

namespace SectorMerge

variable {ε β ω : Type}

inductive Event where
  | gave (count : Nat)
  | closed
  | heardBase (answer : Pulled)
  | heardOwn (answer : Pulled)

structure History where
  drained : Nat
  base : List Pulled
  own : List Pulled

def History.add (hist : History) : Event → History
  | .gave count => { hist with drained := hist.drained + count }
  | .closed => hist
  | .heardBase answer => { hist with base := hist.base ++ [answer] }
  | .heardOwn answer => { hist with own := hist.own ++ [answer] }

/-- Whether a merge has to ask one of its sides. -/
structure Asks (m : SectorMerge β ω) : Prop where
  unfinished : m.finished = false
  not_ready : ¬0 < m.ready
  not_ended : ¬(m.base.ended = true ∧ m.own.ended = true)

/-- One round of the loop. The sides are any functions that bring answers. -/
inductive Step (base : ε → β → Pulled × β) (own : ε → ω → Pulled × ω) (env : ε)
    (m : SectorMerge β ω) : Event → SectorMerge β ω → Prop
  | give : m.finished = false → 0 < m.ready → Step base own env m (.gave m.ready) (m.drain m.ready)
  | close : m.finished = false → ¬0 < m.ready → m.base.ended = true ∧ m.own.ended = true →
      Step base own env m .closed { m with finished := true }
  | askBase : m.Asks → m.wantsBase = true →
      Step base own env m (.heardBase (base env m.base.source).1)
        { m with
          base := m.base.hear (base env m.base.source)
          finished := (base env m.base.source).1.isFailed }
  | askOwn : m.Asks → ¬m.wantsBase = true →
      Step base own env m (.heardOwn (own env m.own.source).1)
        { m with
          own := m.own.hear (own env m.own.source)
          finished := (own env m.own.source).1.isFailed }

/-- What steps make of a merge. The files may be different in each of them. -/
inductive Runs (base : ε → β → Pulled × β) (own : ε → ω → Pulled × ω)
    (start : SectorMerge β ω) : History → SectorMerge β ω → Prop
  | start : Runs base own start ⟨0, [], []⟩ start
  | step {hist : History} {m m' : SectorMerge β ω} {env : ε} {event : Event} :
      Runs base own start hist m → Step base own env m event m' →
      Runs base own start (hist.add event) m'

end SectorMerge

/-- What holds of a side, given the bytes that are drained of it and its answers. -/
structure MergeSide.Keeps {σ : Type} (side : MergeSide σ) (finished : Bool) (drained : Nat)
    (answers : List Pulled) : Prop where
  received_eq : side.received = drained + side.pending.size
  received_sizes : side.received = Pulled.sizes answers
  ended_iff : side.ended = true ↔ .ended ∈ answers
  faultless : finished = false → ∀ e, .failed e ∉ answers

namespace MergeSide

variable {σ : Type} {side : MergeSide σ} {finished : Bool} {drained : Nat} {answers : List Pulled}

theorem keeps_ofSource (source : σ) : (MergeSide.ofSource source).Keeps false 0 [] where
  received_eq := rfl
  received_sizes := rfl
  ended_iff := by simp [ofSource]
  faultless := fun _ _ => List.not_mem_nil

theorem Keeps.drain (h : side.Keeps finished drained answers) {count : Nat}
    (hcount : count ≤ side.pending.size) :
    (side.drain count).Keeps finished (drained + count) answers := by
  have hsize := size_slice side.pending count side.pending.size
  have hreceived := h.received_eq
  refine ⟨?_, h.received_sizes, h.ended_iff, h.faultless⟩
  change side.received = drained + count + (slice side.pending count side.pending.size).size
  omega

theorem Keeps.finish (h : side.Keeps false drained answers) (finished : Bool) :
    side.Keeps finished drained answers :=
  ⟨h.received_eq, h.received_sizes, h.ended_iff, fun _ => h.faultless rfl⟩

theorem Keeps.chunks_only (h : side.Keeps false drained answers) (hlive : side.ended = false) :
    ∀ p ∈ answers, ∃ bytes, p = .chunk bytes := by
  intro p hp
  cases p with
  | chunk bytes => exact ⟨bytes, rfl⟩
  | failed e => exact absurd hp (h.faultless rfl e)
  | ended =>
    rw [h.ended_iff.mpr hp] at hlive
    cases hlive

theorem Keeps.hear (h : side.Keeps false drained answers) (answer : Pulled × σ) :
    (side.hear answer).Keeps answer.1.isFailed drained (answers ++ [answer.1]) := by
  obtain ⟨p, s⟩ := answer
  have hreceived := h.received_eq
  have hsizes := h.received_sizes
  have hfaults := h.faultless rfl
  cases p with
  | chunk bytes =>
    constructor
    case received_eq =>
      change side.received + bytes.size = drained + (side.pending ++ bytes).size
      rw [ByteArray.size_append]
      omega
    case received_sizes =>
      rw [Pulled.sizes_append, ← hsizes]
      rfl
    case ended_iff =>
      rw [List.mem_append, ← h.ended_iff]
      simp [MergeSide.hear, receive]
    case faultless =>
      intro _ e he
      simp [hfaults e] at he
  | failed e =>
    refine ⟨hreceived, ?_, ?_, fun hf => nomatch hf⟩
    · rw [Pulled.sizes_append, ← hsizes]
      rfl
    · rw [List.mem_append, ← h.ended_iff]
      simp [MergeSide.hear]
  | ended =>
    refine ⟨hreceived, ?_, ?_, ?_⟩
    · rw [Pulled.sizes_append, ← hsizes]
      rfl
    · simp [MergeSide.hear]
    · intro _ e he
      simp [hfaults e] at he

theorem size_pending_hear (side : MergeSide σ) (answer : Pulled × σ) :
    (side.hear answer).pending.size = side.pending.size + answer.1.size := by
  obtain ⟨p, s⟩ := answer
  cases p with
  | chunk bytes => exact ByteArray.size_append
  | failed e => rfl
  | ended => rfl

theorem work_hear {ε : Type} (source : Source ε σ) (env : ε) (hlive : side.ended = false)
    (hf : (source.pull env side.source).1.isFailed = false) :
    source.budget (side.hear (source.pull env side.source)).source
        + (!(side.hear (source.pull env side.source)).ended).toNat
      < source.budget side.source + (!side.ended).toNat := by
  have hcost := source.budget_pull env side.source
  generalize source.pull env side.source = answer at hf hcost ⊢
  obtain ⟨p, s⟩ := answer
  cases p with
  | chunk bytes =>
    have hpos := Pulled.cost_pos bytes
    simp only [MergeSide.hear, receive] at *
    omega
  | failed e => cases hf
  | ended =>
    simp only [MergeSide.hear, hlive, Pulled.cost, Bool.not_true, Bool.not_false, Bool.toNat_true,
      Bool.toNat_false] at *
    omega

end MergeSide

namespace SectorMerge

/-- Whatever bounds the chunks that have come, less than a sector and one of them is pending. -/
def Bounded (size pending : Nat) (answers : List Pulled) : Prop :=
  ∀ most, (∀ p ∈ answers, p.size ≤ most) → pending < size + most

/-- The books of a merge whose first sectors belonged to `bit`. -/
structure Books {β ω : Type} (bit : UInt64) (size : Nat) (hist : History) (m : SectorMerge β ω) :
    Prop where
  sectorSize_eq : m.sectorSize = size
  bit_eq : m.bit = bitAfter bit hist.drained
  base : m.base.Keeps m.finished (hist.drained * size) hist.base
  own : m.own.Keeps m.finished (hist.drained * size) hist.own
  bounded : m.base.ended = false → m.own.ended = false →
    Bounded size m.base.pending.size hist.base ∧ Bounded size m.own.pending.size hist.own

/-- A side is asked if it has brought nothing but chunks, and while neither side has ended
only if less than a sector is pending on it. -/
def Disciplined {β ω : Type} (size : Nat) (hist : History) (m : SectorMerge β ω) : Event → Prop
  | .heardBase _ => (∀ p ∈ hist.base, ∃ bytes, p = .chunk bytes) ∧
      (m.base.ended = false → m.own.ended = false → m.base.pending.size < size)
  | .heardOwn _ => (∀ p ∈ hist.own, ∃ bytes, p = .chunk bytes) ∧
      (m.base.ended = false → m.own.ended = false → m.own.pending.size < size)
  | .gave _ | .closed => True

section step

variable {ε β ω : Type} {base : ε → β → Pulled × β} {own : ε → ω → Pulled × ω} {env : ε}
  {m m' : SectorMerge β ω} {hist : History} {event : Event} {bit : UInt64} {size : Nat}

theorem Bounded.mono {pending less : Nat} {answers : List Pulled}
    (h : Bounded size pending answers) (hle : less ≤ pending) : Bounded size less answers :=
  fun most hmost => Nat.lt_of_le_of_lt hle (h most hmost)

theorem bounded_append {pending : Nat} (h : pending < size) (answers : List Pulled) (p : Pulled) :
    Bounded size (pending + p.size) (answers ++ [p]) := by
  intro most hmost
  have hp := hmost p (List.mem_append_right _ List.mem_cons_self)
  omega

theorem short_of_wantsBase (hs : 0 < m.sectorSize) (hr : ¬0 < m.ready) (hw : m.wantsBase = true)
    (ho : m.own.ended = false) : m.base.pending.size < m.sectorSize := by
  by_cases hshort : m.isShort m.base = true
  · simp only [isShort, Bool.and_eq_true, decide_eq_true_eq] at hshort
    exact hshort.2
  · -- The own side has a whole sector then, and no sector is ready.
    have hnot : m.isShort m.own = false := by
      simpa [wantsBase, hshort, ended_of_wantsBase hw] using hw
    have hown : m.sectorSize ≤ m.own.pending.size := by simpa [isShort, ho] using hnot
    have hsome : m.own.pending.size / m.sectorSize ≠ 0 := Nat.ne_of_gt (Nat.div_pos hown hs)
    have hnone := (short_of_not_ready hr).resolve_right hsome
    exact (Nat.div_eq_zero_iff_lt hs).mp hnone

theorem short_of_not_wantsBase (hw : ¬m.wantsBase = true) (hb : m.base.ended = false) :
    m.own.pending.size < m.sectorSize := by
  have hboth : ¬m.isShort m.base = true ∧ m.isShort m.own = true := by
    simpa [wantsBase, hb] using hw
  have hown := hboth.2
  simp only [isShort, Bool.and_eq_true, decide_eq_true_eq] at hown
  exact hown.2

theorem Books.disciplined (h : Books bit size hist m) (hs : 0 < size)
    (hstep : Step base own env m event m') : Disciplined size hist m event := by
  have hsize := h.sectorSize_eq
  cases hstep with
  | give => trivial
  | close => trivial
  | askBase ha hw =>
    have hkeeps := h.base
    rw [ha.unfinished] at hkeeps
    refine ⟨hkeeps.chunks_only (ended_of_wantsBase hw), fun _ ho => ?_⟩
    rw [← hsize]
    exact short_of_wantsBase (hsize ▸ hs) ha.not_ready hw ho
  | askOwn ha hw =>
    have hkeeps := h.own
    rw [ha.unfinished] at hkeeps
    refine ⟨hkeeps.chunks_only (ended_of_not_wantsBase hw ha.not_ended), fun hb _ => ?_⟩
    rw [← hsize]
    exact short_of_not_wantsBase hw hb

theorem books_ofSources (hs : 0 < size) (b : β) (o : ω) (bitmap : ByteArray) :
    Books bit size ⟨0, [], []⟩ (ofSources b o bitmap bit.toNat size) where
  sectorSize_eq := rfl
  bit_eq := UInt64.ofNat_toNat.trans (bitAfter_zero bit).symm
  base := (Nat.zero_mul size).symm ▸ MergeSide.keeps_ofSource b
  own := (Nat.zero_mul size).symm ▸ MergeSide.keeps_ofSource o
  bounded := fun _ _ => ⟨fun _ _ => Nat.lt_add_right _ hs, fun _ _ => Nat.lt_add_right _ hs⟩

theorem Books.step (h : Books bit size hist m) (hs : 0 < size)
    (hstep : Step base own env m event m') : Books bit size (hist.add event) m' := by
  have hdisciplined := h.disciplined hs hstep
  obtain ⟨hsize, hbit, hbase, hown, hbounded⟩ := h
  cases hstep with
  | give hf hr =>
    have hb := m.ready_mul_le
    have ho := m.ready_mul_le_own
    have hdrained :
        (hist.drained + m.ready) * size = hist.drained * size + m.ready * m.sectorSize := by
      rw [Nat.add_mul, hsize]
    constructor
    case sectorSize_eq => exact hsize
    case bit_eq =>
      change bitAfter m.bit m.ready = bitAfter bit (hist.drained + m.ready)
      rw [hbit, bitAfter_add]
    case base => exact hdrained ▸ hbase.drain hb
    case own => exact hdrained ▸ hown.drain ho
    case bounded =>
      intro he he'
      obtain ⟨hbase, hown⟩ := hbounded he he'
      refine ⟨hbase.mono ?_, hown.mono ?_⟩
      · simp only [drain, MergeSide.drain, size_slice]
        omega
      · simp only [drain, MergeSide.drain, size_slice]
        omega
  | close hf =>
    rw [hf] at hbase hown
    exact ⟨hsize, hbit, hbase.finish true, hown.finish true, hbounded⟩
  | askBase ha hw =>
    rw [ha.unfinished] at hbase hown
    refine ⟨hsize, hbit, hbase.hear _, hown.finish _, fun _ he => ?_⟩
    have hlive := ended_of_wantsBase hw
    refine ⟨?_, (hbounded hlive he).2⟩
    rw [MergeSide.size_pending_hear]
    exact bounded_append (hdisciplined.2 hlive he) _ _
  | askOwn ha hw =>
    rw [ha.unfinished] at hbase hown
    refine ⟨hsize, hbit, hbase.finish _, hown.hear _, fun he _ => ?_⟩
    have hlive := ended_of_not_wantsBase hw ha.not_ended
    refine ⟨(hbounded he hlive).1, ?_⟩
    rw [MergeSide.size_pending_hear]
    exact bounded_append (hdisciplined.2 he hlive) _ _

theorem Runs.books {start : SectorMerge β ω} (h : Runs base own start hist m) (hs : 0 < size)
    (hstart : Books bit size ⟨0, [], []⟩ start) : Books bit size hist m := by
  induction h with
  | start => exact hstart
  | step _ hstep ih => exact ih.step hs hstep

end step

section call

variable {ε β ω : Type}

def Event.result (m : SectorMerge β ω) : Event → Option Pulled
  | .gave count => some (.chunk (m.sectors count))
  | .closed => some (if m.base.pending.isEmpty ∧ m.own.pending.isEmpty then .ended
      else .failed (.sizeMismatch (m.base.pending.size, m.own.pending.size) m.received))
  | .heardBase (.failed e) | .heardOwn (.failed e) => some (.failed e)
  | .heardBase _ | .heardOwn _ => none

/-- A call makes steps up to the first with a result. On a finished merge it makes none. -/
inductive Call (base : ε → β → Pulled × β) (own : ε → ω → Pulled × ω) (env : ε) :
    SectorMerge β ω → List Event → Pulled → SectorMerge β ω → Prop
  | finished {m : SectorMerge β ω} : m.finished = true → Call base own env m [] .ended m
  | returns {m m' : SectorMerge β ω} {event : Event} {p : Pulled} :
      Step base own env m event m' → event.result m = some p → Call base own env m [event] p m'
  | goesOn {m m' last : SectorMerge β ω} {event : Event} {events : List Event} {p : Pulled} :
      Step base own env m event m' → event.result m = none → Call base own env m' events p last →
      Call base own env m (event :: events) p last

variable {base : Source ε β} {own : Source ε ω} {env : ε} {m m' : SectorMerge β ω} {event : Event}

theorem finished_or_step (base : ε → β → Pulled × β) (own : ε → ω → Pulled × ω) (env : ε)
    (m : SectorMerge β ω) : m.finished = true ∨ ∃ event m', Step base own env m event m' := by
  cases hf : m.finished with
  | true => exact .inl rfl
  | false =>
    right
    by_cases hr : 0 < m.ready
    · exact ⟨_, _, .give hf hr⟩
    by_cases he : m.base.ended = true ∧ m.own.ended = true
    · exact ⟨_, _, .close hf hr he⟩
    by_cases hw : m.wantsBase = true
    · exact ⟨_, _, .askBase ⟨hf, hr, he⟩ hw⟩
    · exact ⟨_, _, .askOwn ⟨hf, hr, he⟩ hw⟩

/-- A pull makes a step and then comes back with its result, or goes on. -/
theorem pull_of_step (h : Step base.pull own.pull env m event m') :
    pull base own env m = match event.result m with
      | some p => (p, m')
      | none => pull base own env m' := by
  cases h with
  | give hf hr => rw [pull, if_neg (by rw [hf]; exact Bool.false_ne_true), if_pos hr]; rfl
  | close hf hr he =>
    rw [pull, if_neg (by rw [hf]; exact Bool.false_ne_true), if_neg hr, if_pos he]
    simp only [Event.result]
    split <;> rfl
  | askBase ha hw =>
    have hopen := ha.unfinished
    rw [pull_base hopen ha.not_ready ha.not_ended hw]
    rcases base.pull env m.base.source with ⟨p, s⟩
    cases p with
    | chunk bytes => simp only [Event.result, MergeSide.hear, Pulled.isFailed, ← hopen]
    | failed e => rfl
    | ended => simp only [Event.result, MergeSide.hear, Pulled.isFailed, ← hopen]
  | askOwn ha hw =>
    have hopen := ha.unfinished
    rw [pull_own hopen ha.not_ready ha.not_ended hw]
    rcases own.pull env m.own.source with ⟨p, s⟩
    cases p with
    | chunk bytes => simp only [Event.result, MergeSide.hear, Pulled.isFailed, ← hopen]
    | failed e => rfl
    | ended => simp only [Event.result, MergeSide.hear, Pulled.isFailed, ← hopen]

theorem not_failed_of_result {p : Pulled}
    (h : Event.result m (.heardBase p) = none ∨ Event.result m (.heardOwn p) = none) :
    p.isFailed = false := by
  cases p with
  | chunk bytes => rfl
  | failed e => exact h.elim (fun h => nomatch h) (fun h => nomatch h)
  | ended => rfl

theorem work_of_step (h : Step base.pull own.pull env m event m') (hnone : event.result m = none) :
    m'.work base own < m.work base own := by
  cases h with
  | give => cases hnone
  | close => cases hnone
  | askBase ha hw =>
    have hless := MergeSide.work_hear base env (ended_of_wantsBase hw)
      (not_failed_of_result (.inl hnone))
    simp only [work]
    omega
  | askOwn ha hw =>
    have hless := MergeSide.work_hear own env (ended_of_not_wantsBase hw ha.not_ended)
      (not_failed_of_result (.inr hnone))
    simp only [work]
    omega

theorem call_pull (base : Source ε β) (own : Source ε ω) (env : ε) (m : SectorMerge β ω) :
    ∃ events, Call base.pull own.pull env m events (pull base own env m).1
      (pull base own env m).2 := by
  induction hn : m.work base own using Nat.strongRecOn generalizing m with
  | ind n ih =>
    obtain hf | ⟨event, m', hstep⟩ := finished_or_step base.pull own.pull env m
    · rw [pull_of_finished hf]
      exact ⟨[], .finished hf⟩
    · have hpull := pull_of_step hstep
      cases hresult : event.result m with
      | some p =>
        rw [hpull, hresult]
        exact ⟨[event], .returns hstep hresult⟩
      | none =>
        obtain ⟨events, hcall⟩ := ih _ (hn ▸ work_of_step hstep hresult) m' rfl
        rw [hpull, hresult]
        exact ⟨event :: events, .goesOn hstep hresult hcall⟩

theorem call_iff {p : Pulled} {last : SectorMerge β ω} :
    (∃ events, Call base.pull own.pull env m events p last)
      ↔ pull base own env m = (p, last) := by
  constructor
  case mp =>
    rintro ⟨events, h⟩
    induction h with
    | finished hf => exact pull_of_finished hf
    | returns hstep hresult => rw [pull_of_step hstep, hresult]
    | goesOn hstep hresult _ ih => rw [pull_of_step hstep, hresult]; exact ih
  case mpr =>
    intro h
    have hcall := call_pull base own env m
    rwa [h] at hcall

/-- At every point of every run of a merge its books are right, and whenever it asks a side,
the side has not ended and has not failed. Each call is made of such steps. The bit is a machine
word, and the number that it stands for is right while it fits one. -/
theorem keeps_books {size : Nat} (hs : 0 < size) (b : β) (o : ω) (bitmap : ByteArray)
    (start : UInt64) :
    (∀ (base : ε → β → Pulled × β) (own : ε → ω → Pulled × ω) hist m,
      Runs base own (ofSources b o bitmap start.toNat size) hist m → Books start size hist m ∧
        (start.toNat + hist.drained < UInt64.size →
          m.bit.toNat = start.toNat + hist.drained) ∧
        ∀ env event m', Step base own env m event m' → Disciplined size hist m event) ∧
    ∀ (base : Source ε β) (own : Source ε ω) env (m : SectorMerge β ω) p last,
      (∃ events, Call base.pull own.pull env m events p last) ↔
        pull base own env m = (p, last) := by
  constructor
  · intro base own hist m hrun
    have hbooks := hrun.books hs (books_ofSources hs b o bitmap)
    refine ⟨hbooks, fun hfits => ?_, fun env event m' hstep => hbooks.disciplined hs hstep⟩
    rw [hbooks.bit_eq, toNat_bitAfter hfits]
  · exact fun base own env m p last => call_iff

/-- Two endless sources, one of which brings three bytes each time and the other two. One sector
of two bytes is given, and the base has a byte left. -/
theorem keeps_books_endless : ∃ m : SectorMerge Unit Unit,
    Books 2 2 ⟨1, [.chunk ⟨#[1, 2, 3]⟩], [.chunk ⟨#[5, 6]⟩]⟩ m ∧
      m.received = (3, 2) ∧ m.bit = 3 := by
  have hrun : Runs (fun _ : Unit => Prod.mk (.chunk ⟨#[1, 2, 3]⟩))
      (fun _ : Unit => Prod.mk (.chunk ⟨#[5, 6]⟩)) (ofSources () () ⟨#[0x20]⟩ 2 2) _ _ :=
    ((Runs.start.step (@Step.askBase _ _ _ _ _ () _ ⟨rfl, by decide, by decide⟩ (by decide))).step
      (@Step.askOwn _ _ _ _ _ () _ ⟨rfl, by decide, by decide⟩ (by decide))).step
      (@Step.give _ _ _ _ _ () _ rfl (by decide))
  exact ⟨_, ((keeps_books (by decide) () () ⟨#[0x20]⟩ 2).1 _ _ _ _ hrun).1, rfl, rfl⟩

end call

end SectorMerge

end VirtualDisk
