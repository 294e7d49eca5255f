import VirtualDisk.Proofs.CheckedStream
import VirtualDisk.Proofs.Layout
import VirtualDisk.Proofs.RoundTrip

namespace VirtualDisk

section opened

variable {files : Files} {options : OpenOptions} {path : Path} {level : Level}
  {chain : List Level}

namespace Level

theorem fits_of_read (h : Level.read files options path = .ok level) : level.Fits := by
  constructor
  case size_le =>
    have hcurrent := (Footer.reads_of_ofSector (hasFooter_of_read h).ofSector_eq).current_eq
    exact StoredSize.le_of_required hcurrent
  case table =>
    intro layout hl
    exact (sparse_of_read h hl).2.1

theorem Fits.above (h : level.Fits) (attempts : List Attempt) (parent : Level) :
    (Level.above { level with attempts } parent).Fits := by
  refine ⟨h.size_le, ?_⟩
  intro layout hl
  obtain ⟨own, hown, rfl⟩ := Option.map_eq_some_iff.mp hl
  exact ⟨(h.table own hown).sectorSize_dvd, (h.table own hown).blockSize_le⟩

end Level

theorem Chained.fits (h : Chained files options chain) : ∀ level ∈ chain, level.Fits := by
  induction h with
  | base hr => exact List.forall_mem_singleton.mpr (Level.fits_of_read hr)
  | child hr _ _ _ ih => exact List.forall_mem_cons.mpr ⟨(Level.fits_of_read hr).above _ _, ih⟩

end opened

namespace ChainStream

def Sound : (chain : List Level) → ChainStream chain → Prop
  | [] => fun _ => True
  | _ :: ancestors => LevelStream.Sound (source ancestors)

def IsExact : (chain : List Level) → ChainStream chain → Prop
  | [] => fun _ => True
  | level :: ancestors => LevelStream.IsExact level (source ancestors) (view ancestors)

variable {top chain : List Level} {s : ChainStream top} {t : ChainStream chain}

theorem Sound.pull (h : Sound chain t) (hfits : ∀ level ∈ chain, level.Fits) (files : Files) :
    Sound chain ((source chain).pull files t).2 := by
  cases chain with
  | nil => trivial
  | cons level ancestors =>
    exact LevelStream.Sound.pull h (hfits level List.mem_cons_self)
      (boundedSource ancestors).2 files

theorem sound_of_opens {buffer : BufferSize} (hfits : ∀ level ∈ chain, level.Fits)
    (h : Plan.Opens (view chain) buffer t) : Sound chain t := by
  obtain ⟨v, lo, hi, hv, hdvd, hle, rfl⟩ := h
  cases chain with
  | nil => trivial
  | cons level ancestors =>
    cases hv
    refine LevelStream.sound_ofRange (hfits level List.mem_cons_self)
      (Nat.lt_of_le_of_lt hle (by decide)) hdvd ?_
    change max (min hi level.footer.currentSize) lo
      ≤ max (level.footer.currentSize + Footer.size) lo
    omega

theorem sound_of_arises (htop : ∀ level ∈ top, level.Fits) (hs : Sound top s)
    (h : Arises s chain t) : (∀ level ∈ chain, level.Fits) ∧ Sound chain t := by
  induction h with
  | first => exact ⟨htop, hs⟩
  | pulled files _ ih => exact ⟨ih.1, ih.2.pull ih.1 files⟩
  | @planned level ancestors t contents _ ih =>
    have hl := ih.1 level List.mem_cons_self
    exact ⟨ih.1, LevelStream.Sound.next ih.2 hl (boundedSource ancestors).2 contents⟩
  | @opened level ancestors t contents piece q _ hn hq ih =>
    have hbelow := (List.forall_mem_cons.mp ih.1).2
    have hl := ih.1 level List.mem_cons_self
    have hopens := Plan.opens_next (LevelStream.Sound.plan ih.2) hl hn hq
    exact ⟨hbelow, sound_of_opens hbelow hopens⟩
  | closed phase _ ih => exact ⟨ih.1, LevelStream.Sound.close ih.2 phase⟩

theorem isExact_of_arises (htop : ∀ level ∈ top, level.Fits) (hs : Sound top s)
    (h : Arises s chain t) : IsExact chain t := by
  obtain ⟨hfits, hsound⟩ := sound_of_arises htop hs h
  cases chain with
  | nil => trivial
  | cons level ancestors =>
    have hl := hfits level List.mem_cons_self
    exact LevelStream.Sound.isExact hsound hl (boundedSource ancestors).2

def Plans (s : ChainStream top) (level : Level) (ancestors : List Level) (p : Plan) : Prop :=
  ∃ r : LevelStream (ChainStream ancestors), Arises s (level :: ancestors) r ∧ r.plan = p

def Covers (s : ChainStream top) (chain : List Level) (t : ChainStream chain) : Prop :=
  ∀ below u, InUse chain t below u → Arises s below u

theorem covers_cons_iff {level : Level} {ancestors : List Level}
    {t : LevelStream (ChainStream ancestors)} : Covers s (level :: ancestors) t ↔
      Arises s (level :: ancestors) t ∧ ∀ piece q, t.active = some piece →
        piece.parent? = some q → Covers s ancestors q := by
  constructor
  · intro h
    exact ⟨h _ _ .self, fun piece q ha hq below u hu => h below u (.parent ha hq hu)⟩
  · rintro ⟨ht, hbelow⟩ below u hu
    cases hu with
    | self => exact ht
    | parent ha hq hu => exact hbelow _ _ ha hq _ _ hu

theorem covers_of_opens {buffer : BufferSize} (h : Plan.Opens (view chain) buffer t)
    (ht : Arises s chain t) : Covers s chain t := by
  obtain ⟨v, lo, hi, hv, -, -, rfl⟩ := h
  cases chain with
  | nil => cases hv
  | cons level ancestors =>
    cases hv
    refine covers_cons_iff.mpr ⟨ht, ?_⟩
    rintro _ _ ⟨⟩

theorem keeps_covers (htop : ∀ level ∈ top, level.Fits) (hs : Sound top s) (chain : List Level) :
    (source chain).Keeps (Covers s chain) := by
  induction chain with
  | nil =>
    intro files t
    exact nomatch t
  | cons level ancestors ih =>
    have hstreams : (LevelStream.source level (source ancestors) (view ancestors)
        (boundedSource ancestors).2).Keeps fun t => Plans s level ancestors t.plan ∧
          ∀ piece q, t.active = some piece → piece.parent? = some q → Covers s ancestors q := by
      apply ih.levelStream
      case hplan =>
        rintro contents _ ⟨r, hr, rfl⟩
        exact ⟨_, hr.planned contents, rfl⟩
      case hopen =>
        rintro contents _ piece q ⟨r, hr, rfl⟩ hn hq
        obtain ⟨hfits, hsound⟩ := sound_of_arises htop hs hr
        exact covers_of_opens (Plan.opens_next (LevelStream.Sound.plan hsound)
          (hfits level List.mem_cons_self) hn hq) (hr.opened hn hq)
    intro files t ht
    obtain ⟨harises, hbelow⟩ := covers_cons_iff.mp ht
    exact covers_cons_iff.mpr ⟨harises.pulled files,
      (hstreams files t ⟨⟨t, harises, rfl⟩, hbelow⟩).2⟩

end ChainStream

namespace Pulled

theorem length_le {items : List Pulled} (hne : ∀ p ∈ items, p ≠ .ended)
    (hsize : ∀ bytes, .chunk bytes ∈ items → bytes.size ≠ 0) :
    items.length ≤ sizes items + items.countP isFailed := by
  induction items with
  | nil => exact Nat.le_refl 0
  | cons p more ih =>
    have hmore := ih (fun q hq => hne q (List.mem_cons_of_mem _ hq))
      fun bytes hb => hsize bytes (List.mem_cons_of_mem _ hb)
    rw [List.length_cons, sizes, List.countP_cons]
    cases p with
    | chunk bytes =>
      have hpos := hsize bytes List.mem_cons_self
      simp only [size]
      omega
    | failed e =>
      simp only [isFailed, if_true]
      omega
    | ended => exact absurd rfl (hne _ List.mem_cons_self)

end Pulled

namespace DiskStream

variable {d : Disk} {s : DiskStream d} {request : RangeRequest}

/-- What is pulled are chunks and at most one error, and then the end again and again. -/
theorem log_eq_append (s : DiskStream d) (steps : List (Files × Action)) :
    ∃ items k, s.log steps = items ++ List.replicate k .ended ∧ ∀ p ∈ items, p ≠ .ended := by
  induction steps generalizing s with
  | nil => exact ⟨[], 0, rfl, List.forall_mem_nil _⟩
  | cons step more ih =>
    obtain ⟨items, k, hlog, hitems⟩ := ih (s.act step.1 step.2).2
    rw [log]
    cases hp : (s.act step.1 step.2).1 with
    | none => exact ⟨items, k, hlog, hitems⟩
    | some p =>
      by_cases hended : p = .ended
      · rw [hended] at hp ⊢
        have hall := (after_closed more (closed_of_ended hp)).1
        refine ⟨[], ((s.act step.1 step.2).2.log more).length + 1, ?_, List.forall_mem_nil _⟩
        exact congrArg (.ended :: ·) (List.eq_replicate_of_mem hall)
      · exact ⟨p :: items, k, congrArg (p :: ·) hlog, List.forall_mem_cons.mpr ⟨hended, hitems⟩⟩

theorem length_log_nexts (s : DiskStream d) (times : List Files) :
    (s.log (times.map (·, .next))).length = times.length := by
  induction times generalizing s with
  | nil => rfl
  | cons files more ih =>
    rw [List.map_cons, log, List.length_append, ih]
    exact Nat.add_comm 1 more.length

theorem items_le (hb : s.Balanced) (hg : s.levels.given = 0) {steps : List (Files × Action)}
    {items : List Pulled} {k : Nat} (hlog : s.log steps = items ++ List.replicate k .ended)
    (hne : ∀ p ∈ items, p ≠ .ended) : items.length ≤ s.length + 1 := by
  have hgiven := s.given_after steps
  have hle := (hb.after steps).given_le
  have hfailed := failures_log_le s steps
  have hlength := length_eq_of_bounds (s.bounds_after steps)
  rw [hlog, Pulled.sizes_append] at hgiven
  rw [hlog, List.countP_append] at hfailed
  have hitems := Pulled.length_le hne fun bytes hb =>
    size_of_mem_log s steps (hlog ▸ List.mem_append_left _ hb)
  omega

/-- The streams in use behind an action arise from those in use before it. -/
theorem covers_act (htop : ∀ level ∈ d.levels, level.Fits) {first : ChainStream d.levels}
    (hfirst : ChainStream.Sound d.levels first)
    (h : ChainStream.Covers first d.levels s.levels) (files : Files) (a : Action) :
    ChainStream.Covers first d.levels (s.act files a).2.levels := by
  obtain ⟨-, -, hs⟩ | ⟨-, -, hs⟩ | ⟨-, -, hs⟩ := act_cases files s a
  · rw [hs]
    exact h
  · rw [hs]
    exact ChainStream.keeps_covers htop hfirst d.levels files s.levels h
  · rw [hs]
    refine ChainStream.covers_cons_iff.mpr
      ⟨(ChainStream.covers_cons_iff.mp h).1.closed .destroyed, ?_⟩
    rintro _ _ ⟨⟩

theorem covers_after (htop : ∀ level ∈ d.levels, level.Fits) {first : ChainStream d.levels}
    (hfirst : ChainStream.Sound d.levels first)
    (h : ChainStream.Covers first d.levels s.levels) (steps : List (Files × Action)) :
    ChainStream.Covers first d.levels (s.after steps).levels := by
  induction steps generalizing s with
  | nil => exact h
  | cons step more ih => exact ih (covers_act htop hfirst h step.1 step.2)

/-- A stream that can be computed in machine words, as all streams of parents can that it
comes to use, and that ends in time. -/
structure IsExact (s : DiskStream d) : Prop where
  arising : ∀ chain t, @ChainStream.Arises d.levels s.levels chain t → ChainStream.IsExact chain t
  /-- Whatever is done with the stream. -/
  inUse : ∀ steps chain t, ChainStream.InUse d.levels (s.after steps).levels chain t →
    @ChainStream.Arises d.levels s.levels chain t
  /-- Before the end come chunks and an error, at most one more than there are bytes. -/
  items : ∀ steps, ∃ items k, s.log steps = items ++ List.replicate k .ended ∧
    (∀ p ∈ items, p ≠ .ended) ∧ items.length ≤ s.length + 1
  ends : ∀ times : List Files, s.length + 1 < times.length →
    .ended ∈ s.log (times.map (·, .next))

theorem sound_of_stream (htop : ∀ level ∈ d.levels, level.Fits)
    (hstart : request.start < Limits.machineWord) (hs : d.stream request = .ok s) :
    ChainStream.Sound d.levels s.levels := by
  have hdvd := aligned_start_of_stream hs
  obtain ⟨-, rfl⟩ := stream_eq_ok_iff.mp hs
  exact LevelStream.sound_ofRange (htop d.top List.mem_cons_self) hstart hdvd
    (Nat.le_trans (stop_le request d.flattenedLength) (Nat.le_max_left _ _))

theorem isExact_of_stream (htop : ∀ level ∈ d.levels, level.Fits)
    (hstart : request.start < Limits.machineWord) (hs : d.stream request = .ok s) : s.IsExact := by
  have hsound := sound_of_stream htop hstart hs
  have hcovers : @ChainStream.Covers d.levels s.levels d.levels s.levels := by
    obtain ⟨-, rfl⟩ := stream_eq_ok_iff.mp hs
    refine ChainStream.covers_cons_iff.mpr ⟨.first, ?_⟩
    rintro _ _ ⟨⟩
  have hitems (steps : List (Files × Action)) : ∃ items k,
      s.log steps = items ++ List.replicate k .ended ∧ (∀ p ∈ items, p ≠ .ended) ∧
        items.length ≤ s.length + 1 := by
    obtain ⟨items, k, hlog, hne⟩ := log_eq_append s steps
    exact ⟨items, k, hlog, hne,
      items_le (balanced_of_stream hs) (position_of_stream hs).2.1 hlog hne⟩
  constructor
  case arising => exact fun chain t => ChainStream.isExact_of_arises htop hsound
  case inUse => exact fun steps => covers_after htop hsound hcovers steps
  case items => exact hitems
  case ends =>
    intro times hlt
    obtain ⟨items, k, hlog, -, hle⟩ := hitems (times.map (·, .next))
    have hlength := length_log_nexts s times
    rw [hlog, List.length_append, List.length_replicate] at hlength
    rw [hlog]
    exact List.mem_append_right _ (List.mem_replicate.mpr ⟨by omega, rfl⟩)

end DiskStream

namespace Disk

variable {d : Disk} {request : RangeRequest}

def stream? (d : Disk) (r : RangeRequest) : Option (Except Error (DiskStream d)) := do
  let total ← Word.add? d.size Footer.size
  if r.isAligned then
    let stop := match r.last? with
      | some last => min (Word.increase last) total
      | none => total
    return .ok ⟨LevelStream.ofRange d.top r.start stop
      (.ofNat (r.bufferSize?.getD d.top.options.bufferSize)), ByteArray.empty⟩
  else
    let last ← Word.sub? total 1
    return .error (.misaligned r.start (r.last?.getD last) sectorSize)

theorem stream?_eq (hsize : d.size ≤ Limits.safeNumber) :
    d.stream? request = some (d.stream request) := by
  have htotal := Word.footerEnd_lt hsize
  have hone : 1 ≤ d.size + Footer.size := Nat.le_add_left_of_le (by decide)
  rw [stream?, stream, Word.add?_eq htotal, Option.bind_eq_bind, Option.bind_some]
  by_cases ha : request.isAligned = true
  · rw [if_pos ha, if_pos ha]
    unfold RangeRequest.stop
    cases request.last? with
    | none => rfl
    | some last =>
      simp only [Word.min_increase htotal]
      rfl
  · rw [if_neg ha, if_neg ha, Word.sub?_eq hone]
    rfl

end Disk

namespace DiskStream

/-- A stream of an opened disk is computed in machine words wherever it starts, whatever is
done with it and whatever becomes of the files. -/
theorem streams_exactly {files : Files} {options : OpenOptions} {path : Path} {d : Disk}
    {request : RangeRequest} (ho : Disk.open files options path = .ok d)
    (hstart : request.start < Limits.machineWord) :
    d.stream? request = some (d.stream request) ∧
      ∀ s, d.stream request = .ok s → s.IsExact := by
  have hfits := (chained_of_open ho).fits
  exact ⟨Disk.stream?_eq (hfits d.top List.mem_cons_self).size_le,
    fun s hs => isExact_of_stream hfits hstart hs⟩

/-- A range of which each byte is given, and one that starts with the last sector that
has a number. -/
theorem streams_exactly_mixedPair :
    (∃ s : DiskStream ((mixedPair 1024 (by decide)).disk unchecked), s.IsExact ∧ s.length = 1536) ∧
      ∃ s : DiskStream ((mixedPair 1024 (by decide)).disk unchecked), s.IsExact ∧
        s.position = Limits.machineWord - sectorSize := by
  have hopen := @DraftPair.open_disk (mixedPair 1024 (by decide)) unchecked rfl
  have hwhole : (RangeRequest.mk none none none).start < Limits.machineWord := by decide
  have hlast : (RangeRequest.mk (some (Limits.machineWord - sectorSize)) none none).start
      < Limits.machineWord := by decide
  exact ⟨⟨_, (streams_exactly hopen hwhole).2 _ rfl, rfl⟩,
    ⟨_, (streams_exactly hopen hlast).2 _ rfl, rfl⟩⟩

end DiskStream

end VirtualDisk
