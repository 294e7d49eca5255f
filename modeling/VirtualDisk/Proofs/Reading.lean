import VirtualDisk.Proofs.Accounting

namespace VirtualDisk

theorem octets_slice_append (bytes : ByteArray) (count : Nat) :
    octets (slice bytes 0 count) ++ octets (slice bytes count bytes.size) = octets bytes := by
  have hle : ((octets bytes).drop count).length ≤ bytes.size := by
    rw [List.length_drop, length_octets]
    exact Nat.sub_le _ _
  rw [octets_slice, octets_slice, List.drop_zero, List.take_of_length_le hle, List.take_append_drop]

theorem size_slice_ne_zero {bytes : ByteArray} {count : Nat} (hb : bytes.size ≠ 0)
    (hc : count ≠ 0) :
    (slice bytes 0 count).size ≠ 0 := by
  rw [← length_octets, octets_slice, List.drop_zero, List.length_take, length_octets]
  omega

theorem mapError_eq_ok {α : Type} {e : Except Error α} {f : Error → ReaderError} {x : α}
    (h : e.mapError f = .ok x) : e = .ok x := by
  cases e with
  | ok y => exact congrArg Except.ok (Except.ok.inj h)
  | error e => cases h

theorem mapError_eq_error {α : Type} {x : Except Error α} {f : Error → ReaderError}
    {e : ReaderError} :
    x.mapError f = .error e ↔ ∃ cause, x = .error cause ∧ f cause = e := by
  cases x with
  | ok y => exact ⟨fun h => (nomatch h), fun ⟨_, h, _⟩ => (nomatch h)⟩
  | error cause =>
    constructor
    · exact fun h => ⟨cause, rfl, Except.error.inj h⟩
    · rintro ⟨_, ⟨⟩, h⟩
      exact congrArg _ h

namespace DiskStream

variable {d : Disk} {files : Files} {a : Action} {s t : DiskStream d} {count : Nat}
  {steps : List (Files × Action)}

section pulls

def pullTimes (s : DiskStream d) : List (Files × Action) → List Files
  | [] => []
  | (files, a) :: more =>
    (s.act files a).1.toList.map (fun _ => files) ++ (s.act files a).2.pullTimes more

theorem log_nexts_congr (h : s.levels = t.levels) (times : List Files) :
    s.log (times.map (·, .next)) = t.log (times.map (·, .next)) := by
  induction times generalizing s t with
  | nil => rfl
  | cons files more ih =>
    have hpull : (s.act files .next).1 = (t.act files .next).1 :=
      congrArg (fun l => some ((source d).pull files l).1) h
    have hrest : (s.act files .next).2.levels = (t.act files .next).2.levels :=
      congrArg (fun l => ((source d).pull files l).2) h
    rw [List.map_cons, log, log, hpull, ih hrest]

theorem log_eq_log_nexts (hs : ∀ step ∈ steps, step.2 ≠ .destroy) :
    s.log steps = s.log ((s.pullTimes steps).map (·, .next)) := by
  induction steps generalizing s with
  | nil => rfl
  | cons step more ih =>
    obtain ⟨hstep, hmore⟩ := List.forall_mem_cons.mp hs
    rw [log, pullTimes, ih hmore]
    obtain ⟨-, hp, hl⟩ | ⟨-, hp, hl⟩ | ⟨hd, -, -⟩ := act_cases step.1 s step.2
    · rw [hp]
      exact log_nexts_congr hl _
    · rw [hp]
      exact congrArg _ (log_nexts_congr (t := (s.next step.1).2) hl _)
    · exact absurd hd hstep

end pulls

section reads

def chunksOf : Option Pulled → List ByteArray
  | some (.chunk bytes) => [bytes]
  | some (.failed _) | some .ended | none => []

def bytesOf : Except Error ByteArray → List UInt8
  | .ok bytes => octets bytes
  | .error _ => []

theorem unread_of_next {p : Pulled} (h : s.next files = (p, t)) : t.unread = s.unread := by
  cases h
  rfl

theorem phase_of_next_ended (hc : s.closed? = none) (h : s.next files = (.ended, t)) :
    t.levels.phase = .finished := by
  have hmoves := (pull_moves files s.levels).2
  rw [pull_of_next h] at hmoves
  obtain ⟨-, hfinished, -⟩ | ⟨hclosed, hsame⟩ := hmoves
  · exact hfinished
  · rw [show t.levels = s.levels from hsame]
    unfold closed? at hc
    split at hc
    · cases hc
    · cases hc
    · next hphase => exact absurd hphase hclosed
    · next hphase => exact hphase

variable {result : Except Error ByteArray} {pulled : Option Pulled}

namespace Reads

theorem octets_eq (h : s.Reads files count result pulled t) :
    octets s.unread ++ (chunksOf pulled).flatMap octets = bytesOf result ++ octets t.unread := by
  cases h with
  | nothing | closed => simp [chunksOf, bytesOf]
  | rest => simp [chunksOf, bytesOf, octets_slice_append]
  | chunk hp hn =>
    rw [octets_eq_nil_iff.mpr hp.2.1]
    simp [chunksOf, bytesOf, octets_slice_append]
  | failed hp hn => simp [chunksOf, bytesOf, unread_of_next hn]
  | ended hp hn => simp [chunksOf, bytesOf, octets_eq_nil_iff.mpr hp.2.1]

theorem suffix (h : s.Reads files count result pulled t) :
    octets t.unread <:+ octets ((chunksOf pulled).getLast?.getD s.unread) := by
  cases h with
  | nothing | closed => exact List.suffix_refl _
  | rest => exact ⟨_, octets_slice_append s.unread count⟩
  | chunk hp hn => exact ⟨_, octets_slice_append _ count⟩
  | failed hp hn => exact unread_of_next hn ▸ List.suffix_refl _
  | ended => exact List.nil_suffix

theorem error_iff (h : s.Reads files count result pulled t) (e : Error) :
    result = .error e ↔
      pulled = some (.failed e) ∨ count ≠ 0 ∧ s.unread.size = 0 ∧ s.closed? = some e := by
  cases h with
  | nothing hc => simp [hc]
  | rest hc hu => simp [hu]
  | closed hc hu he => simp [hc, hu, he]
  | chunk hp | failed hp | ended hp => simp [hp.2.2]

/-- A read of some bytes returns none only at the end. -/
theorem finished_of_empty {bytes : ByteArray} (h : s.Reads files count (.ok bytes) pulled t)
    (hc : count ≠ 0) (hb : bytes.size = 0) :
    s.unread.size = 0 ∧ t.levels.phase = .finished ∧ pulled = some .ended := by
  cases h with
  | nothing h => exact absurd h hc
  | rest _ hu => exact absurd hb (size_slice_ne_zero hu hc)
  | chunk hp hn =>
    have hmem : .chunk _ ∈ (s.act files .next).1.toList :=
      List.mem_singleton.mpr (congrArg Prod.fst hn).symm
    exact absurd hb (size_slice_ne_zero (size_of_mem_act hmem) hc)
  | ended hp hn =>
    have hphase := phase_of_next_ended hp.2.2 hn
    exact ⟨hp.2.1, hphase, rfl⟩

end Reads

def chunksRead (s : DiskStream d) : List (Files × Action) → List ByteArray
  | [] => []
  | (files, .read count) :: more =>
    chunksOf (s.act files (.read count)).1 ++ (s.act files (.read count)).2.chunksRead more
  | (files, a) :: more => (s.act files a).2.chunksRead more

def bytesRead (s : DiskStream d) : List (Files × Action) → List UInt8
  | [] => []
  | (files, .read count) :: more =>
    bytesOf (s.read files count).1 ++ (s.act files (.read count)).2.bytesRead more
  | (files, a) :: more => (s.act files a).2.bytesRead more

theorem octets_chunksRead (hs : ∀ step ∈ steps, step.2 ≠ .destroy) :
    octets s.unread ++ (s.chunksRead steps).flatMap octets
      = s.bytesRead steps ++ octets (s.after steps).unread := by
  induction steps generalizing s with
  | nil => exact List.append_nil _
  | cons step more ih =>
    obtain ⟨files, a⟩ := step
    obtain ⟨ha, hmore⟩ := List.forall_mem_cons.mp hs
    cases a with
    | next => exact ih (s := (s.next files).2) hmore
    | read count =>
      rw [chunksRead, bytesRead, after, List.flatMap_append, ← List.append_assoc,
        (reads_read files s count).octets_eq, List.append_assoc, List.append_assoc]
      exact congrArg _ (ih hmore)
    | destroy => exact absurd rfl ha

theorem unread_suffix (hs : ∀ step ∈ steps, step.2 ≠ .destroy) :
    octets (s.after steps).unread <:+ octets ((s.chunksRead steps).getLast?.getD s.unread) := by
  induction steps generalizing s with
  | nil => exact List.suffix_refl _
  | cons step more ih =>
    obtain ⟨files, a⟩ := step
    obtain ⟨ha, hmore⟩ := List.forall_mem_cons.mp hs
    cases a with
    | next => exact ih (s := (s.next files).2) hmore
    | read count =>
      have hrest := @ih (s.act files (.read count)).2 hmore
      rw [chunksRead, after, List.getLast?_append]
      -- the chunk of this read is the last one just if no later read pulls a chunk
      cases hlast : ((s.act files (.read count)).2.chunksRead more).getLast? with
      | some bytes => rwa [hlast] at hrest
      | none =>
        rw [hlast] at hrest
        exact hrest.trans (reads_read files s count).suffix
    | destroy => exact absurd rfl ha

end reads

section failed

theorem phase_of_pulled_failed {e : Error} (h : (s.act files a).1 = some (.failed e)) :
    (s.act files a).2.levels.phase = .failed := by
  obtain ⟨-, hp, -⟩ | ⟨-, hp, hl⟩ | ⟨-, hp, -⟩ := act_cases files s a
  · cases hp.symm.trans h
  · have hmoves := (pull_moves files s.levels).2
    rw [← Option.some.inj (h.symm.trans hp)] at hmoves
    rw [hl]
    exact hmoves.2.1
  · cases hp.symm.trans h

theorem phase_act_failed (ha : a ≠ .destroy) (h : s.levels.phase = .failed) :
    (s.act files a).2.levels.phase = .failed := by
  have hclosed : s.levels.phase ≠ .streaming := by
    rw [h]
    exact Phase.noConfusion
  obtain ⟨-, -, hl⟩ | ⟨-, -, hl⟩ | ⟨hd, -, -⟩ := act_cases files s a
  · rw [hl, h]
  · rw [hl, pull_of_closed hclosed, h]
  · exact absurd hd ha

theorem phase_after_failed (hs : ∀ step ∈ steps, step.2 ≠ .destroy)
    (h : s.levels.phase = .failed ∨ ∃ e, .failed e ∈ s.log steps) :
    (s.after steps).levels.phase = .failed := by
  induction steps generalizing s with
  | nil =>
    obtain h | ⟨e, he⟩ := h
    · exact h
    · cases he
  | cons step more ih =>
    obtain ⟨ha, hmore⟩ := List.forall_mem_cons.mp hs
    apply ih hmore
    obtain h | ⟨e, he⟩ := h
    · exact .inl (phase_act_failed ha h)
    · obtain he | he := List.mem_append.mp he
      · exact .inl (phase_of_pulled_failed (Option.mem_toList.mp he))
      · exact .inr ⟨e, he⟩

end failed

section total

theorem total_of_closed (h : s.levels.phase ≠ .streaming) : s.total files = ⟨[], none⟩ := by
  rw [total_eq, Source.total_of_ended (pull_of_closed h)]

/-- What an action pulls is the front of what the stream still gives. -/
theorem total_act (ha : a ≠ .destroy) : (chunksOf (s.act files a).1).flatMap octets
    ++ ((s.act files a).2.total files).bytes = (s.total files).bytes := by
  obtain ⟨-, hp, hl⟩ | ⟨-, hp, hl⟩ | ⟨hd, -, -⟩ := act_cases files s a
  · rw [hp, total_eq, total_eq, hl]
    rfl
  · match hn : (source d).pull files s.levels with
    | (.chunk bytes, rest) =>
      rw [hp, total_eq, total_eq, hl, Source.total_of_chunk hn, hn]
      simp [chunksOf]
    | (.failed e, rest) =>
      rw [hn] at hp
      have hclosed := closed_of_failed (Option.mem_toList.mpr hp) rfl
      rw [total_of_closed hclosed, total_eq, Source.total_of_failed hn, hp]
      rfl
    | (.ended, rest) =>
      rw [hn] at hp
      rw [total_of_closed (closed_of_ended hp), total_eq, Source.total_of_ended hn, hp]
      rfl
  · exact absurd hd ha

/-- With reads alone, all is given in the end that is not pulled yet. -/
theorem total_after (hs : ∀ step ∈ steps, step.1 = files ∧ ∃ count, step.2 = .read count) :
    (s.chunksRead steps).flatMap octets ++ ((s.after steps).total files).bytes
      = (s.total files).bytes := by
  induction steps generalizing s with
  | nil => rfl
  | cons step more ih =>
    obtain ⟨⟨htree, count, hcount⟩, hmore⟩ := List.forall_mem_cons.mp hs
    obtain ⟨_, _⟩ := step
    subst htree hcount
    rw [chunksRead, after, List.flatMap_append, List.append_assoc, ih hmore]
    exact total_act Action.noConfusion

end total

/-- What a stream delivers that is used as the steps say. -/
structure Delivers (s : DiskStream d) (steps : List (Files × Action)) : Prop where
  /-- The calls that pull bring what `next` alone would bring at these times. -/
  in_order : s.log steps = s.log ((s.pullTimes steps).map (·, .next))
  next_whole : ∀ files, ∃ p rest, (s.after steps).next files = (p, rest) ∧
    (s.after steps).act files .next = (some p, rest) ∧ rest.unread = (s.after steps).unread
  /-- The bytes that reads return are those of the chunks that reads pull, less what
  is unread of the last of them. -/
  conserved : octets s.unread ++ (s.chunksRead steps).flatMap octets
    = s.bytesRead steps ++ octets (s.after steps).unread
  unread_of_last :
    octets (s.after steps).unread <:+ octets ((s.chunksRead steps).getLast?.getD s.unread)
  /-- While bytes are unread, they are returned and nothing is pulled. -/
  unread_first : (s.after steps).unread.size ≠ 0 → ∀ files count, count ≠ 0 →
    (s.after steps).readPlain files count = (.ok (slice (s.after steps).unread 0 count),
      ((s.after steps).act files (.read count)).2) ∧
    ((s.after steps).act files (.read count)).1 = none
  read_zero : ∀ files, (s.after steps).readPlain files 0 = (.ok ByteArray.empty, s.after steps) ∧
    (s.after steps).act files (.read 0) = (none, s.after steps)
  empty_at_end : ∀ files count bytes rest, count ≠ 0 →
    (s.after steps).readPlain files count = (.ok bytes, rest) → bytes.size = 0 →
    (s.after steps).unread.size = 0 ∧ rest.levels.phase = .finished ∧
      ((s.after steps).act files (.read count)).1 = some .ended
  reported : ∀ files count e, ((s.after steps).readPlain files count).1 = .error e ↔
    ∃ cause, e = cause.toReader ∧
      (((s.after steps).act files (.read count)).1 = some (.failed cause) ∨
      count ≠ 0 ∧ (s.after steps).unread.size = 0 ∧ (s.after steps).closed? = some cause)
  /-- Behind an error only unread bytes are returned. -/
  refused : (∃ e, .failed e ∈ s.log steps) → (s.after steps).unread.size = 0 →
    ∀ files count, count ≠ 0 → (s.after steps).readPlain files count
      = (.error (.wrapped (.unreadable .failedEarlier)), s.after steps)
  /-- With reads alone, what they return is the front of all that is unread or given. -/
  reads_alone : ∀ files, (∀ step ∈ steps, step.1 = files ∧ ∃ count, step.2 = .read count) →
    s.bytesRead steps ++ (octets (s.after steps).unread ++ ((s.after steps).total files).bytes)
      = octets s.unread ++ (s.total files).bytes

/-- Whether chunks are taken or bytes are read, each byte is delivered once and in
order, whatever the files turn into. -/
theorem delivers (s : DiskStream d) (hs : ∀ step ∈ steps, step.2 ≠ .destroy) :
    s.Delivers steps := by
  constructor
  case in_order => exact log_eq_log_nexts hs
  case next_whole => exact fun files => ⟨_, _, rfl, rfl, rfl⟩
  case conserved => exact octets_chunksRead hs
  case unread_of_last => exact unread_suffix hs
  case unread_first =>
    intro hu files count hc
    have hpulls : ¬(s.after steps).Pulls count := fun hp => hu hp.2.1
    rw [readPlain, act, read_of_unread hc hu, if_neg hpulls]
    exact ⟨rfl, rfl⟩
  case read_zero =>
    intro files
    have hpulls : ¬(s.after steps).Pulls 0 := fun hp => hp.1 rfl
    rw [readPlain, act, DiskStream.read_zero, if_neg hpulls]
    exact ⟨rfl, rfl⟩
  case empty_at_end =>
    intro files count bytes rest hc hread hb
    have hreads := reads_read files (s.after steps) count
    obtain ⟨hresult, hrest⟩ := Prod.mk.inj hread
    rw [mapError_eq_ok hresult, hrest] at hreads
    exact hreads.finished_of_empty hc hb
  case reported =>
    intro files count e
    rw [readPlain, mapError_eq_error]
    simp only [(reads_read files (s.after steps) count).error_iff, and_comm, eq_comm]
  case refused =>
    intro hfailed hu files count hc
    have hclosed : (s.after steps).closed? = some (.unreadable .failedEarlier) := by
      rw [closed?, phase_after_failed hs (.inr hfailed)]
    rw [readPlain, read_of_closed hc hu hclosed]
    rfl
  case reads_alone =>
    intro files honly
    rw [← total_after (s := s) honly, ← List.append_assoc, ← List.append_assoc,
      octets_chunksRead hs]

theorem delivers_mixedPair :
    ∃ s : DiskStream ((mixedPair 1024 (by decide)).disk unchecked),
      Disk.stream ((mixedPair 1024 (by decide)).disk unchecked) ⟨none, none, none⟩ = .ok s ∧
      s.Delivers [((mixedPair 1024 (by decide)).files, .read 100), (FileTree.empty.host, .read 0),
        ((mixedPair 1024 (by decide)).files, .next), (FileTree.empty.host, .read 9)] := by
  obtain ⟨s, hs⟩ := stream_whole ((mixedPair 1024 (by decide)).disk unchecked)
  exact ⟨s, hs, delivers s (by simp)⟩

end DiskStream

end VirtualDisk
