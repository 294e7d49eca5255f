import VirtualDisk.Proofs.Resemblance
import VirtualDisk.Proofs.FooterEdits
import VirtualDisk.Proofs.Accounting
import VirtualDisk.Proofs.RoundTrip

namespace VirtualDisk

namespace Footer

/-- The places of a footer that depend on the tag: the tag itself and the checksum. -/
def IsTagged (i : Nat) : Prop := 28 ≤ i ∧ i < 32 ∨ 64 ≤ i ∧ i < 68

theorem getElem_unsummed_of_not_tag (raw : Vector UInt8 512) (creator : Option (Vector UInt8 4))
    {i : Nat} (hi : i < 512) (h : ¬(28 ≤ i ∧ i < 32)) :
    (unsummed raw creator)[i] = (unsummed raw none)[i] := by
  cases creator with
  | none => rfl
  | some tag => exact (getElem_overwrite _ _ _ _ hi).trans (dif_neg h)

theorem getElem_toFixed (f : Footer) (tag tag' : Option (Vector UInt8 4)) {i : Nat} (hi : i < 512)
    (h : ¬IsTagged i) : (f.toFixed tag).raw[i] = (f.toFixed tag').raw[i] := by
  have hsum : ¬(64 ≤ i ∧ i < 64 + 4) := fun hd => h (.inr hd)
  have htag : ¬(28 ≤ i ∧ i < 32) := fun hd => h (.inl hd)
  by_cases ht : f.convertedType = .fixed
  · rw [toFixed_of_fixed ht, toFixed_of_fixed ht]
  · simp only [toFixed_of_sparse ht, raw_withChecksum, getElem_overwrite, dif_neg hsum]
    rw [getElem_unsummed_of_not_tag _ _ hi htag, getElem_unsummed_of_not_tag _ tag' hi htag]

end Footer

section opening

variable {files : Files} {o : OpenOptions} {path : Path} {room : Nat}

/-- The image as it would have been opened with another tag. -/
def Level.retagged (tag : Option (Vector UInt8 4)) (l : Level) : Level :=
  { l with options := { l.options with creator := tag }, flattenedFooter := l.footer.toFixed tag }

def Disk.retagged (tag : Option (Vector UInt8 4)) (d : Disk) : Disk :=
  ⟨d.top.retagged tag, d.ancestors.map (Level.retagged tag)⟩

variable (tag tag' : Option (Vector UInt8 4))

theorem Level.read_retagged : Level.read files { o with creator := tag' } path
    = (Level.read files { o with creator := tag } path).map (Level.retagged tag') := by
  unfold Level.read
  simp only [bind, Except.bind]
  cases files.openFile path with
  | error e => rfl
  | ok place =>
    simp only
    cases lastFooter (files.contents place) with
    | error e => rfl
    | ok footer =>
      have hcheck : OpenOptions.checkIntact { o with creator := tag' } footer.isIntact "footer" path
          = OpenOptions.checkIntact { o with creator := tag } footer.isIntact "footer" path := rfl
      have hlayout : readLayout { o with creator := tag' } path (files.contents place) footer
          = readLayout { o with creator := tag } path (files.contents place) footer := rfl
      simp only [hcheck, hlayout]
      cases OpenOptions.checkIntact { o with creator := tag } footer.isIntact "footer" path with
      | error e => rfl
      | ok =>
        simp only
        cases readLayout { o with creator := tag } path (files.contents place) footer <;> rfl

theorem Disk.openWithin_retagged : Disk.openWithin files { o with creator := tag' } room path
    = (Disk.openWithin files { o with creator := tag } room path).map (Disk.retagged tag') := by
  induction room generalizing path with
  | zero => rfl
  | succ room ih =>
    rw [openWithin, openWithin, Level.read_retagged tag tag']
    cases Level.read files { o with creator := tag } path with
    | error e => rfl
    | ok level =>
      simp only [bind, Except.bind, Except.map]
      have hdiff : (level.retagged tag').isDifferencing = level.isDifferencing := rfl
      have hsparse : (level.retagged tag').sparse = level.sparse := rfl
      rw [hdiff, hsparse]
      split
      · next layout _ _ =>
        cases ParentSearch.find files path layout.header with
        | error e => rfl
        | ok found =>
          simp only
          rw [ih]
          cases openWithin files { o with creator := tag } room found.1 <;> rfl
      · rfl

end opening

/-- Bytes that differ at some places only, the first of them being that of the disk at `place`. -/
structure AlikeBut (places : Nat → Prop) (place : Nat) (bytes bytes' : ByteArray) : Prop where
  size_eq : bytes.size = bytes'.size
  byteAt_eq : ∀ i, ¬places (place + i) → byteAt bytes i = byteAt bytes' i

inductive Pulled.Alike (same : ByteArray → ByteArray → Prop) : Pulled → Pulled → Prop
  | chunk {bytes bytes' : ByteArray} : same bytes bytes' → Alike same (.chunk bytes) (.chunk bytes')
  | failed (e : Error) : Alike same (.failed e) (.failed e)
  | ended : Alike same .ended .ended

inductive ReadAlike (same : ByteArray → ByteArray → Prop) :
    Except Error ByteArray → Except Error ByteArray → Prop
  | ok {bytes bytes' : ByteArray} : same bytes bytes' → ReadAlike same (.ok bytes) (.ok bytes')
  | error (e : Error) : ReadAlike same (.error e) (.error e)

theorem Pulled.Alike.mono {same same' : ByteArray → ByteArray → Prop} {p q : Pulled}
    (h : p.Alike same q) (hs : ∀ bytes bytes', same bytes bytes' → same' bytes bytes') :
    p.Alike same' q := by
  cases h with
  | chunk hbytes => exact .chunk (hs _ _ hbytes)
  | failed e => exact .failed e
  | ended => exact .ended

theorem ReadAlike.mono {same same' : ByteArray → ByteArray → Prop}
    {r r' : Except Error ByteArray} (h : ReadAlike same r r')
    (hs : ∀ bytes bytes', same bytes bytes' → same' bytes bytes') : ReadAlike same' r r' := by
  cases h with
  | ok hbytes => exact .ok (hs _ _ hbytes)
  | error e => exact .error e

theorem Pulled.Alike.refl {same : ByteArray → ByteArray → Prop} (h : ∀ bytes, same bytes bytes)
    (p : Pulled) : p.Alike same p := by
  cases p with
  | chunk bytes => exact .chunk (h bytes)
  | failed e => exact .failed e
  | ended => exact .ended

namespace AlikeBut

variable {places : Nat → Prop} {place : Nat} {bytes bytes' : ByteArray}

theorem refl (places : Nat → Prop) (place : Nat) (bytes : ByteArray) :
    AlikeBut places place bytes bytes := ⟨rfl, fun _ _ => rfl⟩

theorem slice (h : AlikeBut places place bytes bytes') (start count : Nat) :
    AlikeBut places (place + start) (slice bytes start count) (slice bytes' start count) where
  size_eq := by rw [size_slice, size_slice, h.size_eq]
  byteAt_eq i hi := by
    have hbyte := h.byteAt_eq (start + i) (Nat.add_assoc place start i ▸ hi)
    unfold byteAt at hbyte ⊢
    rw [octets_slice, octets_slice, List.getElem?_take, List.getElem?_take, List.getElem?_drop,
      List.getElem?_drop, hbyte]

theorem rest (h : AlikeBut places place bytes bytes') (count : Nat) :
    AlikeBut places (place + count) (VirtualDisk.slice bytes count bytes.size)
      (VirtualDisk.slice bytes' count bytes'.size) := by
  rw [← h.size_eq]
  exact h.slice count bytes.size

theorem eq_of_nowhere (h : AlikeBut places place bytes bytes') (hn : ∀ o, ¬places o) :
    bytes = bytes' :=
  octets_injective (List.ext_getElem? fun i => h.byteAt_eq i (hn _))

end AlikeBut

def footerPlaces (size : Nat) (places : Nat → Prop) (o : Nat) : Prop := ∃ i, places i ∧ o = size + i

def Footer.AgreeBut (places : Nat → Prop) (f f' : Footer) : Prop :=
  ∀ i (hi : i < 512), ¬places i → f.raw[i] = f'.raw[i]

theorem Footer.AgreeBut.refl {places : Nat → Prop} (f : Footer) : f.AgreeBut places f :=
  fun _ _ _ => rfl

theorem Footer.AgreeBut.alike {places : Nat → Prop} {f f' : Footer} (h : f.AgreeBut places f')
    (size : Nat) : AlikeBut (footerPlaces size places) size f.bytes f'.bytes where
  size_eq := (size_packed _).trans (size_packed _).symm
  byteAt_eq i hi := by
    by_cases hlt : i < 512
    · rw [Footer.byteAt_bytes f hlt, Footer.byteAt_bytes f' hlt, h i hlt fun hp => hi ⟨i, hp, rfl⟩]
    · have hnone (g : Footer) : byteAt g.bytes i = none := by
        apply List.getElem?_eq_none
        rw [length_octets]
        exact Nat.le_trans (Nat.le_of_eq (size_packed _)) (Nat.not_lt.mp hlt)
      rw [hnone, hnone]

/-- Disks with the same images, whose own flattened footers differ at some places only. The
flattened footers of the ancestors are any. -/
structure Disk.Resembles (places : Nat → Prop) (d d' : Disk) : Prop where
  top : d.top.Resembles d'.top
  ancestors : List.Forall₂ Level.Resembles d.ancestors d'.ancestors
  bufferSize_eq : d.top.options.bufferSize = d'.top.options.bufferSize
  footer : d.top.flattenedFooter.AgreeBut places d'.top.flattenedFooter

namespace DiskStream

variable {d d' : Disk} {places : Nat → Prop} {p : Plan} {s : DiskStream d} {t : DiskStream d'}

def FooterParts (d d' : Disk) (p : Plan) (bytes bytes' : ByteArray) : Prop :=
  bytes = p.footerBytes d.top.flattenedFooter ∧ bytes' = p.footerBytes d'.top.flattenedFooter

theorem FooterParts.alike {bytes bytes' : ByteArray} (h : FooterParts d d' p bytes bytes')
    (hd : d.Resembles places d') :
    AlikeBut (footerPlaces p.size places) p.footerStart bytes bytes' := by
  have hparts := (hd.footer.alike p.size).slice (p.footerStart - p.size) (p.stop - p.footerStart)
  have hsize : p.size ≤ p.footerStart := Nat.le_max_right _ _
  rw [Nat.add_sub_cancel' hsize] at hparts
  rw [h.1, h.2]
  exact hparts

abbrev LevelsLike (d d' : Disk) (p : Plan) :
    LevelStream (ChainStream d.ancestors) → LevelStream (ChainStream d'.ancestors) → Prop :=
  LevelStream.Like (FooterParts d d' p) (ChainStream.Like d.ancestors d'.ancestors)
    d.top.flattenedFooter d'.top.flattenedFooter

/-- Streams of the range of a plan that are in the same state, up to bytes of the footers. -/
structure Like (places : Nat → Prop) (p : Plan) (s : DiskStream d) (t : DiskStream d') : Prop where
  levels : LevelsLike d d' p s.levels t.levels
  unread : ∃ place, AlikeBut (footerPlaces p.size places) place s.unread t.unread
  bounds_eq : s.levels.plan.bounds = p.bounds
  balanced : s.Balanced

theorem Balanced.size_last (hb : s.Balanced) (hr : s.isReadable = true) {files : Files}
    {bytes : ByteArray} {rest : LevelStream (ChainStream d.ancestors)}
    (hp : (source d).pull files s.levels = (.chunk bytes, rest)) (hphase : rest.phase = .streaming)
    (ha : rest.active = some (.footer none)) (hl : rest.plan.left = 0) :
    rest.plan.EndsByFooter ∧ bytes.size = s.length - s.levels.given := by
  have hpays := hb.pays hr files
  rw [hp] at hpays
  obtain ⟨left, hleft, hsum⟩ := hpays
  obtain ⟨hend, k, hk, hrest⟩ := (LevelStream.owes_active hphase ha).mp hleft
  have hzero : k = 0 := hk
  exact ⟨hend, by omega⟩

namespace Like

theorem position_eq (h : s.Like places p t) : s.position = t.position := by
  rw [position, position, h.levels.plan_eq, h.levels.given_eq]

theorem closed?_eq (h : s.Like places p t) : s.closed? = t.closed? := by
  rw [closed?, closed?, h.levels.phase_eq]

theorem position_of_last (h : s.Like places p t) {files : Files} {bytes : ByteArray}
    {rest : LevelStream (ChainStream d.ancestors)}
    (hp : (source d).pull files s.levels = (.chunk bytes, rest))
    (ha : rest.active = some (.footer none)) (hl : rest.plan.left = 0)
    (hbytes : bytes = p.footerBytes d.top.flattenedFooter) : s.position = p.footerStart := by
  obtain ⟨hbounds, hmoves⟩ := pull_moves files s.levels
  rw [hp] at hbounds hmoves
  obtain ⟨hne, hstreaming, hphase, -⟩ := hmoves
  have hreadable : s.isReadable = true := isReadable_iff.mpr (.inl hstreaming)
  obtain ⟨hend, hsize⟩ := h.balanced.size_last hreadable hp hphase ha hl
  have hpart := Plan.size_footer_part d.top.flattenedFooter
    (Plan.endsByFooter_of_bounds (h.bounds_eq.symm.trans hbounds.symm) hend)
  -- the chunk ends with the range, and is as long as the part of the footer in it
  have hfooter : bytes.size = p.stop - p.footerStart := hbytes ▸ hpart
  have hstart : p.start ≤ p.footerStart := Nat.le_max_left _ _
  have hplan := h.bounds_eq
  simp only [Plan.bounds, Prod.mk.injEq] at hplan
  rw [length, stop, hplan.2.1, hplan.2.2] at hsize
  rw [position, hplan.2.1]
  omega

theorem levels_pull (hd : d.Resembles places d') (h : s.Like places p t) (files : Files) :
    ((source d).pull files s.levels).1.Same (FooterParts d d' p)
        (((source d).pull files s.levels).2.active = some (.footer none))
        ((source d').pull files t.levels).1 ∧
      LevelsLike d d' p ((source d).pull files s.levels).2 ((source d').pull files t.levels).2 := by
  obtain ⟨hmirrors, hview⟩ := ChainStream.mirrors hd.ancestors
  have hsizes {bytes bytes' : ByteArray} (hb : FooterParts d d' p bytes bytes') :
      bytes.size = bytes'.size := (hb.alike hd).size_eq
  exact LevelStream.Like.pull hd.top hmirrors hview (fun _ _ => hsizes) h.levels files

theorem alike_pull (hd : d.Resembles places d') (h : s.Like places p t) (files : Files) :
    ((source d).pull files s.levels).1.Alike (AlikeBut (footerPlaces p.size places) s.position)
      ((source d').pull files t.levels).1 := by
  obtain ⟨hsame, hrest⟩ := h.levels_pull hd files
  rcases hp : (source d).pull files s.levels with ⟨pulled, rest⟩
  rw [hp] at hsame hrest
  generalize ((source d').pull files t.levels).1 = pulled' at hsame ⊢
  cases hsame with
  | refl => exact .refl (AlikeBut.refl _ _) _
  | parts hlast hparts =>
    rw [h.position_of_last hp hlast (hrest.left_of_footer _ hlast) hparts.1]
    exact .chunk (hparts.alike hd)

theorem pulls_iff (h : s.Like places p t) (count : Nat) : s.Pulls count ↔ t.Pulls count := by
  obtain ⟨_, hunread⟩ := h.unread
  rw [Pulls, Pulls, hunread.size_eq, h.closed?_eq]

theorem read (hd : d.Resembles places d') (h : s.Like places p t) (files : Files)
    (count : Nat) :
    (∃ place, ReadAlike (AlikeBut (footerPlaces p.size places) place) (s.read files count).1
        (t.read files count).1) ∧
      LevelsLike d d' p (s.read files count).2.levels (t.read files count).2.levels ∧
      ∃ place, AlikeBut (footerPlaces p.size places) place (s.read files count).2.unread
        (t.read files count).2.unread := by
  obtain ⟨place, hunread⟩ := h.unread
  by_cases hp : s.Pulls count
  · have hpulled := h.alike_pull hd files
    have hlevels := (h.levels_pull hd files).2
    have hs : s.next files = (((source d).pull files s.levels).1,
      { s with levels := ((source d).pull files s.levels).2 }) := rfl
    have ht : t.next files = (((source d').pull files t.levels).1,
      { t with levels := ((source d').pull files t.levels).2 }) := rfl
    rw [read_of_pulls hp, read_of_pulls ((h.pulls_iff count).mp hp), hs, ht]
    generalize ((source d).pull files s.levels).1 = pulled at hpulled ⊢
    generalize ((source d').pull files t.levels).1 = pulled' at hpulled ⊢
    cases hpulled with
    | chunk hbytes =>
      exact ⟨⟨_, .ok (hbytes.slice 0 count)⟩, hlevels, _, hbytes.rest count⟩
    | failed e => exact ⟨⟨place, .error e⟩, hlevels, place, hunread⟩
    | ended => exact ⟨⟨place, .ok (.refl _ _ _)⟩, hlevels, place, .refl _ _ _⟩
  · by_cases hc : count = 0
    · rw [hc, read_zero, read_zero]
      exact ⟨⟨place, .ok (.refl _ _ _)⟩, h.levels, place, hunread⟩
    by_cases hu : s.unread.size = 0
    · cases hclosed : s.closed? with
      | none => exact absurd ⟨hc, hu, hclosed⟩ hp
      | some e =>
        rw [read_of_closed hc hu hclosed,
          read_of_closed hc (hunread.size_eq ▸ hu) (h.closed?_eq ▸ hclosed)]
        exact ⟨⟨place, .error e⟩, h.levels, place, hunread⟩
    · rw [read_of_unread hc hu, read_of_unread hc (hunread.size_eq ▸ hu)]
      exact ⟨⟨_, .ok (hunread.slice 0 count)⟩, h.levels, _, hunread.rest count⟩

theorem act (hd : d.Resembles places d') (h : s.Like places p t) (files : Files)
    (a : Action) :
    Option.Rel (Pulled.Alike (AlikeBut (footerPlaces p.size places) s.position))
        (s.act files a).1 (t.act files a).1 ∧
        (s.act files a).2.Like places p (t.act files a).2 := by
  have hbounds := (bounds_act files s a).trans h.bounds_eq
  have hbalanced := h.balanced.act files a
  cases a with
  | next =>
    exact ⟨.some (h.alike_pull hd files), (h.levels_pull hd files).2, h.unread, hbounds, hbalanced⟩
  | read count =>
    obtain ⟨-, hlevels, hunread⟩ := h.read hd files count
    refine ⟨?_, hlevels, hunread, hbounds, hbalanced⟩
    simp only [DiskStream.act, h.pulls_iff count]
    by_cases hp : t.Pulls count
    · rw [if_pos hp, if_pos hp]
      exact .some (h.alike_pull hd files)
    · rw [if_neg hp, if_neg hp]
      exact .none
  | destroy =>
    have hlevels : LevelsLike d d' p s.destroy.levels t.destroy.levels := by
      refine ⟨h.levels.plan_eq, h.levels.given_eq, rfl, .none, h.levels.hasParts, ?_⟩
      intro bytes he
      cases he
    exact ⟨.none, hlevels, ⟨0, .refl _ _ _⟩, hbounds, hbalanced⟩

theorem after (hd : d.Resembles places d') (h : s.Like places p t)
    (steps : List (Files × Action)) : (s.after steps).Like places p (t.after steps) := by
  induction steps generalizing s t with
  | nil => exact h
  | cons step more ih => exact ih (h.act hd step.1 step.2).2

end Like

/-- Streams that are at the same position and bring the same, however they are used next. -/
structure Agree (same : Nat → ByteArray → ByteArray → Prop) (files : Files) (s : DiskStream d)
    (t : DiskStream d') : Prop where
  position_eq : s.position = t.position
  pulled : ∀ a, Option.Rel (Pulled.Alike (same s.position)) (s.act files a).1 (t.act files a).1
  read : ∀ count, ∃ place, ReadAlike (same place) (s.read files count).1 (t.read files count).1

theorem Agree.mono {same same' : Nat → ByteArray → ByteArray → Prop} {files : Files}
    (h : s.Agree same files t)
    (hs : ∀ place bytes bytes', same place bytes bytes' → same' place bytes bytes') :
    s.Agree same' files t where
  position_eq := h.position_eq
  pulled a := by
    have hpulled := h.pulled a
    generalize (s.act files a).1 = p at hpulled ⊢
    generalize (t.act files a).1 = q at hpulled ⊢
    cases hpulled with
    | none => exact .none
    | some halike => exact .some (halike.mono (hs _))
  read count := by
    obtain ⟨place, hread⟩ := h.read count
    exact ⟨place, hread.mono (hs place)⟩

theorem Like.agree (hd : d.Resembles places d') (h : s.Like places p t)
    (files : Files) : s.Agree (AlikeBut (footerPlaces p.size places)) files t where
  position_eq := h.position_eq
  pulled a := (h.act hd files a).1
  read count := (h.read hd files count).1

theorem like_of_stream {request : RangeRequest} (hd : d.Resembles places d')
    (hs : d.stream request = .ok s) (ht : d'.stream request = .ok t) :
    s.Like places s.levels.plan t := by
  have hbalanced := balanced_of_stream hs
  have hlength : d.flattenedLength = d'.flattenedLength :=
    congrArg (· + Footer.size) hd.top.size_eq
  obtain ⟨-, rfl⟩ := stream_eq_ok_iff.mp hs
  obtain ⟨-, rfl⟩ := stream_eq_ok_iff.mp ht
  rw [← hlength, ← hd.bufferSize_eq]
  exact ⟨.ofRange hd.top fun _ => ⟨rfl, rfl⟩, ⟨0, .refl _ _ _⟩, rfl, hbalanced⟩

end DiskStream

namespace Disk

variable {d d' : Disk} {places : Nat → Prop} {files : Files} {o : OpenOptions} {path : Path}
  {tag tag' : Option (Vector UInt8 4)}

def StreamsAgree (same : Nat → ByteArray → ByteArray → Prop) (d d' : Disk) : Prop :=
  ∀ request, (∀ e, d.stream request = .error e ↔ d'.stream request = .error e) ∧
    ∀ s, d.stream request = .ok s → ∃ t, d'.stream request = .ok t ∧
      ∀ steps files, (s.after steps).Agree same files (t.after steps)

theorem Resembles.stream_error_iff (hd : d.Resembles places d') (request : RangeRequest)
    (e : Error) : d.stream request = .error e ↔ d'.stream request = .error e := by
  have hlength : d.flattenedLength = d'.flattenedLength :=
    congrArg (· + Footer.size) hd.top.size_eq
  rw [stream, stream, ← hlength]
  by_cases ha : request.isAligned = true
  · rw [if_pos ha, if_pos ha]
    exact ⟨fun h => (nomatch h), fun h => (nomatch h)⟩
  · rw [if_neg ha, if_neg ha, Except.error.injEq, Except.error.injEq]

theorem Resembles.streamsAgree (hd : d.Resembles places d') :
    d.StreamsAgree (AlikeBut (footerPlaces d.size places)) d' := by
  intro request
  refine ⟨hd.stream_error_iff request, fun s hs => ?_⟩
  obtain ⟨haligned, hstart⟩ := DiskStream.stream_eq_ok_iff.mp hs
  obtain ⟨t, ht⟩ := DiskStream.stream_of_aligned d' haligned
  have hsize : s.levels.plan.size = d.size := by
    rw [hstart]
    rfl
  refine ⟨t, ht, fun steps files => ?_⟩
  have hlike := (DiskStream.like_of_stream hd hs ht).after hd steps
  exact hsize ▸ hlike.agree hd files

/-- With the same footer at the end the streams are the same. -/
theorem Resembles.streamsAgree_eq (hd : d.Resembles (fun _ => False) d') :
    d.StreamsAgree (fun _ => Eq) d' := by
  intro request
  obtain ⟨herror, hok⟩ := hd.streamsAgree request
  refine ⟨herror, fun s hs => ?_⟩
  obtain ⟨t, ht, hagree⟩ := hok s hs
  refine ⟨t, ht, fun steps files => (hagree steps files).mono fun place bytes bytes' hbytes => ?_⟩
  exact hbytes.eq_of_nowhere fun o ho => ho.elim fun _ hi => hi.1

theorem resembles_retagged
    (hf : d.top.flattenedFooter.AgreeBut places (d.top.footer.toFixed tag)) :
    d.Resembles places (d.retagged tag) where
  top := ⟨rfl, rfl, rfl⟩
  ancestors := List.forall₂_map_right_iff.mpr (List.forall₂_same.mpr fun _ _ => ⟨rfl, rfl, rfl⟩)
  bufferSize_eq := rfl
  footer := hf

/-- What another tag makes of a disk: another footer at its end. -/
structure DiffersInTag (d d' : Disk) : Prop where
  footers : d.top.flattenedFooter.AgreeBut Footer.IsTagged d'.top.flattenedFooter
  isIntact : d.top.footer.diskType ≠ .fixed →
    d.top.flattenedFooter.isIntact = true ∧ d'.top.flattenedFooter.isIntact = true
  streams : d.StreamsAgree (AlikeBut (footerPlaces d.size Footer.IsTagged)) d'
  fixed : d.top.footer.diskType = .fixed →
    d.top.flattenedFooter = d'.top.flattenedFooter ∧ d.StreamsAgree (fun _ => Eq) d'
  ancestors : ∀ chain, List.Forall₂ Level.Resembles d.ancestors chain →
    d.StreamsAgree (fun _ => Eq) ⟨d.top, chain⟩

theorem differsInTag_retagged
    (h : Disk.open files { o with creator := tag } path = .ok d) (tag' : Option (Vector UInt8 4)) :
    d.DiffersInTag (d.retagged tag') := by
  have hfooter := (chained_of_open h).hasFooter
  have hflat : d.top.flattenedFooter = d.top.footer.toFixed tag := hfooter.flattened_eq
  have htype := (Footer.reads_of_ofSector hfooter.ofSector_eq).converted_eq
  have hfooters : d.top.flattenedFooter.AgreeBut Footer.IsTagged (d.top.footer.toFixed tag') := by
    intro i hi hn
    rw [hflat]
    exact d.top.footer.getElem_toFixed tag tag' hi hn
  constructor
  case footers => exact hfooters
  case isIntact =>
    intro ht
    have hsparse : d.top.footer.convertedType ≠ .fixed := htype ▸ ht
    exact ⟨hflat ▸ Footer.isIntact_toFixed hsparse tag, Footer.isIntact_toFixed hsparse tag'⟩
  case streams => exact (resembles_retagged hfooters).streamsAgree
  case fixed =>
    intro ht
    have hfixed : d.top.footer.convertedType = .fixed := htype.trans ht
    have hsame : d.top.flattenedFooter = d.top.footer.toFixed tag' := by
      rw [hflat, Footer.toFixed_of_fixed hfixed, Footer.toFixed_of_fixed hfixed]
    exact ⟨hsame, (resembles_retagged (hsame ▸ .refl _)).streamsAgree_eq⟩
  case ancestors =>
    intro chain hchain
    exact Resembles.streamsAgree_eq ⟨⟨rfl, rfl, rfl⟩, hchain, rfl, .refl _⟩

/-- Another tag of the creator does not decide whether a disk is opened, and of the flattened
disk it changes the tag and the checksum in the footer only. -/
theorem tag_unseen (files : Files) (o : OpenOptions) (tag tag' : Option (Vector UInt8 4))
    (path : Path) :
    (∀ e, Disk.open files { o with creator := tag } path = .error e ↔
      Disk.open files { o with creator := tag' } path = .error e) ∧
    ∀ d, Disk.open files { o with creator := tag } path = .ok d →
      ∃ d', Disk.open files { o with creator := tag' } path = .ok d' ∧ d.DiffersInTag d' := by
  have hopen : Disk.open files { o with creator := tag' } path
      = (Disk.open files { o with creator := tag } path).map (Disk.retagged tag') :=
    openWithin_retagged tag tag'
  rw [hopen]
  constructor
  · intro e
    cases Disk.open files { o with creator := tag } path with
    | error e' => exact ⟨fun h => (by cases h; rfl), fun h => (by cases h; rfl)⟩
    | ok d => exact ⟨fun h => (nomatch h), fun h => (nomatch h)⟩
  · intro d hd
    rw [hd]
    exact ⟨_, rfl, differsInTag_retagged hd tag'⟩

/-- A pair of a differencing disk and its parent, opened with the tag that it has and with
another. -/
theorem tag_unseen_mixedPair :
    ∃ d d' : Disk, Disk.open (DiskStream.mixedPair 1024 (by decide)).files
          { DiskStream.unchecked with creator := none } ⟨"c"⟩ = .ok d ∧
      Disk.open (DiskStream.mixedPair 1024 (by decide)).files
          { DiskStream.unchecked with creator := some #v[0x74, 0x65, 0x73, 0x74] } ⟨"c"⟩ = .ok d' ∧
      d.depth = 2 ∧ d.DiffersInTag d' := by
  have hopen : Disk.open _ { DiskStream.unchecked with creator := none } _ = _ :=
    (DiskStream.mixedPair 1024 (by decide)).open_disk rfl
  obtain ⟨d', hopen', hdiffers⟩ := (tag_unseen _ DiskStream.unchecked none _ _).2 _ hopen
  exact ⟨_, d', hopen, hopen', rfl, hdiffers⟩

end Disk

end VirtualDisk
