import VirtualDisk.Proofs.Acceptance
import VirtualDisk.Proofs.Observation
import VirtualDisk.Proofs.Resolution

namespace VirtualDisk

def OpenOptions.verifying (o : OpenOptions) (verifyChecksums : Bool) : OpenOptions :=
  { o with verifyChecksums }

theorem OpenOptions.checkIntact_verifying {o : OpenOptions} {verify isIntact : Bool} {what : String}
    {path : Path} {done : Unit} :
    (o.verifying verify).checkIntact isIntact what path = .ok done ↔
      (verify = true → isIntact = true) := by
  unfold checkIntact verifying
  cases verify <;> cases isIntact <;> simp

def Level.IsIntact (l : Level) : Prop :=
  l.footer.isIntact = true ∧ ∀ layout, l.sparse = some layout → layout.header.isIntact = true

theorem SparseHeader.isIntact_loaded (contents : ByteArray) (type : DiskType) (h : SparseHeader) :
    (h.loaded contents type).isIntact = h.isIntact := by
  unfold loaded
  split <;> rfl

section read

variable {files : Files} {o : OpenOptions} {path : Path} {contents : ByteArray} {footer : Footer}

theorem SparseLayout.readHeader_verifying (header : SparseHeader) :
    readHeader (o.verifying true) path contents footer = .ok header ↔
      readHeader (o.verifying false) path contents footer = .ok header ∧
      header.isIntact = true := by
  unfold readHeader
  cases footer.dataOffset with
  | none => exact ⟨fun h => (nomatch h), fun h => (nomatch h.1)⟩
  | some offset =>
    have hloaded {parsed : SparseHeader}
        (hl : parsed.loading contents footer.diskType = .ok header) :
        header.isIntact = parsed.isIntact := by
      rw [← parsed.isIntact_loaded contents footer.diskType, SparseHeader.loaded_of_loading hl]
    simp only [bind_eq_ok, OpenOptions.checkIntact_verifying]
    constructor
    · rintro ⟨bytes, hbytes, parsed, hparse, _, hcheck, hl⟩
      refine ⟨⟨bytes, hbytes, parsed, hparse, (), nofun, hl⟩, ?_⟩
      rw [hloaded hl]
      exact hcheck trivial
    · rintro ⟨⟨bytes, hbytes, parsed, hparse, _, -, hl⟩, hintact⟩
      rw [hloaded hl] at hintact
      exact ⟨bytes, hbytes, parsed, hparse, (), fun _ => hintact, hl⟩

theorem SparseLayout.read_verifying (layout : SparseLayout) :
    read (o.verifying true) path contents footer = .ok layout ↔
      read (o.verifying false) path contents footer = .ok layout ∧
        layout.header.isIntact = true := by
  unfold read
  simp only [bind_eq_ok, readHeader_verifying]
  constructor
  · rintro ⟨header, ⟨hheader, hintact⟩, table, htable, hl⟩
    refine ⟨⟨header, hheader, table, htable, hl⟩, ?_⟩
    cases hl
    exact hintact
  · rintro ⟨⟨header, hheader, table, htable, hl⟩, hintact⟩
    cases hl
    exact ⟨header, ⟨hheader, hintact⟩, table, htable, rfl⟩

namespace Level

theorem readLayout_verifying (sparse : Option SparseLayout) :
    readLayout (o.verifying true) path contents footer = .ok sparse ↔
      readLayout (o.verifying false) path contents footer = .ok sparse ∧
        ∀ layout, sparse = some layout → layout.header.isIntact = true := by
  have hsparse : (SparseLayout.read (o.verifying true) path contents footer).map some = .ok sparse ↔
      (SparseLayout.read (o.verifying false) path contents footer).map some = .ok sparse ∧
        ∀ layout, sparse = some layout → layout.header.isIntact = true := by
    simp only [map_eq_ok, SparseLayout.read_verifying]
    constructor
    · rintro ⟨layout, ⟨hread, hintact⟩, rfl⟩
      exact ⟨⟨layout, hread, rfl⟩, fun found hf => Option.some.inj hf ▸ hintact⟩
    · rintro ⟨⟨layout, hread, rfl⟩, hintact⟩
      exact ⟨layout, ⟨hread, hintact layout rfl⟩, rfl⟩
  unfold readLayout
  cases footer.diskType with
  | fixed =>
    simp only
    split
    · exact ⟨fun h => (nomatch h), fun h => (nomatch h.1)⟩
    · rw [Except.ok.injEq]
      refine ⟨fun h => ⟨h, ?_⟩, And.left⟩
      rintro layout rfl
      cases h
  | dynamic => exact hsparse
  | differencing => exact hsparse
  | _ => exact ⟨fun h => (nomatch h), fun h => (nomatch h.1)⟩

theorem read_verifying (level : Level) :
    Level.read files (o.verifying true) path = .ok level ↔
      ∃ lax, Level.read files (o.verifying false) path = .ok lax ∧ lax.IsIntact ∧
        level = lax.withOptions (o.verifying true) := by
  unfold Level.read
  simp only [bind_eq_ok, OpenOptions.checkIntact_verifying, readLayout_verifying]
  constructor
  · rintro ⟨place, hplace, footer, hfooter, _, hcheck, sparse, ⟨hsparse, hintact⟩, hl⟩
    cases hl
    exact ⟨_, ⟨place, hplace, footer, hfooter, (), nofun, sparse, hsparse, rfl⟩,
      ⟨hcheck trivial, hintact⟩, rfl⟩
  · rintro ⟨lax, ⟨place, hplace, footer, hfooter, _, -, sparse, hsparse, hl⟩,
      ⟨hcheck, hintact⟩, rfl⟩
    cases hl
    exact ⟨place, hplace, footer, hfooter, (), fun _ => hcheck, sparse, ⟨hsparse, hintact⟩, rfl⟩

end Level

end read

namespace Disk

variable {files : Files} {o : OpenOptions} {path : Path}

theorem isIntact_above {level : Level} {attempts : List Attempt} {parent : Disk} :
    (∀ l ∈ (Disk.above { level with attempts } parent).levels, l.IsIntact) ↔
      level.IsIntact ∧ ∀ l ∈ parent.levels, l.IsIntact := by
  have habove : (Level.above { level with attempts } parent.top).IsIntact ↔ level.IsIntact := by
    unfold Level.IsIntact Level.above
    cases level.sparse <;> simp
  rw [← habove]
  exact List.forall_mem_cons

theorem openWithin_verifying {room : Nat} (d : Disk) :
    Disk.openWithin files (o.verifying true) room path = .ok d ↔
      ∃ lax, Disk.openWithin files (o.verifying false) room path = .ok lax ∧
        (∀ l ∈ lax.levels, l.IsIntact) ∧ d = lax.withOptions (o.verifying true) := by
  induction room generalizing path d with
  | zero => exact ⟨fun h => (nomatch h), fun ⟨_, h, _⟩ => (nomatch h)⟩
  | succ room ih =>
    simp only [openWithin_eq_ok, Level.read_verifying, ih]
    constructor
    · rintro ⟨_, ⟨level, hr, hintact, rfl⟩,
        ⟨hn, rfl⟩ | ⟨header, found, _, hh, hf, ⟨parent, hp, hparent, rfl⟩, rfl⟩⟩
      · exact ⟨⟨level, []⟩, ⟨level, hr, .inl ⟨hn, rfl⟩⟩, List.forall_mem_singleton.mpr hintact, rfl⟩
      · exact ⟨_, ⟨level, hr, .inr ⟨header, found, parent, hh, hf, hp, rfl⟩⟩,
          isIntact_above.mpr ⟨hintact, hparent⟩, rfl⟩
    · rintro ⟨_, ⟨level, hr, ⟨hn, rfl⟩ | ⟨header, found, parent, hh, hf, hp, rfl⟩⟩, hintact, rfl⟩
      · exact ⟨_, ⟨level, hr, List.forall_mem_singleton.mp hintact, rfl⟩, .inl ⟨hn, rfl⟩⟩
      · obtain ⟨hlevel, hparent⟩ := isIntact_above.mp hintact
        exact ⟨_, ⟨level, hr, hlevel, rfl⟩,
          .inr ⟨header, found, _, hh, hf, ⟨parent, hp, hparent, rfl⟩, rfl⟩⟩

theorem withOptions_of_openWithin {options : OpenOptions} {room : Nat} {d : Disk}
    (h : Disk.openWithin files options room path = .ok d) : d.withOptions options = d := by
  have hlevel {path : Path} {level : Level} (hr : Level.read files options path = .ok level) :
      level.withOptions options = level := by
    rw [← (Level.eq_of_read hr).2.1]
    rfl
  induction room generalizing path d with
  | zero => cases h
  | succ room ih =>
    obtain ⟨level, hr, ⟨-, rfl⟩ | ⟨header, found, parent, -, -, hp, rfl⟩⟩ := openWithin_eq_ok.mp h
    · exact congrArg (Disk.mk · []) (hlevel hr)
    · have habove : (Disk.above { level with attempts := found.2 } parent).withOptions options
          = Disk.above { level.withOptions options with attempts := found.2 }
            (parent.withOptions options) := rfl
      rw [habove, hlevel hr, ih hp]

/-- Verifying checksums, opening succeeds just if it does so without and every image of
the chain is intact. It then gives the same chain, and the streams look the same. -/
theorem open_verified (files : Files) (o : OpenOptions) (path : Path) :
    ((∃ d, Disk.open files (o.verifying true) path = .ok d) ↔
      ∃ lax, Disk.open files (o.verifying false) path = .ok lax ∧ ∀ l ∈ lax.levels, l.IsIntact) ∧
    ∀ d lax, Disk.open files (o.verifying true) path = .ok d →
      Disk.open files (o.verifying false) path = .ok lax →
      d = lax.withOptions (o.verifying true) ∧ lax = d.withOptions (o.verifying false) ∧
        ∀ request uses, (d.stream request).map (fun s => s.seen uses)
          = (lax.stream request).map fun s => s.seen uses := by
  have hopen := @openWithin_verifying files o path (Limits.chainDepth + 1)
  constructor
  · constructor
    · rintro ⟨d, hd⟩
      obtain ⟨lax, hlax, hintact, -⟩ := (hopen d).mp hd
      exact ⟨lax, hlax, hintact⟩
    · rintro ⟨lax, hlax, hintact⟩
      exact ⟨_, (hopen _).mpr ⟨lax, hlax, hintact, rfl⟩⟩
  · intro d lax hd hlax
    obtain ⟨found, hfound, -, rfl⟩ := (hopen d).mp hd
    cases hlax.symm.trans hfound
    have hoptions := withOptions_of_openWithin hlax
    have hback : (lax.withOptions (o.verifying true)).withOptions (o.verifying false)
        = lax.withOptions (o.verifying false) := by
      unfold Disk.withOptions
      rw [List.map_map]
      rfl
    have hbuffer : o.bufferSize = lax.top.options.bufferSize :=
      congrArg (fun disk => disk.top.options.bufferSize) hoptions
    exact ⟨rfl, by rw [hback, hoptions], DiskStream.seen_withOptions hbuffer⟩

end Disk

/-- The sum of a sector is too small for a checksum of zero. -/
theorem Draft.isIntact_footer {d : Draft} (h : d.footerSum = 0) : d.footer.isIntact = false := by
  have hstored : number d.footerSector 64 4 = 0 := by
    rw [footerSector, h]
    exact number_overwrite_self _ (by decide)
  have hlength : (outside d.footerSector 64).length = 508 := by simp [outside]
  have hsum := byteSum_le (outside d.footerSector 64)
  have hlt : byteSum (outside d.footerSector 64) < 4294967296 := by omega
  refine beq_false_of_ne fun h => ?_
  have hwhole : number d.footerSector 64 4 + byteSum (outside d.footerSector 64) = 4294967295 :=
    (checksum_eq_ofNat_iff hlt (number_lt _ _)).mp h
  omega

theorem Draft.isIntact_level_summed (d : Draft) (options : OpenOptions) (path : Path)
    (place : Place) :
    (d.summed.level options path place).IsIntact :=
  ⟨d.isIntact_footer_summed, fun _ hl => Option.some.inj hl ▸ d.isIntact_header_summed⟩

theorem DraftPair.isIntact_levels_summed (p : DraftPair) (options : OpenOptions) :
    ∀ l ∈ (p.summed.disk options).levels, l.IsIntact :=
  Disk.isIntact_above.mpr ⟨p.child.isIntact_level_summed options _ _,
    List.forall_mem_singleton.mpr (p.base.isIntact_level_summed options _ _)⟩

namespace Disk

/-- A pair of images with the right checksums opens either way. One without them opens
only if they are not verified. -/
theorem open_verified_mixedPair :
    (∃ d lax, Disk.open (DiskStream.mixedPair 1024 (by decide)).summed.files
        (DiskStream.unchecked.verifying true) ⟨"c"⟩ = .ok d ∧
      Disk.open (DiskStream.mixedPair 1024 (by decide)).summed.files
        (DiskStream.unchecked.verifying false) ⟨"c"⟩ = .ok lax ∧
      (∀ l ∈ lax.levels, l.IsIntact) ∧ lax = d.withOptions (DiskStream.unchecked.verifying false) ∧
      ∀ request uses, (d.stream request).map (fun s => s.seen uses)
        = (lax.stream request).map fun s => s.seen uses) ∧
    (∃ d, Disk.open (DiskStream.mixedPair 1024 (by decide)).files
      (DiskStream.unchecked.verifying false) ⟨"c"⟩ = .ok d) ∧
    ¬∃ d, Disk.open (DiskStream.mixedPair 1024 (by decide)).files
      (DiskStream.unchecked.verifying true) ⟨"c"⟩ = .ok d := by
  have hlax : (DiskStream.unchecked.verifying false).verifyChecksums = false := rfl
  have hopen := (DiskStream.mixedPair 1024 (by decide)).open_disk hlax
  refine ⟨?summed, ⟨_, hopen⟩, ?unsummed⟩
  case summed =>
    have hopen := (DiskStream.mixedPair 1024 (by decide)).summed.open_disk hlax
    have hintact := (DiskStream.mixedPair 1024 (by decide)).isIntact_levels_summed
      (DiskStream.unchecked.verifying false)
    have hverified := open_verified (DiskStream.mixedPair 1024 (by decide)).summed.files
      DiskStream.unchecked ⟨"c"⟩
    obtain ⟨d, hd⟩ := hverified.1.mpr ⟨_, hopen, hintact⟩
    obtain ⟨-, hback, hseen⟩ := hverified.2 d _ hd hopen
    exact ⟨d, _, hd, hopen, hintact, hback, hseen⟩
  case unsummed =>
    rw [(open_verified (DiskStream.mixedPair 1024 (by decide)).files DiskStream.unchecked ⟨"c"⟩).1]
    rintro ⟨d, hd, hintact⟩
    cases hopen.symm.trans hd
    have htop := (hintact _ List.mem_cons_self).1
    exact Bool.false_ne_true ((Draft.isIntact_footer rfl).symm.trans htop)

end Disk

end VirtualDisk
