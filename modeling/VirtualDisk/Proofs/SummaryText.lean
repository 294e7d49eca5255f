import VirtualDisk.Summary
import VirtualDisk.Proofs.Serialization

namespace VirtualDisk

section record

variable {p : Serializer}

theorem Form.Has.optional (h : p.Documented) {α : Type} {f : Form α} {write : α → Json}
    {value : Option α} (hf : ∀ a, value = some a → f.Has a (write a)) (hne : ∀ a, write a ≠ .null) :
    (p.option f).Has value (Json.optional write value) := by
  cases value with
  | none => exact h.none f
  | some a => exact h.some (hf a rfl) (hne a)

theorem Json.Plain.optional {α : Type} {write : α → Json} {depth : Nat}
    (h : ∀ a, (write a).Plain depth) (value : Option α) :
    (Json.optional write value).Plain depth := by
  cases value with
  | none => exact .null
  | some a => exact h a

theorem Json.Plain.zip {names : List String} {values : List Json} {depth : Nat}
    (hnames : names.Nodup) (hlength : names.length = values.length)
    (h : ∀ j ∈ values, j.Plain depth) : (Json.ofFields (names.zip values)).Plain (depth + 1) := by
  refine .record ?_ fun field hm => h field.2 (List.of_mem_zip hm).2
  rwa [List.map_fst_zip (Nat.le_of_eq hlength)]

end record

namespace ImageSummary

variable {p : Serializer}

/-- The time of the image, if it has one, is that of a timestamp. -/
def IsStamped (s : ImageSummary) : Prop :=
  ∀ t, s.created = some t → ∃ timestamp, t = Instant.ofTimestamp timestamp

def documents (s : ImageSummary) : List Json :=
  [.ofString s.path.text, .ofString s.diskType, .ofString s.uniqueId.text, .ofNat s.size.toNat,
    Json.optional (fun t => .ofString (Instant.textZulu t)) s.created, .ofString s.creator,
    Json.optional (fun n => .ofNat n.toNat) s.blockSize,
    Json.optional (fun n => .ofNat n.toNat) s.tableLength, .ofNat s.storedBlocks.toNat,
    Json.optional (fun id => .ofString id.text) s.parentId]

def document (s : ImageSummary) : Json := .ofFields (fieldNames.zip s.documents)

theorem IsStamped.has_document {s : ImageSummary} (hs : s.IsStamped) (h : p.Documented) :
    (form p).Has s s.document := by
  have htime : (p.option p.time).Has s.created
      (Json.optional (fun t => .ofString (Instant.textZulu t)) s.created) := by
    refine .optional h ?_ fun t ht => (nomatch ht)
    intro t ht
    obtain ⟨timestamp, rfl⟩ := hs t ht
    exact h.time timestamp
  have hword (value : Option UInt32) :
      (p.option p.word32).Has value (Json.optional (fun n => .ofNat n.toNat) value) :=
    .optional h (fun n _ => h.word32 n) fun n hn => (nomatch hn)
  have hid : (p.option p.id).Has s.parentId
      (Json.optional (fun id => .ofString id.text) s.parentId) :=
    .optional h (fun id _ => h.id id) fun id hn => (nomatch hn)
  have hvalues : s.fieldValues p = s.documents := by
    simp only [fieldValues, documents, (h.path _).write, (h.text _).write, (h.id _).write,
      (h.word64 _).write, htime.write, (hword _).write, hid.write]
  have hread : ofFieldValues? p (s.documents.map some) = some s := by
    simp only [ofFieldValues?, documents, List.map_cons, List.map_nil, (h.path _).read?,
      (h.text _).read?, (h.id _).read?, (h.word64 _).read?, htime.read?, (hword _).read?,
      hid.read?]
    rfl
  exact h.has_record (by decide) rfl hvalues hread

theorem plain_document (s : ImageSummary) (depth : Nat) : s.document.Plain (depth + 1) := by
  apply Json.Plain.zip (by decide) rfl
  have hword (n : UInt32) : (Json.ofNat n.toNat).Plain depth :=
    .number (Nat.lt_trans n.toNat_lt (by decide))
  simp only [documents, List.forall_mem_cons]
  exact ⟨.text _, .text _, .text _, .number s.size.toNat_lt, .optional (fun _ => .text _) _,
    .text _, .optional hword _, .optional hword _, .number s.storedBlocks.toNat_lt,
    .optional (fun _ => .text _) _, List.forall_mem_nil _⟩

end ImageSummary

namespace ChainSummary

variable {p : Serializer}

/-- The times of the images are those of timestamps. -/
def IsStamped (s : ChainSummary) : Prop := ∀ image ∈ s.images, image.IsStamped

def documents (s : ChainSummary) : List Json :=
  [.array (s.images.map ImageSummary.document), .ofNat s.flattenedLength.toNat]

def document (s : ChainSummary) : Json := .ofFields (fieldNames.zip s.documents)

theorem IsStamped.has_document {s : ChainSummary} (hs : s.IsStamped) (h : p.Documented) :
    (form p).Has s s.document := by
  have himages : (p.list (ImageSummary.form p)).Has s.images
      (.array (s.images.map ImageSummary.document)) := by
    apply h.list
    rw [List.forall₂_map_right_iff, List.forall₂_same]
    exact fun image hm => (hs image hm).has_document h
  have hvalues : s.fieldValues p = s.documents := by
    simp only [fieldValues, documents, himages.write, (h.word64 _).write]
  have hread : ofFieldValues? p (s.documents.map some) = some s := by
    simp only [ofFieldValues?, documents, List.map_cons, List.map_nil, himages.read?,
      (h.word64 _).read?]
    rfl
  exact h.has_record (by decide) rfl hvalues hread

theorem plain_document (s : ChainSummary) : s.document.Plain 127 := by
  apply Json.Plain.zip (by decide) rfl
  simp only [documents, List.forall_mem_cons]
  exact ⟨.list (List.forall_mem_map.mpr fun image _ => image.plain_document 124),
    .number s.flattenedLength.toNat_lt, List.forall_mem_nil _⟩

theorem IsStamped.read_write {s : ChainSummary} (hs : s.IsStamped) (h : p.Documented) :
    p.readSummary? (p.writeSummary s) = some s := by
  have hdocument := hs.has_document h
  have hparse : p.parse? (p.write s.document) = some s.document :=
    h.reads s.plain_document (h.writes s.plain_document)
  rw [Serializer.readSummary?, Serializer.writeSummary, hdocument.write, hparse, Option.bind_some,
    hdocument.read?]

theorem isStamped_summary (d : Disk) : d.summary.IsStamped := by
  refine List.forall_mem_map.mpr ?_
  intro level _ t ht
  exact ⟨level.footer.timestamp, (Option.some.inj ht).symm⟩

/-- A summary that is written is read back, and so is the summary of each disk. If a text is read
as a summary, what is written of the summary is read as the same. -/
theorem reads_back (p : Serializer) (h : p.Documented) :
    (∀ s : ChainSummary, s.IsStamped → p.readSummary? (p.writeSummary s) = some s) ∧
    (∀ text s, p.readSummary? text = some s → s.IsStamped →
      ((p.readSummary? text).map p.writeSummary).bind p.readSummary? = p.readSummary? text) ∧
    ∀ d : Disk, p.readSummary? (p.writeSummary d.summary) = some d.summary := by
  refine ⟨fun _ hs => hs.read_write h, ?_, fun d => (isStamped_summary d).read_write h⟩
  intro text s hread hs
  rw [hread, Option.map_some, Option.bind_some, hs.read_write h]

/-- A summary with characters that are escaped and with the last of all timestamps. -/
def escaped : ChainSummary where
  images := [{
    path := ⟨"\"é\"\\\n"⟩
    diskType := DiskType.differencing.name
    uniqueId := ⟨Vector.replicate 16 255⟩
    size := 18446744073709551615
    created := some (Instant.ofTimestamp 4294967295)
    creator := ""
    blockSize := some 512
    tableLength := none
    storedBlocks := 0
    parentId := some ⟨Vector.replicate 16 0⟩ }]
  flattenedLength := 512

/-- Documents that are written are read back, and those with a blank in front are written without
it. -/
theorem reads_back_escaped :
    Serializer.standard.Documented ∧ escaped.IsStamped ∧ read? escaped.write = some escaped ∧
      read? ("\n" ++ escaped.write) = some escaped ∧
      ((read? ("\n" ++ escaped.write)).map write).bind read? = read? ("\n" ++ escaped.write) := by
  have hstandard := Serializer.documented_standard
  have hstamped : escaped.IsStamped := by
    refine List.forall_mem_singleton.mpr ?_
    intro t ht
    exact ⟨4294967295, (Option.some.inj ht).symm⟩
  have hdocument := hstamped.has_document hstandard
  have hspelled : escaped.document.IsSpelledBy ("\n" ++ escaped.write) := by
    have hwrite : escaped.write = Serializer.standard.write escaped.document :=
      congrArg Serializer.standard.write hdocument.write
    rw [Json.IsSpelledBy, String.toList_append, hwrite]
    exact .blank rfl (hstandard.writes escaped.plain_document)
  have hread : read? ("\n" ++ escaped.write) = some escaped := by
    rw [read?, Serializer.readSummary?, hstandard.reads escaped.plain_document hspelled,
      Option.bind_some, hdocument.read?]
  obtain ⟨hwritten, hagain, -⟩ := reads_back Serializer.standard hstandard
  exact ⟨hstandard, hstamped, hwritten escaped hstamped, hread, hagain _ escaped hread hstamped⟩

end ChainSummary

end VirtualDisk
