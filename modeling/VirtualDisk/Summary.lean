import VirtualDisk.Disk
import VirtualDisk.Serializer

namespace VirtualDisk

structure ImageSummary where
  path : Path
  diskType : String
  uniqueId : UniqueId
  size : UInt64
  created : Option Instant
  creator : String
  blockSize : Option UInt32
  tableLength : Option UInt32
  storedBlocks : UInt64
  parentId : Option UniqueId
deriving DecidableEq

structure ChainSummary where
  images : List ImageSummary
  flattenedLength : UInt64
deriving DecidableEq

def Level.summary (l : Level) : ImageSummary where
  path := l.path
  diskType := l.footer.diskType.name
  uniqueId := l.footer.uniqueId
  size := UInt64.ofNat l.footer.currentSize
  created := some l.footer.created
  creator := l.footer.creatorText
  blockSize := l.sparse.map fun s => UInt32.ofNat s.header.blockSize.bytes
  tableLength := l.sparse.map fun s => UInt32.ofNat s.header.tableLength
  storedBlocks := UInt64.ofNat l.indices.length
  parentId := if l.isDifferencing then l.sparse.map (·.header.parentId) else none

def Disk.summary (d : Disk) : ChainSummary where
  images := d.levels.map Level.summary
  flattenedLength := UInt64.ofNat d.flattenedLength

namespace ImageSummary

def fieldNames : List String :=
  ["path", "disk_type", "unique_id", "current_size", "created", "creator_application",
    "block_size", "max_table_entries", "allocated_blocks", "parent_unique_id"]

def fieldValues (p : Serializer) (s : ImageSummary) : List Json :=
  [p.path.write s.path, p.text.write s.diskType, p.id.write s.uniqueId, p.word64.write s.size,
    (p.option p.time).write s.created, p.text.write s.creator,
    (p.option p.word32).write s.blockSize, (p.option p.word32).write s.tableLength,
    p.word64.write s.storedBlocks, (p.option p.id).write s.parentId]

def ofFieldValues? (p : Serializer) (values : List (Option Json)) : Option ImageSummary := do
  let [path, diskType, uniqueId, size, created, creator, blockSize, tableLength, storedBlocks,
    parentId] := values | none
  return {
    path := ← p.path.read? path
    diskType := ← p.text.read? diskType
    uniqueId := ← p.id.read? uniqueId
    size := ← p.word64.read? size
    created := ← (p.option p.time).read? created
    creator := ← p.text.read? creator
    blockSize := ← (p.option p.word32).read? blockSize
    tableLength := ← (p.option p.word32).read? tableLength
    storedBlocks := ← p.word64.read? storedBlocks
    parentId := ← (p.option p.id).read? parentId }

def form (p : Serializer) : Form ImageSummary :=
  p.record fieldNames (fieldValues p) (ofFieldValues? p)

end ImageSummary

namespace ChainSummary

def fieldNames : List String := ["images", "flattened_length"]

def fieldValues (p : Serializer) (s : ChainSummary) : List Json :=
  [(p.list (ImageSummary.form p)).write s.images, p.word64.write s.flattenedLength]

def ofFieldValues? (p : Serializer) (values : List (Option Json)) : Option ChainSummary := do
  let [images, flattenedLength] := values | none
  return {
    images := ← (p.list (ImageSummary.form p)).read? images
    flattenedLength := ← p.word64.read? flattenedLength }

def form (p : Serializer) : Form ChainSummary :=
  p.record fieldNames (fieldValues p) (ofFieldValues? p)

end ChainSummary

def Serializer.writeSummary (p : Serializer) (s : ChainSummary) : String :=
  p.write ((ChainSummary.form p).write s)

def Serializer.readSummary? (p : Serializer) (text : String) : Option ChainSummary :=
  (p.parse? text).bind fun j => (ChainSummary.form p).read? (some j)

namespace ChainSummary

def write (s : ChainSummary) : String := Serializer.standard.writeSummary s

def read? (text : String) : Option ChainSummary := Serializer.standard.readSummary? text

end ChainSummary

end VirtualDisk
