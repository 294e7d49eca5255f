import VirtualDisk.Disk
import VirtualDisk.Stream.ChainStream
import VirtualDisk.Text.Quoted

namespace VirtualDisk

structure RangeRequest where
  start? : Option Nat
  last? : Option Nat
  bufferSize? : Option Nat

structure DiskStream (d : Disk) where
  levels : LevelStream (ChainStream d.ancestors)
  unread : ByteArray

namespace RangeRequest

def isAligned (r : RangeRequest) : Bool :=
  r.start?.all (· % sectorSize = 0) && r.last?.all (· % sectorSize = sectorSize - 1)

def start (r : RangeRequest) : Nat := r.start?.getD 0

def stop (r : RangeRequest) (total : Nat) : Nat :=
  match r.last? with
  | some last => min (last + 1) total
  | none => total

end RangeRequest

def Disk.stream (d : Disk) (r : RangeRequest) : Except Error (DiskStream d) :=
  if r.isAligned then
    .ok ⟨LevelStream.ofRange d.top r.start (r.stop d.flattenedLength)
      (.ofNat (r.bufferSize?.getD d.top.options.bufferSize)), ByteArray.empty⟩
  else .error (.misaligned r.start (r.last?.getD (d.flattenedLength - 1)) sectorSize)

namespace DiskStream

variable {d : Disk}

def stop (s : DiskStream d) : Nat := s.levels.plan.stop

def length (s : DiskStream d) : Nat := s.stop - s.levels.plan.start

def isEmpty (s : DiskStream d) : Bool := s.length == 0

def position (s : DiskStream d) : Nat := s.levels.plan.start + s.levels.given

def isReadable (s : DiskStream d) : Bool :=
  s.levels.phase = .streaming || s.levels.phase = .finished

def destroy (s : DiskStream d) : DiskStream d :=
  ⟨{ s.levels with active := none, phase := .destroyed }, ByteArray.empty⟩

def source (d : Disk) : Source Files (LevelStream (ChainStream d.ancestors)) :=
  ChainStream.source d.levels

def next (files : Files) (s : DiskStream d) : Pulled × DiskStream d :=
  let (pulled, levels) := (source d).pull files s.levels
  (pulled, { s with levels })

def closed? (s : DiskStream d) : Option Error :=
  match s.levels.phase with
  | .failed => some (.unreadable .failedEarlier)
  | .destroyed => some (.unreadable .destroyed)
  | .streaming | .finished => none

/-- The unread bytes of a stream, or those of its next chunk if there are none.
At the end there are no more. -/
def fill (files : Files) (s : DiskStream d) : Except Error ByteArray × DiskStream d :=
  if 0 < s.unread.size then (.ok s.unread, s)
  else match s.closed? with
    | some e => (.error e, s)
    | none =>
      match s.next files with
      | (.chunk bytes, rest) => (.ok bytes, { rest with unread := bytes })
      | (.failed e, rest) => (.error e, rest)
      | (.ended, rest) => (.ok ByteArray.empty, rest)

/-- Reads at most `count` bytes, all from one chunk; none at the end. -/
def read (files : Files) (s : DiskStream d) (count : Nat) :
    Except Error ByteArray × DiskStream d :=
  if count = 0 then (.ok ByteArray.empty, s)
  else match s.fill files with
    | (.ok bytes, rest) =>
      (.ok (slice bytes 0 count), { rest with unread := slice bytes count bytes.size })
    | (.error e, rest) => (.error e, rest)

/-- A read whose errors are those of a reader of plain bytes. -/
def readPlain (files : Files) (s : DiskStream d) (count : Nat) :
    Except ReaderError ByteArray × DiskStream d :=
  ((s.read files count).1.mapError Error.toReader, (s.read files count).2)

theorem budget_next {files : Files} {s rest : DiskStream d} {pulled : Pulled}
    (h : s.next files = (pulled, rest)) :
    (source d).budget rest.levels + pulled.cost ≤ (source d).budget s.levels := by
  cases h
  exact (source d).budget_pull files s.levels

theorem budget_fill {files : Files} {s rest : DiskStream d} {bytes : ByteArray}
    (h : s.fill files = (.ok bytes, rest)) (hb : ¬bytes.isEmpty) :
    (source d).budget rest.levels < s.unread.size + (source d).budget s.levels := by
  unfold fill at h
  split at h
  · cases h; omega
  · split at h
    · cases h
    · split at h
      · next hn =>
        cases h
        have := budget_next hn
        have := Pulled.cost_pos bytes
        simp only
        omega
      · cases h
      · cases h; exact absurd rfl hb

def readToEnd (files : Files) (s : DiskStream d) (before : ByteArray) :
    (ByteArray × Option Error) × DiskStream d :=
  match _h : s.fill files with
  | (.error e, rest) => ((before, some e), rest)
  | (.ok bytes, rest) =>
    if _hb : bytes.isEmpty then ((before, none), rest)
    else readToEnd files { rest with unread := ByteArray.empty } (before ++ bytes)
termination_by s.unread.size + (source d).budget s.levels
decreasing_by
  have := budget_fill _h _hb
  simp only [ByteArray.size_empty]
  omega

def phaseText : Phase → String
  | .streaming => "Streaming"
  | .finished => "Finished"
  | .failed => "Failed"
  | .destroyed => "Destroyed"

def pieceText {π : Type} : Piece π → String
  | .file range => s!"FileRange({range.remaining} left)"
  | .zeros run => s!"ZeroFill({run.remaining} left)"
  | .inherited _ => "Parent"
  | .footer _ => "Footer"
  | .merge _ => "Merge"

def text (s : DiskStream d) : String :=
  let active := match s.levels.active with
    | some piece => s!"Some({pieceText piece})"
    | none => "None"
  s!"VhdReadStream \x7b path: {Quoted.encode d.top.path.text}, start: {s.levels.plan.start}"
    ++ s!", end: {s.stop}, position: {s.position}, state: {phaseText s.levels.phase}"
    ++ s!", active: {active} \x7d"

end DiskStream

end VirtualDisk
