import VirtualDisk.Files

namespace VirtualDisk

inductive Node where
  | file (place : Place)
  | directory (place : Place)
deriving DecidableEq

/-- Directories and files, each under the names that lead to it from the root. -/
structure FileTree where
  workingDirectory : Place
  directories : List Place
  files : List (Place × ByteArray)

namespace FileTree

def empty : FileTree := ⟨["tmp".toList, "disks".toList], [], []⟩

def contents? (t : FileTree) (place : Place) : Option ByteArray := t.files.lookup place

def contents (t : FileTree) (place : Place) : ByteArray :=
  (t.contents? place).getD ByteArray.empty

/-- The working directory exists, and so does all that it lies in. -/
def isDirectory (t : FileTree) (place : Place) : Bool :=
  place.isPrefixOf t.workingDirectory || t.directories.contains place

def nodeAt? (t : FileTree) (place : Place) : Option Node :=
  if (t.contents? place).isSome then some (.file place)
  else if t.isDirectory place then some (.directory place)
  else none

def nameLimit : Nat := 255

def pathLimit : Nat := 4096

/-- One step from a directory. No step leads out of the root. -/
def step (t : FileTree) (place : Place) (part : List Char) : Except FileFault Node :=
  if Path.isBlank part then .ok (.directory place)
  else if part = ['.', '.'] then .ok (.directory place.dropLast)
  else if nameLimit < (String.ofList part).utf8ByteSize then .error .invalidFilename
  else match t.nodeAt? (place ++ [part]) with
    | some node => .ok node
    | none => .error .notFound

/-- Each step must leave a directory, so a slash or a dot behind the name of a file leads
nowhere. -/
def walk (t : FileTree) : Node → List (List Char) → Except FileFault Node
  | node, [] => .ok node
  | .file _, _ :: _ => .error .notADirectory
  | .directory place, part :: rest => do t.walk (← t.step place part) rest

def origin (t : FileTree) (p : Path) : Place :=
  if Path.isAbsolute p.text.toList then [] else t.workingDirectory

def resolve (t : FileTree) (p : Path) : Except FileFault Node :=
  let chars := p.text.toList
  if chars.contains '\x00' then .error .invalidInput
  else if chars.isEmpty then .error .notFound
  else if pathLimit ≤ p.text.utf8ByteSize then .error .invalidFilename
  else t.walk (.directory (t.origin p)) (Path.parts chars)

def faultText : FileFault → String
  | .notFound => "No such file or directory (os error 2)"
  | .notADirectory => "Not a directory (os error 20)"
  | .isADirectory => "Is a directory (os error 21)"
  | .invalidFilename => "File name too long (os error 36)"
  | .invalidInput => "file name contained an unexpected NUL byte"
  | .unexpectedEof => "failed to fill whole buffer"
  | .invalidData => "invalid data"

def isFile (t : FileTree) (p : Path) : Bool :=
  match t.resolve p with
  | .ok (.file _) => true
  | _ => false

def openFile (t : FileTree) (p : Path) : Except Error Place :=
  match t.resolve p with
  | .ok (.file place) => .ok place
  | .ok (.directory _) => .error (.file .isADirectory (faultText .isADirectory))
  | .error fault => .error (.file fault (faultText fault))

/-- Every regular file can be opened, and nothing else can. -/
theorem isFile_iff (t : FileTree) (p : Path) :
    t.isFile p = true ↔ ∃ place, t.openFile p = .ok place := by
  unfold isFile openFile
  cases t.resolve p with
  | error fault => simp
  | ok node => cases node <;> simp

def host (t : FileTree) : Files where
  isFile := t.isFile
  openFile := t.openFile
  contents := t.contents

instance : Coe FileTree Files := ⟨host⟩

/-- The places through which a path leads, nearest first; stepping back up undoes a step. -/
def ancestry : List (List Char) → List Place → Place → List Place
  | [], visited, _ => visited
  | part :: rest, visited, current =>
    if Path.isBlank part then ancestry rest visited current
    else
      let next := if part = ['.', '.'] then current.dropLast else current ++ [part]
      ancestry rest (next :: visited) next

def addDirectory (t : FileTree) (p : Path) : FileTree :=
  { t with directories := ancestry (Path.parts p.text.toList) [] (t.origin p) ++ t.directories }

/-- The tree with the contents of a file written, its directories included. A file that is already
there keeps its place. -/
def write (t : FileTree) (p : Path) (contents : ByteArray) : FileTree :=
  match ancestry (Path.parts p.text.toList) [] (t.origin p) with
  | [] => t
  | place :: before =>
    { t with
      directories := before ++ t.directories
      files := (place, contents) :: t.files.filter (·.1 ≠ place) }

end FileTree

end VirtualDisk
