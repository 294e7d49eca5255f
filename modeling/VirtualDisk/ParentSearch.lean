import VirtualDisk.Level

namespace VirtualDisk

namespace ParentSearch

def distinct : List Path → List Path
  | [] => []
  | p :: rest => p :: (distinct rest).filter fun q => !p.equiv q

def listed (child : Path) (name : String) (locators : List ParentLocator) : List Path :=
  let relative := (SparseHeader.texts locators ParentLocator.relativeCode).map fun text =>
    child.directory.join ⟨Path.withSlashes text⟩
  let absolute := (SparseHeader.texts locators ParentLocator.absoluteCode).map fun text =>
    Path.mk (Path.withSlashes text)
  let named :=
    if name = "" then []
    else
      let path : Path := ⟨Path.withSlashes name⟩
      path :: (path.fileName?.map child.directory.join).toList
  relative ++ absolute ++ named

def candidates (child : Path) (name : String) (locators : List ParentLocator) : List Path :=
  distinct (listed child name locators)

/-- The identifier of an image. No more of it is read than its last footer. -/
def peek (files : Files) (path : Path) : Except Error UniqueId := do
  let place ← files.openFile path
  return (← lastFooter (files.contents place)).uniqueId

def outcome (files : Files) (expected : UniqueId) (candidate : Path) : Outcome :=
  if files.isFile candidate then
    match peek files candidate with
    | .error e => .unreadable e.text
    | .ok id => if id = expected then .accepted else .mismatch id
  else .missing

def attempt (files : Files) (expected : UniqueId) : List Path → Option Path × List Attempt
  | [] => (none, [])
  | candidate :: rest =>
    let tried : Attempt := ⟨candidate, outcome files expected candidate⟩
    if tried.outcome = .accepted then (some candidate, [tried])
    else
      let (found, attempts) := attempt files expected rest
      (found, tried :: attempts)

def find (files : Files) (child : Path) (header : SparseHeader) :
    Except Error (Path × List Attempt) :=
  match attempt files header.parentId (candidates child header.parentName header.locators) with
  | (some parent, attempts) => .ok (parent, attempts)
  | (none, attempts) => .error (.parentNotFound child attempts)

end ParentSearch

end VirtualDisk
