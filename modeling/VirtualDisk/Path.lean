namespace VirtualDisk

inductive Component where
  | root
  | here
  | above
  | name (chars : List Char)
deriving DecidableEq

structure Path where
  text : String
deriving DecidableEq

namespace Path

def parts : List Char → List (List Char)
  | [] => [[]]
  | c :: rest =>
    if c = '/' then [] :: parts rest
    else match parts rest with
      | [] => [[c]]
      | part :: more => (c :: part) :: more

def unparts : List (List Char) → List Char
  | [] => []
  | [part] => part
  | part :: more => part ++ '/' :: unparts more

def isBlank (part : List Char) : Bool := part == [] || part == ['.']

def component? (part : List Char) : Option Component :=
  if isBlank part then none
  else if part = ['.', '.'] then some .above
  else some (.name part)

def isAbsolute (chars : List Char) : Bool := chars.head? == some '/'

def startsHere (chars : List Char) : Bool := (parts chars).head? == some ['.']

/-- The component that stands in front of the others, and how many characters
spell it. -/
def lead (chars : List Char) : Option Component × Nat :=
  if isAbsolute chars then (some .root, 1)
  else if startsHere chars then (some .here, 1)
  else (none, 0)

def components (p : Path) : List Component :=
  let chars := p.text.toList
  (lead chars).1.toList ++ (parts chars).filterMap component?

def equiv (p q : Path) : Bool := p.components == q.components

def fileName? (p : Path) : Option Path :=
  match p.components.getLast? with
  | some (.name chars) => some ⟨String.ofList chars⟩
  | _ => none

/-- The path without its last component, as far as it is written before it;
separators and dots at the end go with the component. The root and the empty
path have none. -/
def parent? (p : Path) : Option Path :=
  let chars := p.text.toList
  let (first, count) := lead chars
  match (parts (chars.drop count)).reverse.dropWhile isBlank with
  | [] => if first = some .here then some ⟨""⟩ else none
  | _ :: before =>
    some ⟨String.ofList (chars.take count ++ unparts (before.dropWhile isBlank).reverse)⟩

def directory (p : Path) : Path := p.parent?.getD ⟨""⟩

/-- `q` as seen from the directory `p`: an absolute `q` stands for itself, and
another one is written behind `p`, with a slash between unless `p` is empty or
ends in one. -/
def join (p q : Path) : Path :=
  let base := p.text.toList
  if isAbsolute q.text.toList then q
  else if base.isEmpty || base.getLast? == some '/' then ⟨p.text ++ q.text⟩
  else ⟨p.text ++ "/" ++ q.text⟩

def withSlashes (text : String) : String :=
  String.ofList (text.toList.map fun c => if c = '\\' then '/' else c)

end Path

end VirtualDisk
