import VirtualDisk.Handle
import VirtualDisk.Limits
import VirtualDisk.Text.Utf16

namespace VirtualDisk

structure ParentLocator where
  code : Vector UInt8 4
  space : UInt32
  length : Nat
  offset : Nat
  text : Option String
deriving DecidableEq

namespace ParentLocator

def size : Nat := 24

/-- The code of paths relative to the directory of the image. -/
def relativeCode : Vector UInt8 4 := #v[0x57, 0x32, 0x72, 0x75]

/-- The code of paths that stand for themselves. -/
def absoluteCode : Vector UInt8 4 := #v[0x57, 0x32, 0x6B, 0x75]

def ofBytes (v : Vector UInt8 24) : ParentLocator where
  code := field v 0 4
  space := UInt32.ofNat (number v 4 4)
  length := number v 8 4
  offset := number v 16 8
  text := none

/-- A slot without a platform or without a text is not in use. -/
def isEmpty (l : ParentLocator) : Bool :=
  l.code == Vector.replicate 4 0 || l.length == 0

def codeText (l : ParentLocator) : String := Utf8.text l.code.toList

def trimNuls (chars : List Char) : List Char :=
  (chars.reverse.dropWhile (· == '\x00')).reverse

/-- The text that the bytes of a locator hold: units with the low byte first
for the two codes above, and UTF-8 for all others. -/
def decode (code : Vector UInt8 4) (bytes : List UInt8) : String :=
  let chars :=
    if code = relativeCode ∨ code = absoluteCode
    then Utf16.decode (Utf16.unitsLowFirst bytes)
    else Utf8.decode bytes
  String.ofList (trimNuls chars)

def load (contents : ByteArray) (l : ParentLocator) : Except Error ParentLocator :=
  if l.isEmpty then .ok l
  else if Limits.locatorLength < l.length then
    .error (.limit (.locatorLength l.code.toList l.length Limits.locatorLength))
  else if Limits.safeNumber < l.offset then .error (.precision (.locatorOffset l.offset))
  else do
    let bytes ← readAt contents l.offset l.length "parent locator data"
    return { l with text := some (decode l.code bytes.data.toList) }

/-- Loads one locator after another. The first that fails stops the loading:
it and those behind it stay as they are. -/
def loadAll (contents : ByteArray) : List ParentLocator → List ParentLocator × Option Error
  | [] => ([], none)
  | l :: rest =>
    match l.load contents with
    | .error e => (l :: rest, some e)
    | .ok loaded =>
      let (others, error?) := loadAll contents rest
      (loaded :: others, error?)

@[simp] theorem length_loadAll (contents : ByteArray) (ls : List ParentLocator) :
    (loadAll contents ls).1.length = ls.length := by
  induction ls with
  | nil => rfl
  | cons l rest ih =>
    unfold loadAll
    split <;> simp [ih]

end ParentLocator

end VirtualDisk
