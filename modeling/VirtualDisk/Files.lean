import VirtualDisk.Bytes
import VirtualDisk.Error

namespace VirtualDisk

/-- By what a file is known while it is in use. -/
abbrev Place := List (List Char)

/-- The files of a host, as far as they can be reached by a path. Nothing is said of how the host
follows a path; what a file contains may change while it is in use. -/
structure Files where
  isFile : Path → Bool
  openFile : Path → Except Error Place
  contents : Place → ByteArray

/-- A regular file stands at a path and can be opened. -/
structure Files.Holds (files : Files) (path : Path) (place : Place) : Prop where
  isFile : files.isFile path = true
  opens : files.openFile path = .ok place

end VirtualDisk
