import Mathlib.Logic.Function.Basic
import VirtualDisk.Proofs.RangeChunks

namespace VirtualDisk

namespace Handle

variable {file last : Handle} {count : Nat} {bytes : ByteArray}

def readUpTo (file : Handle) (count limit : Nat) : ByteArray × Handle :=
  file.read (min count limit)

/-- The ways to read `count` bytes from where a file stands. Each read brings some of the bytes
that are still wanted, until they are all there or a read brings none. -/
inductive Fills : Handle → Nat → ByteArray → Handle → Prop
  | full {file : Handle} : Fills file 0 ByteArray.empty file
  | cut {file : Handle} {count limit : Nat} : 0 < count → 0 < limit →
      (file.readUpTo count limit).1.size = 0 →
      Fills file count ByteArray.empty (file.readUpTo count limit).2
  | more {file last : Handle} {count limit : Nat} {rest : ByteArray} :
      0 < (file.readUpTo count limit).1.size →
      Fills (file.readUpTo count limit).2 (count - (file.readUpTo count limit).1.size) rest last →
      Fills file count ((file.readUpTo count limit).1 ++ rest) last

theorem size_read (file : Handle) (count : Nat) :
    (file.read count).1.size = min count (file.contents.size - file.position) :=
  size_slice ..

theorem read_of_none (h : (file.read count).1.size = 0) :
    file.read count = (ByteArray.empty, file) := by
  change (slice file.contents file.position count).size = 0 at h
  rw [read, h, eq_empty_of_size h]
  rfl

theorem read_eq_append {part : Nat} (h : part ≤ count) :
    file.read count
      = ((file.read part).1 ++ ((file.read part).2.read (count - (file.read part).1.size)).1,
        ((file.read part).2.read (count - (file.read part).1.size)).2) := by
  have hall : slice file.contents file.position part ++ slice file.contents
      (file.position + (slice file.contents file.position part).size)
      (count - (slice file.contents file.position part).size)
        = slice file.contents file.position count := slice_append_slice h
  simp only [read]
  rw [← hall, ByteArray.size_append, Nat.add_assoc]

theorem Fills.eq (h : file.Fills count bytes last) : file.read count = (bytes, last) := by
  induction h with
  | full => exact read_of_none (by rw [size_read, Nat.zero_min])
  | @cut file count limit hcount hlimit hnone =>
    -- A read that is asked for something brings nothing only at the end of the file.
    have hend : (file.read count).1.size = 0 := by
      rw [readUpTo, size_read] at hnone
      rw [size_read]
      omega
    rw [read_of_none hend, readUpTo, read_of_none hnone]
  | @more file last count limit rest _ _ ih =>
    rw [readUpTo] at ih ⊢
    rw [read_eq_append (Nat.min_le_left count limit), ih]

theorem exists_fills (count : Nat) (file : Handle) :
    ∃ bytes last, file.Fills count bytes last := by
  induction count using Nat.strongRecOn generalizing file with
  | ind count ih =>
    by_cases hzero : count = 0
    · rw [hzero]
      exact ⟨_, _, .full⟩
    have hpos := Nat.pos_of_ne_zero hzero
    by_cases hnone : (file.readUpTo count count).1.size = 0
    · exact ⟨_, _, .cut hpos hpos hnone⟩
    · obtain ⟨rest, last, hrest⟩ := ih (count - (file.readUpTo count count).1.size) (by omega)
        (file.readUpTo count count).2
      exact ⟨_, _, .more (Nat.pos_of_ne_zero hnone) hrest⟩

theorem fills_iff : file.Fills count bytes last ↔ file.read count = (bytes, last) := by
  refine ⟨Fills.eq, fun h => ?_⟩
  obtain ⟨bytes', last', hfills⟩ := exists_fills count file
  rw [hfills.eq] at h
  cases h
  exact hfills

theorem contents_readExact (file : Handle) (offset length : Nat) (what : String) :
    (file.readExact offset length what).2.contents = file.contents := by
  simp only [readExact]
  split <;> rfl

end Handle

namespace Window

variable {contents : ByteArray} {w : Window} {brought : List UInt8}

def readUpTo (w : Window) (count limit : Nat) (file : Handle) : ByteArray × Window × Handle :=
  if w.remaining = 0 ∨ count = 0 then (ByteArray.empty, w, file)
  else
    let (bytes, next) := (file.seek w.place).readUpTo (min count w.remaining) limit
    (bytes, w.advance bytes.size, next)

theorem readUpTo_of_le {count limit : Nat} (h : min count w.remaining ≤ limit) (file : Handle) :
    w.readUpTo count limit file = w.read count file := by
  rw [readUpTo, read, Handle.readUpTo, Nat.min_eq_left h]
  rfl

theorem readUpTo_eq (w : Window) (count limit : Nat) (file : Handle) :
    ∃ position, w.readUpTo count limit file
      = (slice file.contents w.place (min (min count w.remaining) limit),
        w.advance (slice file.contents w.place (min (min count w.remaining) limit)).size,
        ⟨file.contents, position⟩) := by
  unfold readUpTo
  split
  · next hnone =>
    have hwant : min (min count w.remaining) limit = 0 := by omega
    rw [hwant, slice_zero]
    exact ⟨file.position, rfl⟩
  · exact ⟨_, rfl⟩

/-- What a window over `length` bytes from `start` on has given: the front of this part of the
file. All of it lies in the file. -/
structure Tally (contents : ByteArray) (start length : Nat) (w : Window)
    (brought : List UInt8) : Prop where
  start_eq : w.start = start
  length_eq : w.length = length
  position_le : w.position ≤ w.length
  position_add_remaining : w.position + w.remaining = w.length
  length_brought : brought.length = w.position
  brought_eq : brought = octets (slice contents start w.position)
  in_file : w.position = 0 ∨ w.start + w.position ≤ contents.size

theorem tally_ofRange (contents : ByteArray) (start length : Nat) :
    (ofRange start length).Tally contents start length [] where
  start_eq := rfl
  length_eq := rfl
  position_le := Nat.zero_le length
  position_add_remaining := Nat.zero_add length
  length_brought := rfl
  brought_eq := by
    change [] = octets (slice contents start 0)
    rw [slice_zero, octets_empty]
  in_file := .inl rfl

theorem Tally.advance {start length count : Nat} (h : w.Tally contents start length brought)
    (hcount : count ≤ w.remaining) :
    (w.advance (slice contents w.place count).size).Tally contents start length
      (brought ++ octets (slice contents w.place count)) := by
  obtain ⟨hstart, hlength, hle, hadd, hsize, hbrought, hin⟩ := h
  have hplace : w.place = start + w.position := congrArg (· + w.position) hstart
  have hnew := size_slice contents w.place count
  constructor
  case start_eq => exact hstart
  case length_eq => exact hlength
  case position_le =>
    change w.position + (slice contents w.place count).size ≤ w.length
    omega
  case position_add_remaining =>
    change w.position + (slice contents w.place count).size
      + (w.length - (w.position + (slice contents w.place count).size)) = w.length
    omega
  case length_brought =>
    rw [List.length_append, length_octets, hsize]
    rfl
  case brought_eq =>
    change _ = octets (slice contents start (w.position + (slice contents w.place count).size))
    rw [hbrought, slice_add, ← hplace, slice_size, octets_append]
  case in_file =>
    change w.position + (slice contents w.place count).size = 0 ∨
      w.start + (w.position + (slice contents w.place count).size) ≤ contents.size
    omega

end Window

structure Sharing (ι : Type) where
  windows : ι → Window
  file : Handle

inductive Access (ι : Type) where
  /-- A window is read. The file brings no more than `limit` bytes of those that it is asked for. -/
  | read (window : ι) (count limit : Nat)
  | readExact (offset length : Nat) (what : String)

def Access.window? {ι : Type} : Access ι → Option ι
  | read window _ _ => some window
  | readExact _ _ _ => none

namespace Sharing

variable {ι : Type} [DecidableEq ι]

def ofRanges (start length : ι → Nat) (file : Handle) : Sharing ι :=
  ⟨fun i => .ofRange (start i) (length i), file⟩

def seek (s : Sharing ι) (position : Nat) : Sharing ι := { s with file := s.file.seek position }

def access (s : Sharing ι) : Access ι → Except Error ByteArray × Sharing ι
  | .read i count limit =>
    let (bytes, w, file) := (s.windows i).readUpTo count limit s.file
    (.ok bytes, ⟨Function.update s.windows i w, file⟩)
  | .readExact offset length what =>
    let (result, file) := s.file.readExact offset length what
    (result, { s with file })

def history (s : Sharing ι) : List (Access ι) → List (Access ι × Except Error ByteArray)
  | [] => []
  | a :: rest => (a, (s.access a).1) :: (s.access a).2.history rest

def after (s : Sharing ι) : List (Access ι) → Sharing ι
  | [] => s
  | a :: rest => (s.access a).2.after rest

def brought (i : ι) (history : List (Access ι × Except Error ByteArray)) : List UInt8 :=
  (history.filter (·.1.window? = some i)).flatMap fun e => e.2.toOption.elim [] octets

section step

variable {s t : Sharing ι} {a : Access ι} {i : ι} {user : Option ι}

theorem contents_access (s : Sharing ι) (a : Access ι) :
    (s.access a).2.file.contents = s.file.contents := by
  cases a with
  | read i count limit =>
    obtain ⟨position, hread⟩ := (s.windows i).readUpTo_eq count limit s.file
    rw [access, hread]
  | readExact offset length what =>
    exact s.file.contents_readExact offset length what

theorem window_access_of_ne (h : a.window? ≠ some i) :
    (s.access a).2.windows i = s.windows i := by
  cases a with
  | read j count limit =>
    have hij : i ≠ j := fun hij => h (congrArg some hij.symm)
    exact Function.update_of_ne hij _ _
  | readExact offset length what => rfl

theorem access_read (s : Sharing ι) (i : ι) (count limit : Nat) :
    let bytes := slice s.file.contents (s.windows i).place
      (min (min count (s.windows i).remaining) limit)
    (s.access (.read i count limit)).1 = .ok bytes ∧
      (s.access (.read i count limit)).2.windows i = (s.windows i).advance bytes.size := by
  obtain ⟨position, hread⟩ := (s.windows i).readUpTo_eq count limit s.file
  rw [access, hread]
  exact ⟨rfl, Function.update_self ..⟩

/-- Where the file stands makes no difference to a structure. -/
theorem access_readExact (s : Sharing ι) (offset length : Nat) (what : String) :
    (s.access (.readExact offset length what)).1
      = readAt s.file.contents offset length what := rfl

/-- Sharings that are the same to the readers of one window, or to those of structures. -/
structure SameFor (user : Option ι) (s t : Sharing ι) : Prop where
  contents_eq : s.file.contents = t.file.contents
  window_eq : ∀ i, user = some i → s.windows i = t.windows i

theorem SameFor.access (h : SameFor user s t) (ha : a.window? = user) :
    (s.access a).1 = (t.access a).1 ∧ SameFor user (s.access a).2 (t.access a).2 := by
  have hcontents : (s.access a).2.file.contents = (t.access a).2.file.contents := by
    rw [contents_access, contents_access, h.contents_eq]
  cases a with
  | read i count limit =>
    obtain ⟨hs, hs'⟩ := s.access_read i count limit
    obtain ⟨ht, ht'⟩ := t.access_read i count limit
    have hwindow := h.window_eq i ha.symm
    rw [hwindow, h.contents_eq] at hs hs'
    refine ⟨hs.trans ht.symm, hcontents, ?_⟩
    rintro j hj
    cases ha.trans hj
    exact hs'.trans ht'.symm
  | readExact offset length what =>
    refine ⟨?_, hcontents, h.window_eq⟩
    rw [access_readExact, access_readExact, h.contents_eq]

theorem SameFor.access_other (h : SameFor user s t) (ha : a.window? ≠ user) :
    SameFor user (s.access a).2 t := by
  refine ⟨(contents_access s a).trans h.contents_eq, fun i hi => ?_⟩
  rw [window_access_of_ne (hi ▸ ha), h.window_eq i hi]

theorem brought_cons (i : ι) (e : Access ι × Except Error ByteArray)
    (rest : List (Access ι × Except Error ByteArray)) :
    brought i (e :: rest) = brought i [e] ++ brought i rest := by
  unfold brought
  rw [← List.flatMap_append, ← List.filter_append, List.singleton_append]

theorem tally_access {contents : ByteArray} {start length : Nat} {before : List UInt8}
    (hc : s.file.contents = contents) (h : (s.windows i).Tally contents start length before)
    (a : Access ι) :
    ((s.access a).2.windows i).Tally contents start length
      (before ++ brought i [(a, (s.access a).1)]) := by
  by_cases ha : a.window? = some i
  · cases a with
    | read j count limit =>
      cases ha
      obtain ⟨hresult, hwindow⟩ := s.access_read i count limit
      rw [hc] at hresult hwindow
      have hbrought : brought i [(Access.read i count limit,
          (s.access (.read i count limit)).1)] = octets (slice contents (s.windows i).place
            (min (min count (s.windows i).remaining) limit)) := by
        rw [hresult]
        simp [brought, Access.window?, Except.toOption]
      rw [hwindow, hbrought]
      exact h.advance (by omega)
    | readExact offset length what => cases ha
  · have hnone : brought i [(a, (s.access a).1)] = [] := by simp [brought, ha]
    rw [window_access_of_ne ha, hnone, List.append_nil]
    exact h

end step

section run

variable {s t : Sharing ι} {i : ι} {user : Option ι}

theorem SameFor.history_filter (h : SameFor user s t) (accesses : List (Access ι)) :
    (s.history accesses).filter (·.1.window? = user)
      = t.history (accesses.filter (·.window? = user)) := by
  -- `t` only makes the accesses of `user`, so it stays behind while `s` makes another.
  induction accesses generalizing s t with
  | nil => rfl
  | cons a rest ih =>
    by_cases ha : a.window? = user
    · obtain ⟨hresult, hnext⟩ := h.access ha
      rw [history, List.filter_cons_of_pos (by simpa using ha),
        List.filter_cons_of_pos (by simpa using ha), history, hresult, ih hnext]
    · rw [history, List.filter_cons_of_neg (by simpa using ha),
        List.filter_cons_of_neg (by simpa using ha), ih (h.access_other ha)]

theorem contents_after (s : Sharing ι) (accesses : List (Access ι)) :
    (s.after accesses).file.contents = s.file.contents := by
  induction accesses generalizing s with
  | nil => rfl
  | cons a rest ih => rw [after, ih, contents_access]

theorem tally_after {contents : ByteArray} {start length : Nat} {before : List UInt8}
    (hc : s.file.contents = contents) (h : (s.windows i).Tally contents start length before)
    (accesses : List (Access ι)) :
    ((s.after accesses).windows i).Tally contents start length
      (before ++ brought i (s.history accesses)) := by
  induction accesses generalizing s before with
  | nil =>
    rw [show brought i (s.history []) = [] from rfl, List.append_nil]
    exact h
  | cons a rest ih =>
    rw [history, brought_cons, ← List.append_assoc]
    exact ih ((contents_access s a).trans hc) (tally_access hc h a)

end run

/-- What a file that windows share does after some accesses. -/
structure KeepsApart (start length : ι → Nat) (file : Handle) (accesses : List (Access ι)) :
    Prop where
  /-- Each window gives what it would give if nothing else was read, and so do structures. -/
  alone : ∀ user position, ((ofRanges start length file).history accesses).filter
      (·.1.window? = user)
    = ((ofRanges start length file).seek position).history (accesses.filter (·.window? = user))
  tally : ∀ i, (((ofRanges start length file).after accesses).windows i).Tally file.contents
    (start i) (length i) (brought i ((ofRanges start length file).history accesses))
  /-- The next read of a window brings all it can if the file does. -/
  next : ∀ i count limit,
    let s := (ofRanges start length file).after accesses
    let w := s.windows i
    ∃ bytes, (s.access (.read i count limit)).1 = .ok bytes ∧
      bytes.size ≤ min count w.remaining ∧ (min count w.remaining ≤ limit → bytes.size
        = min count (min w.remaining (file.contents.size - (start i + w.position))))
  structures : ∀ offset size what,
    (((ofRanges start length file).after accesses).access (.readExact offset size what)).1
      = readAt file.contents offset size what

/-- Windows that share a file do not disturb each other, and are not disturbed by the structures
that are read between. A read whose file brings all that it is asked for is the read of the
window, and a structure that comes in parts is the same as one that comes at once. -/
theorem windows_keep_apart (start length : ι → Nat) (file : Handle)
    (accesses : List (Access ι)) :
    KeepsApart start length file accesses ∧
    (∀ (w : Window) count limit (file : Handle), min count w.remaining ≤ limit →
      w.readUpTo count limit file = w.read count file) ∧
    ∀ (file : Handle) count bytes last,
      file.Fills count bytes last ↔ file.read count = (bytes, last) := by
  have htally (i : ι) := @tally_after _ _ (ofRanges start length file) i _ _ _ _ rfl
    (Window.tally_ofRange file.contents (start i) (length i)) accesses
  refine ⟨?_, fun _ _ _ file h => Window.readUpTo_of_le h file, fun _ _ _ _ => Handle.fills_iff⟩
  constructor
  case alone =>
    intro user position
    have hsame : SameFor user (ofRanges start length file)
        ((ofRanges start length file).seek position) := ⟨rfl, fun _ _ => rfl⟩
    exact hsame.history_filter accesses
  case tally => exact htally
  case next =>
    intro i count limit s w
    have hcontents : s.file.contents = file.contents := contents_after _ accesses
    have hstart : w.start = start i := (htally i).start_eq
    refine ⟨_, (s.access_read i count limit).1, ?_, fun hlimit => ?_⟩
    · rw [size_slice]
      exact Nat.le_trans (Nat.min_le_left _ _) (Nat.min_le_left _ _)
    · rw [size_slice, hcontents, Nat.min_eq_left hlimit, Nat.min_assoc, ← hstart]
      rfl
  case structures =>
    intro offset size what
    rw [access_readExact, contents_after]
    rfl

/-- A window that runs past the end of its file, behind a read of another and of a structure. -/
theorem windows_keep_apart_pastEnd :
    let s := ofRanges (fun isFirst => if isFirst then 0 else 6) (fun _ => 4)
      ⟨⟨#[0, 1, 2, 3, 4, 5, 6, 7]⟩, 5⟩
    let next := (s.after [.read true 3 9, .readExact 2 2 "pair"]).access (.read false 3 9)
    ∃ bytes, next.1 = .ok bytes ∧ bytes.size = 2 := by
  intro s next
  obtain ⟨bytes, hbytes, _, hsize⟩ := (windows_keep_apart (fun isFirst => if isFirst then 0 else 6)
    (fun _ => 4) ⟨⟨#[0, 1, 2, 3, 4, 5, 6, 7]⟩, 5⟩
    [.read true 3 9, .readExact 2 2 "pair"]).1.next false 3 9
  have hlimit : min 3 (Window.ofRange 6 4).remaining ≤ 9 := by decide
  exact ⟨bytes, hbytes, hsize hlimit⟩

end Sharing

end VirtualDisk
