import VirtualDisk.Stream.LevelStream

namespace VirtualDisk

/-- Streams through a chain; an empty chain has none. -/
def ChainStream : List Level → Type
  | [] => Empty
  | _ :: ancestors => LevelStream (ChainStream ancestors)

namespace ChainStream

def view : (chain : List Level) → Option (ParentView (ChainStream chain))
  | [] => none
  | level :: _ => some ⟨level.footer.currentSize, LevelStream.ofRange level⟩

theorem left_ofRange (size start stop : Nat) (buffer : BufferSize) :
    (Plan.ofRange size start stop buffer).left = stop - start := by
  simp only [Plan.ofRange, Plan.left, Plan.dataEnd, Plan.footerLeft, Plan.footerStart]
  simp only [Bool.false_eq_true, if_false]
  omega

/-- Streams through a chain as sources, whose ranges give no more bytes than
they span. -/
def boundedSource : (chain : List Level) →
    { s : Source Files (ChainStream chain) // ∀ v, view chain = some v → v.IsBounded s }
  | [] => ⟨.never, fun _ h => nomatch h⟩
  | level :: ancestors =>
    let parent := boundedSource ancestors
    ⟨LevelStream.source level parent.1 (view ancestors) parent.2, by
      intro v h start stop buffer
      cases h
      exact Nat.le_of_eq (left_ofRange level.footer.currentSize start stop buffer)⟩

def source (chain : List Level) : Source Files (ChainStream chain) := (boundedSource chain).1

end ChainStream

end VirtualDisk
