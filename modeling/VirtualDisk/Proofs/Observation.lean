import VirtualDisk.Proofs.Accounting

namespace VirtualDisk

def Level.withOptions (o : OpenOptions) (l : Level) : Level := { l with options := o }

def Disk.withOptions (o : OpenOptions) (d : Disk) : Disk :=
  ⟨d.top.withOptions o, d.ancestors.map (Level.withOptions o)⟩

section chains

variable {π ρ : Type} {l : Level} {o : OpenOptions} {parent : Source Files π}
  {view : Option (ParentView π)} {files : Files}

theorem Plan.next_withOptions (contents : ByteArray) (p : Plan) :
    Plan.next (l.withOptions o) view contents p = Plan.next l view contents p := by
  have hsparse : (l.withOptions o).sparse = l.sparse := rfl
  have hfooter : (l.withOptions o).flattenedFooter = l.flattenedFooter := rfl
  fun_induction Plan.next l view contents p with
  | case1 p hp hfixed =>
    rw [Plan.next, dif_pos hp, hsparse, hfixed]
  | case2 p hp layout hl index hlen piece rest hr =>
    rw [Plan.next, dif_pos hp, hsparse, hl, hfooter]
    simp only [if_pos hlen, index, hr]
  | case3 p hp layout hl index hlen hi hsource ih =>
    rw [Plan.next, dif_pos hp, hsparse, hl]
    simp only [if_neg hlen, index, hsource]
    exact ih
  | case4 p hp layout hl index hlen source hsource ho =>
    rw [Plan.next, dif_pos hp, hsparse, hl]
    simp only [if_neg hlen, index, hsource, if_pos ho]
  | case5 p hp layout hl index hlen hi source hsource ho =>
    rw [Plan.next, dif_pos hp, hsparse, hl]
    simp only [if_neg hlen, index, hsource, if_neg ho]
    rfl
  | case6 p hp piece rest hr => rw [Plan.next, dif_neg hp, hfooter, hr]

theorem LevelStream.round_withOptions (s : LevelStream π) :
    LevelStream.round (l.withOptions o) parent view files s
      = LevelStream.round l parent view files s := by
  have hplace : (l.withOptions o).place = l.place := rfl
  simp only [LevelStream.round, hplace, Plan.next_withOptions]

theorem LevelStream.pull_withOptions (s : LevelStream π) :
    LevelStream.pull (l.withOptions o) parent view files s
      = LevelStream.pull l parent view files s := by
  induction s using @LevelStream.pull_induct π l parent view files with
  | closed s hs => rw [pull_of_closed hs, pull_of_closed hs]
  | brings s p rest hs hround =>
    rw [pull_of_round hs hround, pull_of_round hs ((round_withOptions s).trans hround)]
  | goesOn s rest hs hround ih =>
    rw [pull_of_round_none hs hround, pull_of_round_none hs
      ((round_withOptions s).trans hround), ih]

end chains

section source

variable {o : OpenOptions}

theorem LevelStream.source_withOptions {π ρ : Type} {l : Level} {parent : Source Files π}
    {other : Source Files ρ} {view : Option (ParentView π)} {otherView : Option (ParentView ρ)}
    (hv : ∀ v, view = some v → v.IsBounded parent)
    (hv' : ∀ v, otherView = some v → v.IsBounded other)
    (ht : ρ = π) (hparent : other ≍ parent) (hview : otherView ≍ view) :
    LevelStream.source (l.withOptions o) other otherView hv'
      ≍ LevelStream.source l parent view hv := by
  subst ht
  cases hparent
  cases hview
  have hpull : pull (l.withOptions o) other otherView = pull l other otherView := by
    funext files s
    exact pull_withOptions s
  apply heq_of_eq
  unfold LevelStream.source
  congr

theorem ChainStream.type_withOptions (chain : List Level) :
    ChainStream (chain.map (Level.withOptions o)) = ChainStream chain := by
  induction chain with
  | nil => rfl
  | cons level ancestors ih => exact congrArg LevelStream ih

theorem ChainStream.view_withOptions (chain : List Level) :
    view (chain.map (Level.withOptions o)) ≍ view chain := by
  cases chain with
  | nil => rfl
  | cons level ancestors =>
    have hview {σ : Type} (ht : σ = ChainStream ancestors) :
        (some ⟨level.footer.currentSize, LevelStream.ofRange level⟩ :
          Option (ParentView (LevelStream σ))) ≍ view (level :: ancestors) := by
      subst ht
      rfl
    exact hview (type_withOptions ancestors)

theorem ChainStream.source_withOptions (chain : List Level) :
    source (chain.map (Level.withOptions o)) ≍ source chain := by
  induction chain with
  | nil => rfl
  | cons level ancestors ih =>
    exact LevelStream.source_withOptions (boundedSource ancestors).2 (boundedSource _).2
      (type_withOptions ancestors) ih (view_withOptions ancestors)

theorem Source.pull_heq {σ τ : Type} {a : Source Files σ} {b : Source Files τ} {x : σ} {y : τ}
    (ht : σ = τ) (hs : a ≍ b) (hx : x ≍ y) (files : Files) :
    (a.pull files x).1 = (b.pull files y).1 ∧ (a.pull files x).2 ≍ (b.pull files y).2 := by
  subst ht
  cases hs
  cases hx
  exact ⟨rfl, HEq.rfl⟩

end source

namespace DiskStream

inductive Answer where
  | pulled (p : Pulled)
  | bytes (result : Except Error ByteArray)
  | destroyed

structure Report where
  length : Nat
  position : Nat
  isReadable : Bool
  text : String
  toEnd : Files → ByteArray × Option Error

section answers

variable {d : Disk}

def answer (files : Files) (s : DiskStream d) : Action → Answer
  | .next => .pulled (s.next files).1
  | .read count => .bytes (s.read files count).1
  | .destroy => .destroyed

def answers (s : DiskStream d) : List (Files × Action) → List Answer
  | [] => []
  | (files, a) :: more => s.answer files a :: (s.act files a).2.answers more

def report (s : DiskStream d) : Report where
  length := s.length
  position := s.position
  isReadable := s.isReadable
  text := s.text
  toEnd files := (s.readToEnd files ByteArray.empty).1

/-- All that is seen of a stream over uses of it: their answers, and its report behind them. -/
def seen (s : DiskStream d) (uses : List (Files × Action)) : List Answer × Report :=
  (s.answers uses, (s.after uses).report)

end answers

variable {d : Disk} {o : OpenOptions} {s : DiskStream (d.withOptions o)} {t : DiskStream d}
  {files : Files}

/-- A stream of a chain and one of the same chain with other options, in the same state. -/
structure Alike (s : DiskStream (d.withOptions o)) (t : DiskStream d) : Prop where
  levels : s.levels ≍ t.levels
  unread : s.unread = t.unread

namespace Alike

theorem apply {F : Type → Type} (h : s.Alike t) (f : {π : Type} → LevelStream π → F π) :
    f s.levels ≍ f t.levels := by
  have hf {π ρ : Type} {x : LevelStream π} {y : LevelStream ρ} (ht : π = ρ) (hx : x ≍ y) :
      f x ≍ f y := by
    subst ht
    cases hx
    rfl
  exact hf (ChainStream.type_withOptions d.ancestors) h.levels

theorem tell {β : Type} (h : s.Alike t) (f : {π : Type} → LevelStream π → β) :
    f s.levels = f t.levels := eq_of_heq (h.apply fun x => f x)

theorem next (h : s.Alike t) :
    (s.next files).1 = (t.next files).1 ∧ (s.next files).2.Alike (t.next files).2 := by
  have hpull := Source.pull_heq (congrArg LevelStream (ChainStream.type_withOptions d.ancestors))
    (ChainStream.source_withOptions d.levels) h.levels files
  exact ⟨hpull.1, hpull.2, h.unread⟩

theorem destroy (h : s.Alike t) : s.destroy.Alike t.destroy :=
  ⟨h.apply (F := LevelStream) fun x => { x with active := none, phase := .destroyed }, rfl⟩

theorem closed? (h : s.Alike t) : s.closed? = t.closed? := by
  have hphase : s.levels.phase = t.levels.phase := h.tell fun x => x.phase
  rw [DiskStream.closed?, hphase, DiskStream.closed?]

theorem fill (h : s.Alike t) :
    (s.fill files).1 = (t.fill files).1 ∧ (s.fill files).2.Alike (t.fill files).2 := by
  obtain ⟨hpulled, hrest⟩ := @next d o s t files h
  unfold DiskStream.fill
  rw [h.unread, h.closed?]
  split
  · exact ⟨rfl, h⟩
  · cases t.closed? with
    | some e => exact ⟨rfl, h⟩
    | none =>
      rcases hs : s.next files with ⟨p, s'⟩
      rcases ht : t.next files with ⟨q, t'⟩
      rw [hs, ht] at hpulled hrest
      cases hpulled
      cases p with
      | chunk bytes => exact ⟨rfl, hrest.levels, rfl⟩
      | failed e => exact ⟨rfl, hrest⟩
      | ended => exact ⟨rfl, hrest⟩

theorem read (h : s.Alike t) (count : Nat) :
    (s.read files count).1 = (t.read files count).1 ∧
      (s.read files count).2.Alike (t.read files count).2 := by
  obtain ⟨hfilled, hrest⟩ := @fill d o s t files h
  unfold DiskStream.read
  split
  · exact ⟨rfl, h⟩
  · rcases hs : s.fill files with ⟨r, s'⟩
    rcases ht : t.fill files with ⟨q, t'⟩
    rw [hs, ht] at hfilled hrest
    cases hfilled
    cases r with
    | ok bytes => exact ⟨rfl, hrest.levels, rfl⟩
    | error e => exact ⟨rfl, hrest⟩

theorem readToEnd (h : s.Alike t) (before : ByteArray) :
    (s.readToEnd files before).1 = (t.readToEnd files before).1 := by
  fun_induction DiskStream.readToEnd files t before generalizing s with
  | case1 t before e rest hf =>
    obtain ⟨hfilled, -⟩ := @fill d o s t files h
    rw [hf] at hfilled
    rw [DiskStream.readToEnd]
    split
    · next hs =>
      rw [hs] at hfilled
      cases hfilled
      rfl
    · next hs =>
      rw [hs] at hfilled
      cases hfilled
  | case2 t before bytes rest hf hb =>
    obtain ⟨hfilled, -⟩ := @fill d o s t files h
    rw [hf] at hfilled
    rw [DiskStream.readToEnd]
    split
    · next hs =>
      rw [hs] at hfilled
      cases hfilled
    · next hs =>
      rw [hs] at hfilled
      cases hfilled
      rw [dif_pos hb]
  | case3 t before bytes rest hf hb ih =>
    obtain ⟨hfilled, hrest⟩ := @fill d o s t files h
    rw [hf] at hfilled hrest
    rw [DiskStream.readToEnd]
    split
    · next hs =>
      rw [hs] at hfilled
      cases hfilled
    · next hs =>
      rw [hs] at hfilled hrest
      cases hfilled
      rw [dif_neg hb]
      exact ih ⟨hrest.levels, rfl⟩

theorem act (h : s.Alike t) (a : Action) :
    s.answer files a = t.answer files a ∧ (s.act files a).2.Alike (t.act files a).2 := by
  cases a with
  | next => exact ⟨congrArg Answer.pulled h.next.1, h.next.2⟩
  | read count => exact ⟨congrArg Answer.bytes (h.read count).1, (h.read count).2⟩
  | destroy => exact ⟨rfl, h.destroy⟩

theorem report (h : s.Alike t) : s.report = t.report := by
  have hlength : s.length = t.length := h.tell fun x => x.plan.stop - x.plan.start
  have hposition : s.position = t.position := h.tell fun x => x.plan.start + x.given
  have hreadable : s.isReadable = t.isReadable :=
    h.tell fun x => x.phase = .streaming || x.phase = .finished
  have htext : s.text = t.text := by
    have hactive : s.levels.active.map pieceText = t.levels.active.map pieceText :=
      h.tell fun x => x.active.map pieceText
    have hstart : s.levels.plan.start = t.levels.plan.start := h.tell fun x => x.plan.start
    have hstop : s.stop = t.stop := h.tell fun x => x.plan.stop
    have hphase : s.levels.phase = t.levels.phase := h.tell fun x => x.phase
    unfold DiskStream.text
    rw [hposition, hstart, hstop, hphase]
    cases hs : s.levels.active <;> cases ht : t.levels.active <;> rw [hs, ht] at hactive
    · rfl
    · cases hactive
    · cases hactive
    · next p q =>
      have hpiece : pieceText p = pieceText q := Option.some.inj hactive
      simp only [hpiece]
      rfl
  have htoEnd : (fun files => (s.readToEnd files ByteArray.empty).1)
      = fun files => (t.readToEnd files ByteArray.empty).1 := by
    funext files
    exact h.readToEnd ByteArray.empty
  rw [DiskStream.report, DiskStream.report, hlength, hposition, hreadable, htext, htoEnd]

theorem answers (h : s.Alike t) (uses : List (Files × Action)) :
    s.answers uses = t.answers uses ∧ (s.after uses).Alike (t.after uses) := by
  induction uses generalizing s t with
  | nil => exact ⟨rfl, h⟩
  | cons use more ih =>
    obtain ⟨hanswer, hrest⟩ := h.act use.2
    obtain ⟨hanswers, hafter⟩ := ih hrest
    exact ⟨List.cons_eq_cons.mpr ⟨hanswer, hanswers⟩, hafter⟩

end Alike

theorem alike_ofRange (d : Disk) (start stop : Nat) (buffer : BufferSize) :
    Alike (⟨.ofRange (d.withOptions o).top start stop buffer, .empty⟩ :
      DiskStream (d.withOptions o))
      (⟨.ofRange d.top start stop buffer, .empty⟩ : DiskStream d) := by
  have hrange {π : Type} (ht : π = ChainStream d.ancestors) :
      (LevelStream.ofRange d.top start stop buffer : LevelStream π)
        ≍ (LevelStream.ofRange d.top start stop buffer :
          LevelStream (ChainStream d.ancestors)) := by
    subst ht
    rfl
  exact ⟨hrange (ChainStream.type_withOptions d.ancestors), rfl⟩

theorem seen_withOptions (hb : o.bufferSize = d.top.options.bufferSize) (request : RangeRequest)
    (uses : List (Files × Action)) :
    ((d.withOptions o).stream request).map (fun s => s.seen uses)
      = (d.stream request).map fun t => t.seen uses := by
  have hsize : (d.withOptions o).top.options.bufferSize = d.top.options.bufferSize := hb
  unfold Disk.stream
  rw [hsize]
  by_cases ha : request.isAligned
  · rw [if_pos ha, if_pos ha]
    obtain ⟨hanswers, hafter⟩ := (alike_ofRange (o := o) d request.start
      (request.stop d.flattenedLength)
      (.ofNat (request.bufferSize?.getD d.top.options.bufferSize))).answers uses
    exact congrArg Except.ok (Prod.ext hanswers hafter.report)
  · rw [if_neg ha, if_neg ha]
    rfl

end DiskStream

end VirtualDisk
