import RobotSketch.Session

/-!
# Sessions that keep a stack

One session may compile many documents, one after the other. It keeps what the runs depend on, what
they have done and the documents that are open, outermost first. A document is pushed when its
elements are entered and popped when they are left, whether they compile or not. A saved sequence is
refused if it is on the stack.

Here nothing but the stack tells a document that is open from one that is not, so compilation ends
only because the stack is looked after: a document that is pushed leaves fewer closed, and one that
is left has been popped, so that what follows is no larger than if it had never been pushed. An
`Ending` brings the evidence along.
-/
namespace RobotSketch

/-- A session with all that it holds. -/
structure LiveSession where
  project : Project
  session : Session := {}
  /-- The documents that are open, outermost first. -/
  active : List NormalPath := []
  /-- What was open after each change of the stack, in order. -/
  trail : List (List NormalPath) := []

/-- What becomes of a sequence document. -/
structure SequenceOutput where
  code : List Code
  cancelled : Bool

/-- The elements of a saved sequence whose document may be put on a stack. -/
structure Project.Saved (project : Project) (opened : List NormalPath) (path : NormalPath) where
  elements : List Element
  smaller : project.library.closed (opened ++ [path]) < project.library.closed opened

/-- A document that is found and not open leaves fewer closed when it is pushed. -/
theorem Project.closed_lt {project : Project} {frame : Frame} {file : String} {node : Node}
    (hload : project.library.load (frame.directory.join file).normalize.path = .ok (some node))
    (hclosed : (frame.directory.join file).normalize ∉ frame.opened) :
    project.library.closed (frame.opened ++ [(frame.directory.join file).normalize]) <
      project.library.closed frame.opened :=
  Library.closed_lt hload hclosed

/-- The elements of a saved sequence; none if its document is missing. -/
def Project.savedElements (project : Project) (frame : Frame) (file : String) :
    Compile (Option (project.Saved frame.opened (frame.directory.join file).normalize)) :=
  let path := frame.directory.join file
  if hopened : path.normalize ∈ frame.opened then
    throw ((Defect.selfReference file).inFile frame.name)
  else do
    Compile.record frame.opened (.loaded path.normalize.path)
    match hload : project.library.load path.normalize.path with
    | .error error => throw error
    | .ok none =>
      project.ask frame file
      return none
    | .ok (some node) =>
      let elements ← Compile.ofDefect file (readSequence node)
      return some ⟨elements, closed_lt hload hopened⟩

namespace LiveSession

/-! ## The stack -/

/-- The session after a document has been pushed. -/
def opening (live : LiveSession) (path : NormalPath) : LiveSession :=
  { live with active := live.active ++ [path], trail := live.trail ++ [live.active ++ [path]] }

/-- The session after the innermost document has been popped. -/
def closing (live : LiveSession) : LiveSession :=
  { live with active := live.active.dropLast, trail := live.trail ++ [live.active.dropLast] }

noncomputable def closed (live : LiveSession) : Nat := live.project.library.closed live.active

/-- The same documents are open in two sessions of one project. -/
structure Kept (live later : LiveSession) : Prop where
  project : later.project = live.project
  active : later.active = live.active

namespace Kept

variable {live middle later : LiveSession} {path : NormalPath}

theorem refl (live : LiveSession) : live.Kept live := ⟨rfl, rfl⟩

theorem of_session (live : LiveSession) (session : Session) : live.Kept { live with session } :=
  ⟨rfl, rfl⟩

theorem trans (hfirst : live.Kept middle) (hrest : middle.Kept later) : live.Kept later :=
  ⟨hrest.project.trans hfirst.project, hrest.active.trans hfirst.active⟩

theorem closed_eq (h : live.Kept later) : later.closed = live.closed := by
  rw [closed, h.project, h.active, closed]

/-- While the same documents are open, fewer elements are less to do. -/
theorem lex (h : live.Kept later) {fewer more : Nat} (hfewer : fewer < more) :
    Prod.Lex (· < ·) (· < ·) (later.closed, fewer) (live.closed, more) := by
  rw [h.closed_eq]
  exact .right _ hfewer

/-- Popping undoes pushing, whatever has been pushed and popped in between. -/
theorem closing (h : (live.opening path).Kept later) : live.Kept later.closing := by
  refine ⟨h.project, ?_⟩
  rw [LiveSession.closing, h.active, opening, List.dropLast_concat]

theorem closed_opening_lt (h : live.Kept later)
    (hsmaller : live.project.library.closed (live.active ++ [path]) <
      live.project.library.closed live.active) : (later.opening path).closed < live.closed := by
  rw [← h.project, ← h.active] at hsmaller
  rw [← h.closed_eq]
  exact hsmaller

end Kept

/-! ## Parts of a compilation -/

/-- How a part of a compilation ends: what it comes to, and the session that it leaves, in which the
same documents are open. -/
structure Ending (α : Type) (live : LiveSession) where
  result : Except Error α
  later : LiveSession
  kept : live.Kept later

namespace Ending

variable {α β : Type} {live : LiveSession} {path : NormalPath}

/-- A value, with nothing done. -/
def done (live : LiveSession) (value : α) : Ending α live := ⟨.ok value, live, .refl live⟩

/-- A failure, with nothing done. -/
def failed (live : LiveSession) (error : Error) : Ending α live := ⟨.error error, live, .refl live⟩

/-- One part after another, unless the first fails. -/
def andThen (first : Ending α live)
    (next : α → (later : LiveSession) → live.Kept later → Ending β later) : Ending β live :=
  match first with
  | ⟨.error error, later, kept⟩ => ⟨.error error, later, kept⟩
  | ⟨.ok value, later, kept⟩ =>
    let ⟨result, last, keptLast⟩ := next value later kept
    ⟨result, last, kept.trans keptLast⟩

/-- Pops the document in which a part has been compiled, also if that has failed. -/
def leaving (entered : Ending α (live.opening path)) : Ending α live :=
  let ⟨result, later, kept⟩ := entered
  ⟨result, later.closing, kept.closing⟩

end Ending

/-- A part of a compilation that leaves the stack alone. -/
def perform {α : Type} (live : LiveSession) (part : Compile α) : Ending α live :=
  let (result, session) := part.run live.session
  ⟨result, { live with session }, .of_session live session⟩

/-- The given statements, or none once the run has been cancelled. -/
def unlessCancelled (live : LiveSession) (code : List Code) : Ending (List Code) live :=
  .done live (if live.session.cancelled then [] else code)

/-! ## Elements -/

/-- The statements of a reference to a saved sequence, given how the elements of its document are
compiled. -/
def sequenceCode (live : LiveSession) (directory : Path) (name : String) (place : Place)
    (file : String)
    (compile : (inner : LiveSession) → inner.closed < live.closed → Path → List Element →
      Ending (List Code) inner) : Ending (List Code) live :=
  let path := (directory.join file).normalize
  let saved := live.perform (live.project.savedElements ⟨directory, name, live.active⟩ file)
  saved.andThen fun saved? later kept =>
    match saved? with
    | none => .done later []
    | some ⟨elements, smaller⟩ =>
      let entered := compile (later.opening path) (kept.closed_opening_lt smaller)
        (path.path.parent?.getD ⟨""⟩) elements
      entered.leaving.andThen fun body later _ =>
        later.unlessCancelled (Project.inlined place file body)

/-- The statements of a conditional, given how its branches are compiled. -/
def conditionalCode (live : LiveSession) (name : String) (place : Place) (spec : SensorSpec)
    (shape : LoopShape)
    (ifBranch elseBranch : (later : LiveSession) → live.Kept later → Ending (List Code) later) :
    Ending (List Code) live :=
  match spec.conditions with
  | .error error => .failed live (error.inSequence name)
  | .ok (ifTest, elseTest) =>
    (ifBranch live (.refl live)).andThen fun ifBody later kept =>
      (elseBranch later kept).andThen fun elseBody later _ =>
        later.unlessCancelled
          (Code.ofComment place.comment ++ shape.arrange ifTest elseTest ifBody elseBody)

/-- The statements of a counter loop, given those of its body. -/
def counterCode {live : LiveSession} (place : Place) (iterations : UInt32)
    (children : Ending (List Code) live) : Ending (List Code) live :=
  children.andThen fun body later _ =>
    later.unlessCancelled (Code.ofComment place.comment ++ [.count iterations body])

/-- The statements of a list of elements, up to the one at which the run is cancelled. -/
def compileElements (live : LiveSession) (directory : Path) (name : String)
    (elements : List Element) : Ending (List Code) live :=
  match elements with
  | [] => .done live []
  | element :: rest =>
    if live.session.cancelled then .done live []
    else
      let first : Ending (List Code) live :=
        match element with
        | .expression place file delay =>
          live.perform
            (live.project.expressionCode ⟨directory, name, live.active⟩ place file delay)
        | .sequence place file =>
          live.sequenceCode directory name place file fun inner _ directory elements =>
            compileElements inner directory file elements
        | .counterLoop place iterations children =>
          counterCode place iterations (compileElements live directory name children)
        | .conditional place spec ifRepeats elseRepeats ifBranch elseBranch =>
          live.conditionalCode name place spec (.ofRepeats ifRepeats elseRepeats)
            (fun later _ => compileElements later directory name ifBranch)
            (fun later _ => compileElements later directory name elseBranch)
      first.andThen fun code later _ =>
        (compileElements later directory name rest).andThen fun more last _ =>
          .done last (code ++ more)
termination_by (live.closed, sizeOf elements)
decreasing_by
  · exact .left _ _ ‹_›
  · refine (Kept.refl live).lex ?_
    simp only [List.cons.sizeOf_spec, Element.counterLoop.sizeOf_spec]
    omega
  · refine Kept.lex ‹_› ?_
    simp only [List.cons.sizeOf_spec, Element.conditional.sizeOf_spec]
    omega
  · refine Kept.lex ‹_› ?_
    simp only [List.cons.sizeOf_spec, Element.conditional.sizeOf_spec]
    omega
  · refine Kept.lex ‹_› ?_
    simp only [List.cons.sizeOf_spec]
    omega

/-- Compiles a sequence document called `name` in a directory, and gives the session it leaves. -/
def compileDocument (live : LiveSession) (document : Node) (name : String) (directory : Path) :
    Except Error SequenceOutput × LiveSession :=
  match readSequence document with
  | .error defect => (.error (defect.inFile name), live)
  | .ok elements =>
    let entered :=
      (live.opening (directory.join name).normalize).compileElements directory name elements
    let left := entered.leaving
    (left.result.map fun code => ⟨code, left.later.session.cancelled⟩, left.later)

end LiveSession

end RobotSketch
