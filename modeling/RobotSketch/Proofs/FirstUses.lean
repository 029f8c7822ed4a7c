import RobotSketch.Proofs.Interruption
import RobotSketch.Proofs.Registry.History
import RobotSketch.Proofs.Unfolding

/-!
# The first uses of expressions

A run comes to references one after the other, in the order of the documents, and a saved sequence
stands where it is put in place. Which references it comes to (`visited`) depends on how it goes: an
answer to stop and an error end it.

Whatever ends it, the registry is the list of the first uses among these references
(`Runs.registry_eq`): each reference whose document has a body is registered, and the registry keeps
the first one of each identity. The main statement is `registry_lists_first_uses`.
-/
namespace RobotSketch

/-- The reference that an element of a frame is, if it refers to an expression. -/
def Frame.reference? (frame : Frame) : Element → Option Reference
  | .expression place file _ => some ⟨frame.directory, frame.name, place, file⟩
  | _ => none

/-! ## What a run comes to -/

namespace Compile

variable {α : Type} {s s₁ : Session} {part : Compile (List Code)} {next : Session → List α}

/-- What follows in the session that a part leaves; nothing if the part fails. -/
def following (part : Compile (List Code)) (s : Session) (next : Session → List α) : List α :=
  match part.runFrom s with
  | (.ok _, s₁) => next s₁
  | (.error _, _) => []

theorem following_ok {code : List Code} (h : part.runFrom s = (.ok code, s₁)) :
    part.following s next = next s₁ := by
  rw [following, h]

theorem following_error {error : Error} (h : part.runFrom s = (.error error, s₁)) :
    part.following s next = [] := by
  rw [following, h]

theorem following_nil : (part.following s fun _ => ([] : List α)) = [] := by
  unfold following
  split <;> rfl

end Compile

open Compile

namespace Project

theorem closed_entering_lt {project : Project} {frame : Frame} {file : String} {node : Node}
    (hload : project.library.load (frame.directory.join file).normalize.path = .ok (some node))
    (hopened : (frame.directory.join file).normalize ∉ frame.opened) :
    project.library.closed (frame.entering file).opened < project.library.closed frame.opened :=
  Library.closed_lt hload hopened

/-- The references in the document of a saved sequence, given those of its elements. -/
def visitedInside (project : Project) (frame : Frame) (file : String) (s : Session)
    (visit : (inner : Frame) →
      project.library.closed inner.opened < project.library.closed frame.opened →
      List Element → Session → List Reference) : List Reference :=
  if hopened : (frame.directory.join file).normalize ∈ frame.opened then []
  else
    match hload : project.library.load (frame.directory.join file).normalize.path with
    | .ok (some node) =>
      match readSequence node with
      | .ok elements =>
        visit (frame.entering file) (closed_entering_lt hload hopened) elements
          (s.logged frame.opened (.loaded (frame.directory.join file).normalize.path))
      | .error _ => []
    | _ => []

/-- The references to expressions that a run over the elements of a frame comes to, in order. -/
def visited (project : Project) (frame : Frame) (elements : List Element) (s : Session) :
    List Reference :=
  if s.cancelled then []
  else
    match elements with
    | [] => []
    | element :: rest =>
      let first : List Reference :=
        match element with
        | .expression place file _ => [⟨frame.directory, frame.name, place, file⟩]
        | .sequence _ file =>
          project.visitedInside frame file s fun inner _ elements s₁ =>
            visited project inner elements s₁
        | .counterLoop _ _ children => visited project frame children s
        | .conditional _ spec _ _ ifBranch elseBranch =>
          if spec.conditions.isOk then visited project frame ifBranch s ++
            (project.compileList frame ifBranch).following s fun s₁ =>
              visited project frame elseBranch s₁
          else []
      first ++ (project.compileList frame [element]).following s fun s₁ =>
        visited project frame rest s₁
termination_by (project.library.closed frame.opened, sizeOf elements)

variable {project : Project} {frame : Frame} {s s₁ s' : Session}

theorem visited_of_cancelled (project : Project) (frame : Frame) (elements : List Element)
    (hc : s.cancelled = true) : project.visited frame elements s = [] := by
  rw [visited.eq_def, if_pos hc]

@[simp] theorem visited_nil (project : Project) (frame : Frame) (s : Session) :
    project.visited frame [] s = [] := by
  rw [visited]
  split <;> rfl

theorem following_visited_nil (project : Project) (frame : Frame) (part : Compile (List Code))
    (s : Session) : (part.following s fun s₁ => project.visited frame [] s₁) = [] := by
  simp only [visited_nil, following_nil]

theorem visited_expression {place : Place} {file : String} {delay : UInt32}
    (hc : s.cancelled = false) : project.visited frame [.expression place file delay] s =
      [⟨frame.directory, frame.name, place, file⟩] := by
  rw [visited, hc, if_neg Bool.false_ne_true]
  simp only [following_visited_nil, List.append_nil]

theorem visited_sequence {place : Place} {file : String} (hc : s.cancelled = false) :
    project.visited frame [.sequence place file] s =
      project.visitedInside frame file s fun inner _ elements s₁ =>
        project.visited inner elements s₁ := by
  rw [visited, hc, if_neg Bool.false_ne_true]
  simp only [following_visited_nil, List.append_nil]

theorem visited_counterLoop {place : Place} {iterations : UInt32} {children : List Element}
    (hc : s.cancelled = false) :
    project.visited frame [.counterLoop place iterations children] s =
      project.visited frame children s := by
  rw [visited, hc, if_neg Bool.false_ne_true]
  simp only [following_visited_nil, List.append_nil]

theorem visited_conditional {place : Place} {spec : SensorSpec} {ifRepeats elseRepeats : Bool}
    {ifBranch elseBranch : List Element} (hc : s.cancelled = false) :
    project.visited frame [.conditional place spec ifRepeats elseRepeats ifBranch elseBranch] s =
      if spec.conditions.isOk then project.visited frame ifBranch s ++
        (project.compileList frame ifBranch).following s fun s₁ =>
          project.visited frame elseBranch s₁
      else [] := by
  rw [visited, hc, if_neg Bool.false_ne_true]
  simp only [following_visited_nil, List.append_nil]

theorem visited_conditional_of_ok {place : Place} {spec : SensorSpec}
    {ifRepeats elseRepeats : Bool} {ifBranch elseBranch : List Element}
    {tests : Condition × Condition} (hc : s.cancelled = false)
    (hconditions : spec.conditions = .ok tests) :
    project.visited frame [.conditional place spec ifRepeats elseRepeats ifBranch elseBranch] s =
      project.visited frame ifBranch s ++ (project.compileList frame ifBranch).following s
        fun s₁ => project.visited frame elseBranch s₁ := by
  rw [visited_conditional hc, hconditions]
  rfl

/-- A list is visited as its first element and then the others. -/
theorem visited_cons (project : Project) (frame : Frame) (element : Element) (rest : List Element)
    (s : Session) :
    project.visited frame (element :: rest) s = project.visited frame [element] s ++
      (project.compileList frame [element]).following s fun s₁ =>
        project.visited frame rest s₁ := by
  cases hc : s.cancelled with
  | true =>
    rw [visited_of_cancelled project frame _ hc, visited_of_cancelled project frame _ hc,
      following_ok (compileList_of_cancelled project frame _ hc),
      visited_of_cancelled project frame _ hc]
    rfl
  | false =>
    rw [visited.eq_def, hc, if_neg Bool.false_ne_true]
    cases element with
    | expression => rw [visited_expression hc]
    | sequence => rw [visited_sequence hc]
    | counterLoop => rw [visited_counterLoop hc]
    | conditional => rw [visited_conditional hc]

theorem visitedInside_of_reads {file : String} {node : Node} {elements : List Element}
    (visit : Frame → List Element → Session → List Reference)
    (hclosed : (frame.directory.join file).normalize ∉ frame.opened)
    (hload : project.library.load (frame.directory.join file).normalize.path = .ok (some node))
    (hread : readSequence node = .ok elements) :
    (project.visitedInside frame file s fun inner _ elements s₁ => visit inner elements s₁) =
      visit (frame.entering file) elements
        (s.logged frame.opened (.loaded (frame.directory.join file).normalize.path)) := by
  rw [visitedInside, dif_neg hclosed]
  split
  · rename_i other hother
    cases hload.symm.trans hother
    simp only [hread]
  · rename_i hother
    exact absurd hload (hother node)

/-- Nothing is visited in a saved sequence that is not entered. -/
theorem visited_sequence_eq_nil {place : Place} {file : String} (hc : s.cancelled = false)
    (hnot : ∀ node elements, (frame.directory.join file).normalize ∉ frame.opened →
      project.library.load (frame.directory.join file).normalize.path = .ok (some node) →
      readSequence node ≠ .ok elements) :
    project.visited frame [.sequence place file] s = [] := by
  rw [visited_sequence hc, visitedInside]
  split
  · rfl
  · rename_i hopened
    split
    · rename_i node hload
      split
      · rename_i elements hread
        exact absurd hread (hnot node elements hopened hload)
      · rfl
    · rfl

/-- An element that takes a single step is visited as itself, or not at all. -/
theorem Step.visited_eq {element : Element} {result : Except Error (List Code)}
    (h : project.Step frame element s result s') (hc : s.cancelled = false) :
    project.visited frame [element] s = (frame.reference? element).toList := by
  have hexpression : ∀ place file delay, project.visited frame [.expression place file delay] s =
      (frame.reference? (.expression place file delay)).toList :=
    fun _ _ _ => visited_expression hc
  cases h with
  | again | malformedExpression | first => exact hexpression ..
  | selfReference hopened =>
    exact visited_sequence_eq_nil hc fun _ _ hclosed => absurd hopened hclosed
  | unloadable hwants hload =>
    cases hwants with
    | expression => exact hexpression ..
    | sequence =>
      refine visited_sequence_eq_nil hc fun _ _ _ hload' => ?_
      cases hload.symm.trans hload'
  | absent hwants hload =>
    cases hwants with
    | expression => exact hexpression ..
    | sequence =>
      refine visited_sequence_eq_nil hc fun _ _ _ hload' => ?_
      cases hload.symm.trans hload'
  | malformedSequence hclosed hload hread =>
    refine visited_sequence_eq_nil hc fun _ _ _ hload' hread' => ?_
    cases hload.symm.trans hload'
    cases hread.symm.trans hread'
  | unknownSensor hconditions =>
    rw [visited_conditional hc, hconditions]
    rfl

/-! ## What is registered -/

/-- The body of the document that a reference points to; none if there is no such document, or it
is not an expression that has one. -/
def body? (project : Project) (reference : Reference) : Option (List Instruction) :=
  match project.library.load (project.expressionPath reference.directory reference.file) with
  | .ok (some node) => ((Expression.read node).bind (·.body)).toOption
  | _ => none

/-- What a reference has registered, unless its identity is there. -/
def use? (project : Project) (reference : Reference) : Option (String × List Instruction) :=
  (project.body? reference).map (reference.file, ·)

/-- A single step registers what its reference has registered. -/
theorem Step.registry_eq {element : Element} {result : Except Error (List Code)}
    (h : project.Step frame element s result s') :
    s'.registry = s.registry.registerAll
      ((frame.reference? element).toList.filterMap project.use?) := by
  cases h with
  | @again s place file delay method hget =>
    cases hbody : project.body? ⟨frame.directory, frame.name, place, file⟩ with
    | none => simp [Frame.reference?, use?, hbody, Registry.registerAll]
    | some body =>
      simp [Frame.reference?, use?, hbody, Registry.registerAll,
        Registry.register_of_get?_some hget]
  | selfReference | malformedSequence | unknownSensor => rfl
  | unloadable hwants hload =>
    cases hwants with
    | expression => simp [Frame.reference?, use?, body?, hload, Registry.registerAll]
    | sequence => rfl
  | absent hwants hload =>
    cases hwants with
    | expression => simp [Frame.reference?, use?, body?, hload, Registry.registerAll]
    | sequence => rfl
  | malformedExpression hnew hload hread =>
    simp [Frame.reference?, use?, body?, hload, hread, Registry.registerAll, Except.toOption]
  | first hnew hload hread =>
    simp [Frame.reference?, use?, body?, hload, hread, Registry.registerAll, Except.toOption]

/-- A run registers, in order, what the references that it comes to have registered. -/
theorem Runs.registry_eq {elements : List Element} {result : Except Error (List Code)}
    (h : project.Runs frame elements s result s') :
    s'.registry = s.registry.registerAll
      ((project.visited frame elements s).filterMap project.use?) := by
  induction h with
  | nil => rw [visited_nil]; rfl
  | cancelled hc => rw [visited_of_cancelled project _ _ hc]; rfl
  | cons hfirst hrest ihfirst ihrest =>
    rw [visited_cons, following_ok hfirst.runFrom_eq, List.filterMap_append,
      Registry.registerAll_append, ← ihfirst, ihrest]
  | fails hfirst ih =>
    rw [visited_cons, following_error hfirst.runFrom_eq, List.append_nil, ih]
  | step hc hstep => rw [hstep.visited_eq hc, hstep.registry_eq]
  | document hc hclosed hload hread hbody ih =>
    rw [visited_sequence hc, visitedInside_of_reads _ hclosed hload hread, ih,
      Session.logged_registry]
  | counterLoop hc hbody ih => rw [visited_counterLoop hc, ih]
  | conditional hc hconditions hif helse ihif ihelse =>
    rw [visited_conditional_of_ok hc hconditions, following_ok hif.runFrom_eq,
      List.filterMap_append, Registry.registerAll_append, ← ihif, ihelse]
  | ifBranchFails hc hconditions hif ih =>
    rw [visited_conditional_of_ok hc hconditions, following_error hif.runFrom_eq, List.append_nil,
      ih]

/-- The references that compiling a document comes to, in order; none if it cannot be read. -/
def visitedFrom (project : Project) (document : Node) (name : String) (directory : Path)
    (s : Session) : List Reference :=
  match readSequence document with
  | .ok elements =>
    project.visited ⟨directory, name, [(directory.join name).normalize]⟩ elements s
  | .error _ => []

theorem RunsDocument.registry_eq {document : Node} {name : String} {directory : Path}
    {outcome : Except Error (List Code) × Session}
    (h : project.RunsDocument document name directory s outcome) :
    outcome.2.registry = s.registry.registerAll
      ((project.visitedFrom document name directory s).filterMap project.use?) := by
  cases h with
  | malformed hread => rw [visitedFrom, hread]; rfl
  | elements hread hruns => rw [visitedFrom, hread]; exact hruns.registry_eq

/-! ## First uses -/

/-- The methods are the first uses among references: one for each identity of those that have a
body, in the order in which the identities come up, and each with the body of the first one. -/
structure FirstUses (project : Project) (visited : List Reference)
    (methods : List (Method (List Instruction))) : Prop where
  identities : methods.map (·.identity) =
    ((visited.filter fun reference => (project.body? reference).isSome).map
      Reference.identity).eraseDups
  bodies : ∀ method ∈ methods, ∃ before reference after,
    visited = before ++ reference :: after ∧ reference.identity = method.identity ∧
      project.body? reference = some method.body ∧
      ∀ earlier ∈ before, earlier.identity = method.identity → project.body? earlier = none

theorem map_identity_filterMap_use? (visited : List Reference) :
    (visited.filterMap project.use?).map (Identifier.identity ·.1) =
      (visited.filter fun reference => (project.body? reference).isSome).map
        Reference.identity := by
  induction visited with
  | nil => rfl
  | cons reference rest ih =>
    cases hbody : project.body? reference with
    | none => simpa [use?, hbody] using ih
    | some body => simpa [use?, hbody, Reference.identity] using ih

/-- What is registered for references is the list of first uses among them. -/
theorem firstUses_registerAll (project : Project) (visited : List Reference) :
    project.FirstUses visited
      (Registry.empty.registerAll (visited.filterMap project.use?)).methods where
  identities := by
    rw [← map_identity_filterMap_use?]
    exact Registry.identities_registerAll _
  bodies method hmem := by
    have hsound := Registry.sound_empty.registerAll (visited.filterMap project.use?)
    obtain hold | ⟨use, -, hidentity, -⟩ := Registry.exists_use_of_mem_registerAll hmem
    · cases hold
    have hget := hsound.get?_of_mem hmem hidentity
    obtain ⟨before, first, hfirst, hmethod⟩ := Registry.get?_registerAll_iff.1 hget
    rw [hfirst.register_eq] at hmethod
    subst hmethod
    obtain ⟨after, hsplit⟩ := hfirst.split
    obtain ⟨front, back, rfl, hfront, hback⟩ := List.filterMap_eq_append_iff.1 hsplit
    obtain ⟨passed, reference, rest, rfl, hpassed, huse, -⟩ := List.filterMap_eq_cons_iff.1 hback
    obtain ⟨body, hbody, rfl⟩ := Option.map_eq_some_iff.1 huse
    refine ⟨front ++ passed, reference, rest, by simp, hfirst.identity_eq, hbody, ?_⟩
    intro earlier hearlier hsame
    rcases List.mem_append.1 hearlier with hmem | hmem
    · by_contra hsome
      obtain ⟨other, hother⟩ := Option.ne_none_iff_exists'.1 hsome
      have huse' : (earlier.file, other) ∈ before := by
        rw [← hfront]
        exact List.mem_filterMap.2 ⟨earlier, hmem, by rw [use?, hother]; rfl⟩
      exact hfirst.earlier _ huse' hsame
    · exact Option.map_eq_none_iff.1 (hpassed earlier hmem)

/-- However a run over a document ends, the registry is the list of the first uses among the
references that the run came to. What has been registered stays as it is through every run. -/
theorem registry_lists_first_uses (project : Project) (document : Node) (name : String)
    (directory : Path) :
    project.FirstUses (project.visitedFrom document name directory {})
      ((project.compileSequence document name directory).runFrom {}).2.registry.methods ∧
    ∀ frame elements s, s.registry.methods <+:
      ((project.compileList frame elements).runFrom s).2.registry.methods := by
  constructor
  · have hruns := runsDocument_iff.2 (rfl :
      (project.compileSequence document name directory).runFrom {} = _)
    rw [hruns.registry_eq]
    exact firstUses_registerAll ..
  · intro frame elements s
    obtain ⟨result, s', hruns⟩ := exists_runs project frame elements s
    rw [hruns.runFrom_eq]
    exact hruns.grows.methods

end Project

end RobotSketch
