import RobotSketch.Proofs.Registry.History
import RobotSketch.Proofs.Termination

/-!
# The errors of a project in document order

A survey of a sequence document goes over its elements depth first: what an element holds comes
right behind the element, and then what follows it. At each element it notes what is found there,
and unlike a compilation it does not stop at an error: it passes over the element and goes on. Only
an answer to stop ends it early.

The main statement is `errors_name_culprit`: a compilation reports the first error of the survey,
unchanged by all that encloses it. An unknown sensor is reported with the name of the document that
has it, and a malformed document under a name by which a reference calls it.
-/
namespace RobotSketch

/-! ## What is found at an element -/

/-- An element in place: the frame of its document, and all elements of that document. -/
structure Spot where
  frame : Frame
  document : List Element
  element : Element

/-- What a survey has brought about so far. -/
structure Standing where
  /-- The identities that have a subroutine. -/
  known : List String
  asked : List Question
  cancelled : Bool

/-- What is found at an element. -/
inductive Finding where
  | flaw (error : Error)
  /-- A document is missing. -/
  | missing (file : String)
  /-- The first use of an expression. -/
  | subroutine (file : String)
  /-- Other elements, or nothing. -/
  | spots (inside : List Spot)

namespace Finding

/-- The error that is found. -/
def flaw? : Finding → Option Error
  | .flaw error => some error
  | _ => none

/-- The elements to go on with. -/
def inside : Finding → List Spot
  | .spots inside => inside
  | _ => []

theorem eq_flaw_of_flaw? {finding : Finding} {error : Error} (h : finding.flaw? = some error) :
    finding = .flaw error := by
  cases finding with
  | flaw => exact congrArg flaw (Option.some.inj h)
  | missing | subroutine | spots => cases h

end Finding

/-- The elements of a list, in place. -/
def Frame.spots (frame : Frame) (document elements : List Element) : List Spot :=
  elements.map (⟨frame, document, ·⟩)

namespace Project

/-- What is found where a document is looked for. -/
def findingAt (project : Project) {α : Type} (path : Path) (file : String)
    (read : Node → Except Defect α) (found : α → Finding) : Finding :=
  match project.library.load path with
  | .error error => .flaw error
  | .ok none => .missing file
  | .ok (some node) =>
    match read node with
    | .error defect => .flaw (defect.inFile file)
    | .ok contents => found contents

/-- What is found at an element, when some identities have a subroutine. -/
def finding (project : Project) (known : List String) (spot : Spot) : Finding :=
  match spot.element with
  | .expression _ file _ =>
    if Identifier.identity file ∈ known then .spots []
    else
      project.findingAt (project.expressionPath spot.frame.directory file) file
        (fun node => (Expression.read node).bind (·.body)) fun _ => .subroutine file
  | .sequence _ file =>
    if (spot.frame.directory.join file).normalize ∈ spot.frame.opened then
      .flaw ((Defect.selfReference file).inFile spot.frame.name)
    else
      project.findingAt (spot.frame.directory.join file).normalize.path file readSequence
        fun elements => .spots ((spot.frame.entering file).spots elements elements)
  | .counterLoop _ _ children => .spots (spot.frame.spots spot.document children)
  | .conditional _ spec _ _ ifBranch elseBranch =>
    if (SensorProfile.find? spec.sensor).isSome then
      .spots (spot.frame.spots spot.document (ifBranch ++ elseBranch))
    else .flaw (.unknownSensor spec.sensor spot.frame.name)

section Finding

variable {project : Project} {known : List String} {frame : Frame} {document : List Element}
variable {place : Place} {file : String}

theorem finding_expression {delay : UInt32} (hnew : Identifier.identity file ∉ known) :
    project.finding known ⟨frame, document, .expression place file delay⟩ =
      project.findingAt (project.expressionPath frame.directory file) file
        (fun node => (Expression.read node).bind (·.body)) fun _ => .subroutine file :=
  if_neg hnew

theorem finding_sequence (hclosed : (frame.directory.join file).normalize ∉ frame.opened) :
    project.finding known ⟨frame, document, .sequence place file⟩ =
      project.findingAt (frame.directory.join file).normalize.path file readSequence
        fun elements => .spots ((frame.entering file).spots elements elements) :=
  if_neg hclosed

theorem finding_conditional {spec : SensorSpec} {ifRepeats elseRepeats : Bool}
    {ifBranch elseBranch : List Element}
    (hknown : (SensorProfile.find? spec.sensor).isSome = true) :
    project.finding known
        ⟨frame, document, .conditional place spec ifRepeats elseRepeats ifBranch elseBranch⟩ =
      .spots (frame.spots document ifBranch ++ frame.spots document elseBranch) := by
  unfold finding
  simp only [hknown, if_true, Frame.spots, List.map_append]

end Finding

/-- Looking for a document ends in one of four ways. -/
theorem findingAt_cases (project : Project) {α : Type} (path : Path) (file : String)
    (read : Node → Except Defect α) (found : α → Finding) :
    (∃ error, project.library.load path = .error error ∧
      project.findingAt path file read found = .flaw error) ∨
    (project.library.load path = .ok none ∧
      project.findingAt path file read found = .missing file) ∨
    (∃ node defect, project.library.load path = .ok (some node) ∧ read node = .error defect ∧
      project.findingAt path file read found = .flaw (defect.inFile file)) ∨
    ∃ node contents, project.library.load path = .ok (some node) ∧ read node = .ok contents ∧
      project.findingAt path file read found = found contents := by
  unfold findingAt
  rcases project.library.load path with error | (- | node)
  · exact .inl ⟨error, rfl, rfl⟩
  · exact .inr (.inl ⟨rfl, rfl⟩)
  · cases hread : read node with
    | error defect => exact .inr (.inr (.inl ⟨node, defect, rfl, hread, by simp only [hread]⟩))
    | ok contents => exact .inr (.inr (.inr ⟨node, contents, rfl, hread, by simp only [hread]⟩))

/-- Elements are found in a document only where it is loaded and read. -/
theorem mem_inside_findingAt {project : Project} {α : Type} {path : Path} {file : String}
    {read : Node → Except Defect α} {found : α → Finding} {inner : Spot}
    (h : inner ∈ (project.findingAt path file read found).inside) :
    ∃ node contents, project.library.load path = .ok (some node) ∧ read node = .ok contents ∧
      inner ∈ (found contents).inside := by
  rcases project.findingAt_cases path file read found with
    ⟨_, _, heq⟩ | ⟨_, heq⟩ | ⟨_, _, _, _, heq⟩ | ⟨node, contents, hload, hread, heq⟩
  · rw [heq] at h; cases h
  · rw [heq] at h; cases h
  · rw [heq] at h; cases h
  · exact ⟨node, contents, hload, hread, heq ▸ h⟩

/-- A finding in a document called `name` changes how things stand: a first use makes an identity
known, and a missing document is asked about. -/
def standingAfter (project : Project) (name : String) (standing : Standing) : Finding → Standing
  | .missing file =>
    { standing with
      asked := standing.asked ++ [⟨file, name⟩]
      cancelled := project.handler standing.asked ⟨file, name⟩ == .abort }
  | .subroutine file =>
    { standing with known := standing.known ++ [Identifier.identity file] }
  | _ => standing

end Project

/-! ## Surveys -/

/-- An element that a survey has come to. -/
structure Visit where
  spot : Spot
  finding : Finding

def firstFlaw? (visits : List Visit) : Option Error := visits.findSome? (·.finding.flaw?)

namespace Project

/-- A survey of elements, depth first: what an element holds comes before what follows it. -/
inductive Surveys (project : Project) : List Spot → Standing → List Visit → Prop where
  | done {standing : Standing} : Surveys project [] standing []
  | cancelled {todo : List Spot} {standing : Standing} (hc : standing.cancelled = true) :
    Surveys project todo standing []
  | visit {spot : Spot} {todo : List Spot} {standing : Standing} {visits : List Visit}
      (hc : standing.cancelled = false)
      (hrest : Surveys project ((project.finding standing.known spot).inside ++ todo)
        (project.standingAfter spot.frame.name standing (project.finding standing.known spot))
        visits) :
    Surveys project (spot :: todo) standing (⟨spot, project.finding standing.known spot⟩ :: visits)

variable {project : Project}

theorem Surveys.of_cons {spot : Spot} {todo : List Spot} {standing : Standing}
    {visits : List Visit} (h : project.Surveys (spot :: todo) standing visits)
    (hc : standing.cancelled = false) :
    ∃ rest, visits = ⟨spot, project.finding standing.known spot⟩ :: rest ∧
      project.Surveys ((project.finding standing.known spot).inside ++ todo)
        (project.standingAfter spot.frame.name standing (project.finding standing.known spot))
        rest := by
  cases h with
  | cancelled hcancelled => cases hc.symm.trans hcancelled
  | visit _ hrest => exact ⟨_, rfl, hrest⟩

/-- There is one survey at most. -/
theorem Surveys.unique {todo : List Spot} {standing : Standing} {visits₁ visits₂ : List Visit}
    (h₁ : project.Surveys todo standing visits₁) (h₂ : project.Surveys todo standing visits₂) :
    visits₁ = visits₂ := by
  induction h₁ generalizing visits₂ with
  | done => cases h₂ <;> rfl
  | cancelled hc =>
    cases h₂ with
    | done | cancelled => rfl
    | visit hc' => cases hc.symm.trans hc'
  | visit hc _ ih =>
    obtain ⟨rest, rfl, hrest⟩ := h₂.of_cons hc
    rw [ih hrest]

/-! ## Every survey ends -/

/-- An element leads to another: it holds it, or its document does. -/
inductive LeadsTo (project : Project) : Spot → Spot → Prop where
  | document {frame : Frame} {outer document : List Element} {place : Place} {file : String}
      {node : Node} {element : Element}
      (hclosed : (frame.directory.join file).normalize ∉ frame.opened)
      (hload : project.library.load (frame.directory.join file).normalize.path = .ok (some node))
      (hread : readSequence node = .ok document) (hmem : element ∈ document) :
    LeadsTo project ⟨frame, outer, .sequence place file⟩ ⟨frame.entering file, document, element⟩
  | child {frame : Frame} {document : List Element} {place : Place} {iterations : UInt32}
      {children : List Element} {element : Element} (hmem : element ∈ children) :
    LeadsTo project ⟨frame, document, .counterLoop place iterations children⟩
      ⟨frame, document, element⟩
  | branch {frame : Frame} {document : List Element} {place : Place} {spec : SensorSpec}
      {ifRepeats elseRepeats : Bool} {ifBranch elseBranch : List Element} {element : Element}
      (hmem : element ∈ ifBranch ∨ element ∈ elseBranch) :
    LeadsTo project
      ⟨frame, document, .conditional place spec ifRepeats elseRepeats ifBranch elseBranch⟩
      ⟨frame, document, element⟩

theorem leadsTo_of_mem_inside {known : List String} {spot inner : Spot}
    (h : inner ∈ (project.finding known spot).inside) : project.LeadsTo spot inner := by
  obtain ⟨frame, document, element⟩ := spot
  cases element with
  | expression place file delay =>
    simp only [finding] at h
    split at h
    · cases h
    · obtain ⟨_, _, -, -, hnil⟩ := mem_inside_findingAt h
      cases hnil
  | sequence place file =>
    simp only [finding] at h
    split at h
    · cases h
    · rename_i hclosed
      obtain ⟨node, contents, hload, hread, hinner⟩ := mem_inside_findingAt h
      obtain ⟨element, hmem, rfl⟩ := List.mem_map.1 hinner
      exact .document hclosed hload hread hmem
  | counterLoop place iterations children =>
    obtain ⟨element, hmem, rfl⟩ := List.mem_map.1 h
    exact .child hmem
  | conditional place spec ifRepeats elseRepeats ifBranch elseBranch =>
    simp only [finding] at h
    split at h
    · obtain ⟨element, hmem, rfl⟩ := List.mem_map.1 h
      exact .branch (List.mem_append.1 hmem)
    · cases h

/-- An element leads to smaller ones, or into a document that was closed. -/
theorem LeadsTo.smaller {spot inner : Spot} (h : project.LeadsTo spot inner) :
    Prod.Lex (· < ·) (· < ·) (project.library.closed inner.frame.opened, sizeOf inner.element)
      (project.library.closed spot.frame.opened, sizeOf spot.element) := by
  cases h with
  | document hclosed hload => exact .left _ _ (Library.closed_lt hload hclosed)
  | child hmem =>
    have hlt := List.sizeOf_lt_of_mem hmem
    refine .right _ ?_
    simp only [Element.counterLoop.sizeOf_spec]
    omega
  | branch hmem =>
    refine .right _ ?_
    simp only [Element.conditional.sizeOf_spec]
    rcases hmem with hmem | hmem
    · have hlt := List.sizeOf_lt_of_mem hmem
      omega
    · have hlt := List.sizeOf_lt_of_mem hmem
      omega

theorem wellFounded_leadsTo (project : Project) :
    WellFounded fun inner spot : Spot => project.LeadsTo spot inner :=
  Subrelation.wf LeadsTo.smaller
    (InvImage.wf
      (fun spot : Spot => (project.library.closed spot.frame.opened, sizeOf spot.element))
      (Prod.lex Nat.lt_wfRel Nat.lt_wfRel).wf)

/-- An element can be surveyed before whatever can be surveyed. -/
theorem exists_surveys_cons (spot : Spot) {todo : List Spot}
    (htodo : ∀ standing, ∃ visits, project.Surveys todo standing visits) (standing : Standing) :
    ∃ visits, project.Surveys (spot :: todo) standing visits := by
  induction spot using (wellFounded_leadsTo project).induction generalizing todo standing with
  | _ spot ih =>
    cases hc : standing.cancelled with
    | true => exact ⟨_, .cancelled hc⟩
    | false =>
      -- What the element leads to is put in front of the others one by one, last first.
      have hinside : ∀ inside : List Spot,
          (∀ inner ∈ inside, project.LeadsTo spot inner) →
          ∀ standing, ∃ visits, project.Surveys (inside ++ todo) standing visits := by
        intro inside hinside
        induction inside with
        | nil => exact htodo
        | cons inner rest ihrest =>
          exact fun standing => ih inner (hinside inner List.mem_cons_self)
            (ihrest fun other hother => hinside other (List.mem_cons_of_mem _ hother)) standing
      obtain ⟨visits, hvisits⟩ := hinside _ (fun inner => leadsTo_of_mem_inside)
        (project.standingAfter spot.frame.name standing (project.finding standing.known spot))
      exact ⟨_, .visit hc hvisits⟩

theorem exists_surveys (project : Project) (todo : List Spot) (standing : Standing) :
    ∃ visits, project.Surveys todo standing visits := by
  induction todo generalizing standing with
  | nil => exact ⟨_, .done⟩
  | cons spot rest ih => exact exists_surveys_cons spot ih standing

end Project

/-! ## Compilations report the first error -/

/-- How things stand in a session. -/
def Session.standing (s : Session) : Standing := ⟨s.registry.identities, s.asked, s.cancelled⟩

theorem Session.standing_loaded (s : Session) (opened : List NormalPath) (path : Path) :
    (s.logged opened (.loaded path)).standing = s.standing := by
  simp [standing, Event.question?]

theorem Session.not_mem_known {s : Session} {file : String} (h : s.registry.get? file = none) :
    Identifier.identity file ∉ s.standing.known := Registry.get?_eq_none_iff.1 h

theorem SensorSpec.conditions_of_find?_none {spec : SensorSpec}
    (h : SensorProfile.find? spec.sensor = none) :
    spec.conditions = .error (.unknownSensor spec.sensor "") := by
  unfold conditions sensorThreshold
  simp only [h]
  rfl

theorem SensorSpec.isSome_find?_of_conditions {spec : SensorSpec} {tests : Condition × Condition}
    (h : spec.conditions = .ok tests) : (SensorProfile.find? spec.sensor).isSome = true := by
  cases hfind : SensorProfile.find? spec.sensor with
  | none => cases (conditions_of_find?_none hfind).symm.trans h
  | some profile => rfl

theorem SensorSpec.of_conditions_error {spec : SensorSpec} {error : Error}
    (h : spec.conditions = .error error) :
    SensorProfile.find? spec.sensor = none ∧ error = .unknownSensor spec.sensor "" := by
  cases hfind : SensorProfile.find? spec.sensor with
  | none => exact ⟨rfl, Except.error.inj (h.symm.trans (conditions_of_find?_none hfind))⟩
  | some profile =>
    unfold conditions sensorThreshold at h
    simp only [hfind] at h
    cases h

namespace Project

variable {project : Project} {frame : Frame} {s s' : Session}

theorem Wants.finding_eq {element : Element} {file : String} {path : Path}
    (h : project.Wants frame s element file path) (document : List Element) :
    ∃ (α : Type) (read : Node → Except Defect α) (found : α → Finding),
      project.finding s.standing.known ⟨frame, document, element⟩ =
        project.findingAt path file read found := by
  cases h with
  | expression hnew => exact ⟨_, _, _, finding_expression (Session.not_mem_known hnew)⟩
  | sequence hclosed => exact ⟨_, _, _, finding_sequence hclosed⟩

/-- A step fails with what is found at its element. -/
theorem Step.finding_of_error {element : Element} {error : Error}
    (h : project.Step frame element s (.error error) s') (document : List Element) :
    project.finding s.standing.known ⟨frame, document, element⟩ = .flaw error := by
  cases h with
  | selfReference hopened => exact if_pos hopened
  | unloadable hwants hload =>
    obtain ⟨_, _, _, heq⟩ := hwants.finding_eq document
    rw [heq, findingAt, hload]
  | malformedExpression hnew hload hread =>
    rw [finding_expression (Session.not_mem_known hnew), findingAt, hload]
    simp only [hread]
  | malformedSequence hclosed hload hread =>
    rw [finding_sequence hclosed, findingAt, hload]
    simp only [hread]
  | unknownSensor hconditions =>
    obtain ⟨hnone, rfl⟩ := SensorSpec.of_conditions_error hconditions
    simp only [finding, hnone]
    rfl

/-- A step that does not fail leaves things standing as the finding at its element does. -/
theorem Step.finding_of_ok {element : Element} {code : List Code}
    (h : project.Step frame element s (.ok code) s') (hc : s.cancelled = false)
    (document : List Element) :
    ∃ finding, project.finding s.standing.known ⟨frame, document, element⟩ = finding ∧
      finding.flaw? = none ∧ finding.inside = [] ∧
      project.standingAfter frame.name s.standing finding = s'.standing := by
  cases h with
  | again hget =>
    exact ⟨.spots [], if_pos (Registry.identity_mem_of_get? hget), rfl, rfl, rfl⟩
  | @absent _ _ file _ hwants hload =>
    obtain ⟨_, _, _, heq⟩ := hwants.finding_eq document
    refine ⟨.missing file, ?_, rfl, rfl, ?_⟩
    · rw [heq, findingAt, hload]
    · simp [standingAfter, Session.standing, hc, Event.question?]
  | @first _ _ file _ _ _ hnew hload hread =>
    refine ⟨.subroutine file, ?_, rfl, rfl, ?_⟩
    · rw [finding_expression (Session.not_mem_known hnew), findingAt, hload]
      simp only [hread]
    · simp [standingAfter, Session.standing, Registry.identities_register,
        Registry.get?_eq_none_iff.1 hnew]

/-- What a compilation of some elements says of a survey of these elements and others behind them:
if it fails, its error is the first one; if not, there is no error before the others. -/
def Agrees (project : Project) (todo : List Spot) (visits : List Visit) (s' : Session) :
    Except Error (List Code) → Prop
  | .error error => firstFlaw? visits = some error
  | .ok _ => ∃ rest, project.Surveys todo s'.standing rest ∧ firstFlaw? visits = firstFlaw? rest

theorem Agrees.map {todo : List Spot} {visits : List Visit} {result : Except Error (List Code)}
    (h : project.Agrees todo visits s' result) (f : List Code → List Code) :
    project.Agrees todo visits s' (result.map f) := by
  cases result <;> exact h

theorem firstFlaw?_cons {visit : Visit} (h : visit.finding.flaw? = none) (visits : List Visit) :
    firstFlaw? (visit :: visits) = firstFlaw? visits := List.findSome?_cons_of_isNone (by simp [h])

/-- An element at which nothing is found but other elements. -/
theorem Surveys.enter {spot : Spot} {inside todo : List Spot} {visits : List Visit}
    (h : project.Surveys (spot :: todo) s.standing visits) (hc : s.cancelled = false)
    (hfinding : project.finding s.standing.known spot = .spots inside) :
    ∃ rest, project.Surveys (inside ++ todo) s.standing rest ∧
      firstFlaw? visits = firstFlaw? rest := by
  obtain ⟨rest, rfl, hrest⟩ := h.of_cons hc
  rw [hfinding] at hrest ⊢
  exact ⟨rest, hrest, firstFlaw?_cons rfl rest⟩

theorem Agrees.of_firstFlaw?_eq {todo : List Spot} {visits rest : List Visit}
    {result : Except Error (List Code)} (h : project.Agrees todo rest s' result)
    (heq : firstFlaw? visits = firstFlaw? rest) : project.Agrees todo visits s' result := by
  cases result with
  | error error => exact heq.trans h
  | ok code =>
    obtain ⟨others, hothers, hfirst⟩ := h
    exact ⟨others, hothers, heq.trans hfirst⟩

theorem Step.agrees {element : Element} {result : Except Error (List Code)}
    (h : project.Step frame element s result s') (hc : s.cancelled = false)
    {document : List Element} {todo : List Spot} {visits : List Visit}
    (hvisits : project.Surveys (⟨frame, document, element⟩ :: todo) s.standing visits) :
    project.Agrees todo visits s' result := by
  obtain ⟨rest, rfl, hrest⟩ := hvisits.of_cons hc
  cases result with
  | error error =>
    refine List.findSome?_cons_of_isSome ?_ |>.trans ?_
    all_goals simp [h.finding_of_error document, Finding.flaw?]
  | ok code =>
    obtain ⟨finding, heq, hflaw, hinside, hstanding⟩ := h.finding_of_ok hc document
    rw [heq, hinside, hstanding] at hrest
    exact ⟨rest, hrest, firstFlaw?_cons (heq ▸ hflaw) rest⟩

/-- A compilation of elements agrees with every survey that begins with them. -/
theorem Runs.agrees {elements : List Element} {result : Except Error (List Code)}
    (h : project.Runs frame elements s result s') {document : List Element} {todo : List Spot}
    {visits : List Visit}
    (hvisits : project.Surveys (frame.spots document elements ++ todo) s.standing visits) :
    project.Agrees todo visits s' result := by
  induction h generalizing document todo visits with
  | nil => exact ⟨visits, hvisits, rfl⟩
  | cancelled hc =>
    rw [hvisits.unique (.cancelled hc)]
    exact ⟨[], .cancelled hc, rfl⟩
  | @cons frame _ others _ _ _ _ _ _ _ ihfirst ihrest =>
    -- Of the elements to come, the others of this list are nearest.
    obtain ⟨rest, hrest, hfirst⟩ :=
      @ihfirst document (frame.spots document others ++ todo) visits hvisits
    exact ((ihrest hrest).of_firstFlaw?_eq hfirst).map _
  | @fails frame _ others _ _ _ _ ih =>
    exact @ih document (frame.spots document others ++ todo) visits hvisits
  | step hc hstep => exact hstep.agrees hc hvisits
  | @document frame place file node elements s s' result hc hclosed hload hread _ ih =>
    have hfinding : project.finding s.standing.known ⟨frame, document, .sequence place file⟩ =
        .spots ((frame.entering file).spots elements elements) := by
      rw [finding_sequence hclosed, findingAt, hload]
      simp only [hread]
    obtain ⟨rest, hrest, hfirst⟩ := hvisits.enter hc hfinding
    rw [← s.standing_loaded] at hrest
    exact ((ih hrest).of_firstFlaw?_eq hfirst).map _
  | counterLoop hc _ ih =>
    obtain ⟨rest, hrest, hfirst⟩ := hvisits.enter hc rfl
    exact ((ih hrest).of_firstFlaw?_eq hfirst).map _
  | @conditional frame place spec _ _ ifBranch elseBranch _ _ s s₁ s' ifBody result hc hconditions
      _ _ ihif ihelse =>
    obtain ⟨rest, hrest, hfirst⟩ :=
      hvisits.enter hc (finding_conditional (SensorSpec.isSome_find?_of_conditions hconditions))
    rw [List.append_assoc] at hrest
    obtain ⟨others, hothers, hsecond⟩ := ihif hrest
    exact ((ihelse hothers).of_firstFlaw?_eq (hfirst.trans hsecond)).map _
  | ifBranchFails hc hconditions _ ih =>
    obtain ⟨rest, hrest, hfirst⟩ :=
      hvisits.enter hc (finding_conditional (SensorSpec.isSome_find?_of_conditions hconditions))
    rw [List.append_assoc] at hrest
    exact (ih hrest).of_firstFlaw?_eq hfirst

end Project

/-! ## Where an element is -/

/-- The elements of a document, at any depth of loops and branches. -/
inductive Element.AtDepth (document : List Element) : Element → Prop where
  | top {element : Element} (hmem : element ∈ document) : AtDepth document element
  | child {place : Place} {iterations : UInt32} {children : List Element} {element : Element}
      (hloop : AtDepth document (.counterLoop place iterations children))
      (hmem : element ∈ children) : AtDepth document element
  | branch {place : Place} {spec : SensorSpec} {ifRepeats elseRepeats : Bool}
      {ifBranch elseBranch : List Element} {element : Element}
      (hconditional : AtDepth document
        (.conditional place spec ifRepeats elseRepeats ifBranch elseBranch))
      (hmem : element ∈ ifBranch ∨ element ∈ elseBranch) : AtDepth document element

namespace Project

/-- A frame and a document: those of the root, or those that a saved sequence visited before has
led to. -/
inductive Entered (project : Project) (root : Frame) (elements : List Element)
    (before : List Visit) : Frame → List Element → Prop where
  | root : Entered project root elements before root elements
  | saved {frame : Frame} {outer document : List Element} {place : Place} {file : String}
      {finding : Finding} {node : Node}
      (hvisit : ⟨⟨frame, outer, .sequence place file⟩, finding⟩ ∈ before)
      (hload : project.library.load (frame.directory.join file).normalize.path = .ok (some node))
      (hread : readSequence node = .ok document) :
    Entered project root elements before (frame.entering file) document

/-- An element is at some depth of a document that has been entered. -/
structure Placed (project : Project) (root : Frame) (elements : List Element)
    (before : List Visit) (spot : Spot) : Prop where
  entered : project.Entered root elements before spot.frame spot.document
  atDepth : Element.AtDepth spot.document spot.element

variable {project : Project} {root : Frame} {elements : List Element} {before : List Visit}
variable {spot : Spot}

theorem Entered.append {frame : Frame} {document : List Element}
    (h : project.Entered root elements before frame document) (more : List Visit) :
    project.Entered root elements (before ++ more) frame document := by
  cases h with
  | root => exact .root
  | saved hvisit hload hread => exact .saved (List.mem_append_left _ hvisit) hload hread

theorem Placed.append (h : project.Placed root elements before spot) (more : List Visit) :
    project.Placed root elements (before ++ more) spot := ⟨h.entered.append more, h.atDepth⟩

/-- What an element leads to is in the same document, or in the one that is entered there. -/
theorem Placed.leadsTo (h : project.Placed root elements before spot) {inner : Spot}
    (hinner : project.LeadsTo spot inner) (finding : Finding) :
    project.Placed root elements (before ++ [⟨spot, finding⟩]) inner := by
  have hsame := h.append [⟨spot, finding⟩]
  cases hinner with
  | document _ hload hread hmem =>
    exact ⟨.saved (List.mem_append_right _ List.mem_cons_self) hload hread, .top hmem⟩
  | child hmem => exact ⟨hsame.entered, hsame.atDepth.child hmem⟩
  | branch hmem => exact ⟨hsame.entered, hsame.atDepth.branch hmem⟩

/-- Every element that a survey comes to is placed after those it came to before. -/
theorem Surveys.placed {todo : List Spot} {standing : Standing} {visits after : List Visit}
    {visit : Visit} (h : project.Surveys todo standing visits) {passed : List Visit}
    (htodo : ∀ spot ∈ todo, project.Placed root elements passed spot)
    (hvisits : visits = before ++ visit :: after) :
    project.Placed root elements (passed ++ before) visit.spot := by
  induction h generalizing passed before with
  | done => simp at hvisits
  | cancelled => simp at hvisits
  | @visit spot todo standing visits _ _ ih =>
    have hspot := htodo spot List.mem_cons_self
    cases before with
    | nil =>
      cases hvisits
      rw [List.append_nil]
      exact hspot
    | cons first rest =>
      obtain ⟨rfl, htail⟩ := List.cons.inj hvisits
      rw [List.append_cons]
      refine ih (fun inner hinner => ?_) htail
      rcases List.mem_append.1 hinner with hinner | hinner
      · exact hspot.leadsTo (leadsTo_of_mem_inside hinner) _
      · exact (htodo inner (List.mem_cons_of_mem _ hinner)).append _

end Project

/-! ## Whom an error names -/

/-- A text held in memory that is no document is reported by the last name of its path. -/
theorem Documents.load_error {documents : Documents} {path : Path} {error : Error}
    (h : documents.load path = .error error) :
    ∃ details, error = .malformed path.displayName details := by
  unfold load Node.parseFile at h
  split at h
  · cases h
  · rename_i source _
    cases hparse : Node.parse source with
    | error defect =>
      rw [hparse] at h
      exact ⟨defect.message, (Except.error.inj h).symm⟩
    | ok node =>
      rw [hparse] at h
      cases h

namespace Project

variable {project : Project} {root : Frame} {elements : List Element} {before : List Visit}
variable {spot : Spot}

/-- An element refers to a file, which is looked for at a path. -/
inductive RefersTo (project : Project) : Spot → String → Path → Prop where
  | expression {frame : Frame} {document : List Element} {place : Place} {file : String}
      {delay : UInt32} :
    RefersTo project ⟨frame, document, .expression place file delay⟩ file
      (project.expressionPath frame.directory file)
  | sequence {frame : Frame} {document : List Element} {place : Place} {file : String} :
    RefersTo project ⟨frame, document, .sequence place file⟩ file
      (frame.directory.join file).normalize.path

/-- An error names what is wrong at an element. -/
inductive Names (project : Project) (spot : Spot) : Error → Prop where
  | sensor {place : Place} {spec : SensorSpec} {ifRepeats elseRepeats : Bool}
      {ifBranch elseBranch : List Element}
      (helement : spot.element =
        .conditional place spec ifRepeats elseRepeats ifBranch elseBranch)
      (hunknown : SensorProfile.find? spec.sensor = none) :
    Names project spot (.unknownSensor spec.sensor spot.frame.name)
  /-- The document that the element is in. -/
  | enclosing {details : String} : Names project spot (.malformed spot.frame.name details)
  /-- The document that the element refers to, as the element calls it. -/
  | file {file details : String} {path : Path} (hrefers : project.RefersTo spot file path) :
    Names project spot (.malformed file details)
  /-- The document that the element refers to, as it is called where it is found. -/
  | found {file details : String} {path : Path} (hrefers : project.RefersTo spot file path) :
    Names project spot (.malformed path.displayName details)

theorem findingAt_names {documents : Documents} (hlibrary : project.library = documents.library)
    {α : Type} {path : Path} {file : String} {read : Node → Except Defect α} {found : α → Finding}
    {error : Error} (h : project.findingAt path file read found = .flaw error)
    (hfound : ∀ contents, (found contents).flaw? = none)
    (hrefers : project.RefersTo spot file path) : project.Names spot error := by
  rcases project.findingAt_cases path file read found with
    ⟨_, hload, heq⟩ | ⟨_, heq⟩ | ⟨_, _, _, _, heq⟩ | ⟨_, contents, _, _, heq⟩
  · cases heq.symm.trans h
    rw [hlibrary] at hload
    obtain ⟨details, rfl⟩ := Documents.load_error hload
    exact .found hrefers
  · cases heq.symm.trans h
  · cases heq.symm.trans h
    exact .file hrefers
  · have hnone := hfound contents
    rw [← heq, h] at hnone
    cases hnone

/-- What is found at an element names it, its document or the one it refers to. -/
theorem finding_names {documents : Documents} (hlibrary : project.library = documents.library)
    {known : List String} {error : Error} (h : project.finding known spot = .flaw error) :
    project.Names spot error := by
  obtain ⟨frame, document, element⟩ := spot
  cases element with
  | expression place file delay =>
    simp only [finding] at h
    split at h
    · cases h
    · exact findingAt_names hlibrary h (fun _ => rfl) .expression
  | sequence place file =>
    simp only [finding] at h
    split at h
    · cases h
      exact .enclosing
    · exact findingAt_names hlibrary h (fun _ => rfl) .sequence
  | counterLoop => cases h
  | conditional place spec ifRepeats elseRepeats ifBranch elseBranch =>
    simp only [finding] at h
    split at h
    · cases h
    · rename_i hunknown
      cases h
      exact .sensor rfl (by simpa using hunknown)

theorem Surveys.finding_eq {todo : List Spot} {standing : Standing} {visits : List Visit}
    {visit : Visit} (h : project.Surveys todo standing visits) (hvisit : visit ∈ visits) :
    ∃ known, visit.finding = project.finding known visit.spot := by
  induction h with
  | done => cases hvisit
  | cancelled => cases hvisit
  | visit _ _ ih =>
    rcases List.mem_cons.1 hvisit with rfl | hvisit
    · exact ⟨_, rfl⟩
    · exact ih hvisit

/-- A survey of the elements of a document comes to its first error at a visit, after others. -/
structure FirstFlawAt (project : Project) (root : Frame) (elements : List Element) (s : Session)
    (before : List Visit) (visit : Visit) : Prop where
  survey : ∃ after, project.Surveys (root.spots elements elements) s.standing
    (before ++ visit :: after)
  before : ∀ earlier ∈ before, earlier.finding.flaw? = none

variable {s : Session} {visit : Visit} {error : Error}

theorem FirstFlawAt.placed (h : project.FirstFlawAt root elements s before visit) :
    project.Placed root elements before visit.spot := by
  obtain ⟨after, hsurvey⟩ := h.survey
  refine @Surveys.placed _ _ _ _ _ _ _ _ _ hsurvey [] (fun spot hspot => ?_) rfl
  obtain ⟨element, hmem, rfl⟩ := List.mem_map.1 hspot
  exact ⟨.root, .top hmem⟩

theorem FirstFlawAt.names (h : project.FirstFlawAt root elements s before visit)
    {documents : Documents} (hlibrary : project.library = documents.library)
    (herror : visit.finding.flaw? = some error) : project.Names visit.spot error := by
  obtain ⟨after, hsurvey⟩ := h.survey
  obtain ⟨known, hknown⟩ := hsurvey.finding_eq (List.mem_append_right _ List.mem_cons_self)
  exact finding_names hlibrary (hknown.symm.trans (Finding.eq_flaw_of_flaw? herror))

/-- A document that has been entered has the root's name, or was referred to by its name. -/
theorem Entered.name {frame : Frame} {document : List Element}
    (h : project.Entered root elements before frame document) :
    frame.name = root.name ∨
      ∃ other ∈ before, ∃ path, project.RefersTo other.spot frame.name path := by
  cases h with
  | root => exact .inl rfl
  | saved hvisit => exact .inr ⟨_, hvisit, _, .sequence⟩

/-- A compilation fails exactly with the first error of the survey. -/
theorem Runs.error_iff {result : Except Error (List Code)} {s' : Session}
    (h : project.Runs root elements s result s') :
    result = .error error ↔
      ∃ before visit, project.FirstFlawAt root elements s before visit ∧
        visit.finding.flaw? = some error := by
  have hiff : ∀ {visits}, project.Surveys (root.spots elements elements) s.standing visits →
      (result = .error error ↔ firstFlaw? visits = some error) := by
    intro visits hvisits
    have hagrees := @Runs.agrees _ _ _ _ _ _ h elements [] visits (by simpa using hvisits)
    cases result with
    | error found =>
      rw [show firstFlaw? visits = some found from hagrees]
      simp
    | ok code =>
      obtain ⟨rest, hrest, heq⟩ := hagrees
      rw [heq, hrest.unique .done]
      simp [firstFlaw?]
  constructor
  · intro hresult
    obtain ⟨visits, hvisits⟩ := exists_surveys project (root.spots elements elements) s.standing
    obtain ⟨before, visit, after, rfl, hflaw, hbefore⟩ :=
      List.findSome?_eq_some_iff.1 ((hiff hvisits).1 hresult)
    exact ⟨before, visit, ⟨⟨after, hvisits⟩, hbefore⟩, hflaw⟩
  · rintro ⟨before, visit, ⟨⟨after, hvisits⟩, hbefore⟩, hflaw⟩
    exact (hiff hvisits).2
      (List.findSome?_eq_some_iff.2 ⟨before, visit, after, rfl, hflaw, hbefore⟩)

/-- A sensor that an error names is that of a conditional. -/
theorem Names.of_unknownSensor {sensor sequence : String}
    (h : project.Names spot (.unknownSensor sensor sequence)) :
    SensorProfile.find? sensor = none ∧ spot.frame.name = sequence ∧
      ∃ place spec ifRepeats elseRepeats ifBranch elseBranch, spec.sensor = sensor ∧
        spot.element = .conditional place spec ifRepeats elseRepeats ifBranch elseBranch := by
  cases h with
  | sensor helement hunknown => exact ⟨hunknown, rfl, _, _, _, _, _, _, rfl, helement⟩

/-- A malformed document that an error names is the root, or there is a reference to it among the
elements up to the one where the error is found. -/
theorem Names.of_malformed {file details : String}
    (h : project.Names visit.spot (.malformed file details))
    (hplaced : project.Placed root elements before visit.spot) :
    file = root.name ∨ ∃ other ∈ before ++ [visit], ∃ text path,
      project.RefersTo other.spot text path ∧ (file = text ∨ file = path.displayName) := by
  have hvisit : visit ∈ before ++ [visit] := List.mem_append_right _ List.mem_cons_self
  cases h with
  | enclosing =>
    rcases hplaced.entered.name with hroot | ⟨other, hother, path, hrefers⟩
    · exact .inl hroot
    · exact .inr ⟨other, List.mem_append_left _ hother, _, path, hrefers, .inl rfl⟩
  | file hrefers => exact .inr ⟨visit, hvisit, _, _, hrefers, .inl rfl⟩
  | found hrefers => exact .inr ⟨visit, hvisit, _, _, hrefers, .inr rfl⟩

/-- Compiling a document fails with the document's own defect, or else with the first error of the
survey of its elements. The error is never about a root that is missing or about a disk. It names
an unknown sensor together with the document in which, at some depth, a conditional watches it, and
a malformed document as the root, or as a reference that has been visited calls or finds it. -/
theorem errors_name_culprit (documents : Documents) (handler : Handler) (expressions : Option Path)
    (document : Node) (name : String) (directory : Path) (s : Session) :
    let project : Project := ⟨documents.library, handler, expressions⟩
    let root : Frame := ⟨directory, name, [(directory.join name).normalize]⟩
    let result := ((project.compileSequence document name directory).runFrom s).1
    (∀ file enclosing, result ≠ .error (.missingReference file enclosing)) ∧
    (∀ path details, result ≠ .error (.io path details)) ∧
    (∀ defect, readSequence document = .error defect → result = .error (defect.inFile name)) ∧
    ∀ elements, readSequence document = .ok elements →
      (∃ visits, project.Surveys (root.spots elements elements) s.standing visits ∧
        ∀ other, project.Surveys (root.spots elements elements) s.standing other → other = visits) ∧
      (∀ error, result = .error error ↔
        ∃ before visit, project.FirstFlawAt root elements s before visit ∧
          visit.finding.flaw? = some error) ∧
      (∀ sensor sequence, result = .error (.unknownSensor sensor sequence) →
        SensorProfile.find? sensor = none ∧
        ∃ before visit, project.FirstFlawAt root elements s before visit ∧
          project.Placed root elements before visit.spot ∧ visit.spot.frame.name = sequence ∧
          ∃ place spec ifRepeats elseRepeats ifBranch elseBranch, spec.sensor = sensor ∧
            visit.spot.element =
              .conditional place spec ifRepeats elseRepeats ifBranch elseBranch) ∧
      ∀ file details, result = .error (.malformed file details) →
        file = name ∨ ∃ before visit, project.FirstFlawAt root elements s before visit ∧
          ∃ other ∈ before ++ [visit], ∃ text path, project.RefersTo other.spot text path ∧
            (file = text ∨ file = path.displayName) := by
  intro project root result
  cases hread : readSequence document with
  | error defect =>
    have hresult : result = .error (defect.inFile name) :=
      congrArg Prod.fst (runsDocument_iff.1 (.malformed hread))
    rw [hresult]
    refine ⟨fun _ _ h => ?_, fun _ _ h => ?_, fun _ h => ?_, fun _ h => ?_⟩
    · cases h
    · cases h
    · cases h
      rfl
    · cases h
  | ok elements =>
    obtain ⟨found, s', hruns⟩ := exists_runs project root elements s
    have hresult : result = found :=
      congrArg Prod.fst (runsDocument_iff.1 (.elements hread hruns))
    have hnames : ∀ error, result = .error error → ∃ before visit,
        project.FirstFlawAt root elements s before visit ∧ project.Names visit.spot error := by
      intro error herror
      obtain ⟨before, visit, hfirst, hflaw⟩ := hruns.error_iff.1 (hresult.symm.trans herror)
      exact ⟨before, visit, hfirst, hfirst.names rfl hflaw⟩
    refine ⟨fun _ _ h => ?_, fun _ _ h => ?_, fun _ h => (by cases h), fun _ h => ?_⟩
    · obtain ⟨_, _, _, hnames⟩ := hnames _ h
      cases hnames
    · obtain ⟨_, _, _, hnames⟩ := hnames _ h
      cases hnames
    · cases h
      obtain ⟨visits, hvisits⟩ := exists_surveys project (root.spots elements elements) s.standing
      refine ⟨⟨visits, hvisits, fun _ hother => hother.unique hvisits⟩,
        fun error => hresult ▸ hruns.error_iff, fun sensor sequence h => ?_,
        fun file details h => ?_⟩
      · obtain ⟨before, visit, hfirst, hnames⟩ := hnames _ h
        obtain ⟨hunknown, hname, hconditional⟩ := hnames.of_unknownSensor
        exact ⟨hunknown, before, visit, hfirst, hfirst.placed, hname, hconditional⟩
      · obtain ⟨before, visit, hfirst, hnames⟩ := hnames _ h
        rcases hnames.of_malformed hfirst.placed with hroot | hrefers
        · exact .inl hroot
        · exact .inr ⟨before, visit, hfirst, hrefers⟩

end Project

namespace SonarSample

/-- A dance that leads, inside a loop, into a document whose sensor is not in the catalogue. -/
def document : Node := ⟨"sequence", [], "", [⟨"counter-loop", [("iterations", "2")], "",
  [⟨"saved-sequence", [("file", "t.xml")], "", []⟩]⟩]⟩

/-- The documents that the dance leads to. -/
def documents : Documents := .ofList [
  (⟨"p/t.xml"⟩, "<sequence><loopable-conditional><sensor type='sonar' " ++
    "threshold-percentage='50'/></loopable-conditional></sequence>")]

def project : Project := ⟨documents.library, .fixed .proceed, none⟩

def frame : Frame := ⟨⟨"p"⟩, "main.xml", [((⟨"p"⟩ : Path).join "main.xml").normalize]⟩

def elements : List Element := [.counterLoop ⟨0, none⟩ 2 [.sequence ⟨0, none⟩ "t.xml"]]

theorem read_document : readSequence document = .ok elements := by cbv

theorem load_turn : project.library.load (frame.directory.join "t.xml").normalize.path =
    .ok (some ⟨"sequence", [], "", [⟨"loopable-conditional", [], "",
      [⟨"sensor", [("type", "sonar"), ("threshold-percentage", "50")], "", []⟩]⟩]⟩) :=
  eq_ok_of_toOption (by decide +kernel)

theorem read_turn : readSequence ⟨"sequence", [], "", [⟨"loopable-conditional", [], "",
      [⟨"sensor", [("type", "sonar"), ("threshold-percentage", "50")], "", []⟩]⟩]⟩ =
    .ok [.conditional ⟨0, none⟩ ⟨"sonar", 1, ⟨50, by decide⟩⟩ false false [] []] := by cbv

theorem fails : ((project.compileSequence document "main.xml" ⟨"p"⟩).runFrom {}).1 =
    .error (.unknownSensor "sonar" "t.xml") := by
  have hunknown : SensorSpec.conditions ⟨"sonar", 1, ⟨50, by decide⟩⟩ =
      .error (.unknownSensor "sonar" "") := SensorSpec.conditions_of_find?_none (by decide)
  have hclosed : (frame.directory.join "t.xml").normalize ∉ frame.opened := by decide
  have hturn := @Project.Runs.document project frame ⟨0, none⟩ "t.xml" _ _ {} _
    (.error (.unknownSensor "sonar" "t.xml")) rfl hclosed load_turn read_turn
    (.step rfl (.unknownSensor hunknown))
  have hruns := @Project.Runs.counterLoop project frame ⟨0, none⟩ 2 _ {} _ _ rfl hturn
  exact congrArg Prod.fst (Project.runsDocument_iff.1 (.elements read_document hruns))

end SonarSample

theorem RingSample.fails :
    ((project.compileSequence main "main.xml" ⟨"p"⟩).runFrom {}).1 =
      .error (.malformed "b/s.xml" (Defect.selfReference ".././main.xml").message) := by
  have hopened : ((frame.entering "b/s.xml").directory.join ".././main.xml").normalize ∈
      (frame.entering "b/s.xml").opened := by decide
  have hloop := @Project.Runs.counterLoop project (frame.entering "b/s.xml") ⟨0, none⟩ 2
    [.sequence ⟨0, none⟩ ".././main.xml"]
    (Session.logged {} frame.opened (.loaded (frame.directory.join "b/s.xml").normalize.path)) _ _
    rfl (.step rfl (.selfReference hopened))
  have hruns := @Project.Runs.document project frame ⟨0, none⟩ "b/s.xml" _ _ {} _ _ rfl
    closed_steps load_steps read_steps hloop
  exact congrArg Prod.fst (Project.runsDocument_iff.1 (.elements read_main hruns))

/-- The error about the sensor names the document it is in, not the dance. The error about the ring
names the document that leads back. -/
theorem Project.sample_errors_name_culprit :
    (((SonarSample.project.compileSequence SonarSample.document "main.xml" ⟨"p"⟩).runFrom {}).1 =
        .error (.unknownSensor "sonar" "t.xml") ∧
      readSequence SonarSample.document = .ok SonarSample.elements ∧
      ∃ before visit, SonarSample.project.FirstFlawAt SonarSample.frame SonarSample.elements {}
        before visit ∧ visit.spot.frame.name = "t.xml") ∧
    ((RingSample.project.compileSequence RingSample.main "main.xml" ⟨"p"⟩).runFrom {}).1 =
        .error (.malformed "b/s.xml" (Defect.selfReference ".././main.xml").message) ∧
      ∃ before visit, RingSample.project.FirstFlawAt RingSample.frame
        [.sequence ⟨0, none⟩ "b/s.xml"] {} before visit ∧
        ∃ other ∈ before ++ [visit], ∃ text path, RingSample.project.RefersTo other.spot text path ∧
          ("b/s.xml" = text ∨ "b/s.xml" = path.displayName) := by
  have hsonar := errors_name_culprit SonarSample.documents (.fixed .proceed) none
    SonarSample.document "main.xml" ⟨"p"⟩ {}
  have hring := errors_name_culprit RingSample.documents (.fixed .proceed) none
    RingSample.main "main.xml" ⟨"p"⟩ {}
  obtain ⟨-, before, visit, hfirst, -, hname, -⟩ :=
    (hsonar.2.2.2 _ SonarSample.read_document).2.2.1 _ _ SonarSample.fails
  refine ⟨⟨SonarSample.fails, SonarSample.read_document, before, visit, hfirst, hname⟩,
    RingSample.fails, ?_⟩
  rcases (hring.2.2.2 _ RingSample.read_main).2.2.2 _ _ RingSample.fails with hroot | hrefers
  · exact absurd hroot (by decide)
  · exact hrefers

end RobotSketch
