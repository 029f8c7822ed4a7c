import RobotSketch.Proofs.Interruption
import RobotSketch.Proofs.Stack.Parts

/-!
# A session keeps its stack

A session pushes each document that it enters and pops it again, around calls that may fail or be
cancelled at any depth. The rules by which a run goes say what is computed for a frame; here they
are followed on the stack (`Runs.pair_compileElements`): the run comes to the same, and the stack
ends as it began.

What is on the stack in between is said of the blocks that are come to. Around a block are the
documents in which it stands, counted from the one that is compiled (`Encloses`), and these are what
its frame has open (`opened_of_reached`). Every block is compiled on the way, with the stack of its
frame (`passes_of_reached`), and the stack is never anything else (`Visits.reached`).

The main statement is `session_left_consistent`.
-/
namespace RobotSketch

/-! ## Blocks inside documents -/

/-- The lists of elements that an element holds. -/
def Element.blocks : Element → List (List Element)
  | .expression .. | .sequence .. => []
  | .counterLoop _ _ children => [children]
  | .conditional _ _ _ _ ifBranch elseBranch => [ifBranch, elseBranch]

namespace Project

/-- A block of elements, in a document of some directory, stands inside some documents, outermost
first, counted from the elements of a first one. -/
inductive Encloses (project : Project) (directory : Path) (elements : List Element) :
    List NormalPath → Path → List Element → Prop where
  | all : Encloses project directory elements [] directory elements
  | part {documents : List NormalPath} {inner : Path} {block part : List Element}
      {element : Element} (houter : Encloses project directory elements documents inner block)
      (hmem : element ∈ block) (hpart : part ∈ element.blocks) :
    Encloses project directory elements documents inner part
  | document {documents : List NormalPath} {inner : Path} {block part : List Element}
      {place : Place} {file : String} {node : Node}
      (houter : Encloses project directory elements documents inner block)
      (hmem : .sequence place file ∈ block)
      (hload : project.library.load (inner.join file).normalize.path = .ok (some node))
      (hread : readSequence node = .ok part) :
    Encloses project directory elements (documents ++ [(inner.join file).normalize])
      (inner.join file).normalize.directory part

variable {project : Project} {frame : Frame} {s s₁ s' : Session} {outer inner call : Call}
  {element : Element} {elements rest : List Element} {stack : List NormalPath}

theorem entering_directory (frame : Frame) (file : String) :
    (frame.entering file).directory = (frame.directory.join file).normalize.directory := by
  simp only [Frame.entering, NormalPath.directory]

theorem entering_opened (frame : Frame) (file : String) :
    (frame.entering file).opened = frame.opened ++ [(frame.directory.join file).normalize] := by
  simp only [Frame.entering]

theorem entering_name (frame : Frame) (file : String) : (frame.entering file).name = file := by
  simp only [Frame.entering]

/-- **What is open around a block.** In the frame of every block that is come to, the documents
around the block are open after those that were open before, and no document is open twice. -/
theorem opened_of_reached (h : Relation.ReflTransGen project.Calls outer call) :
    ∃ documents, call.frame.opened = outer.frame.opened ++ documents ∧
      project.Encloses outer.frame.directory outer.elements documents call.frame.directory
        call.elements ∧
      documents.Nodup ∧ ∀ path ∈ documents, path ∉ outer.frame.opened := by
  induction h with
  | refl => exact ⟨[], (List.append_nil _).symm, .all, List.nodup_nil, List.forall_mem_nil _⟩
  | tail _ hcall ih =>
    obtain ⟨documents, hopened, hencloses, hnodup, hfresh⟩ := ih
    obtain @⟨frame, before, after, element, s, s₁, code, inner, hbefore, hc, hopens⟩ := hcall
    have hmem : element ∈ before ++ element :: after := by simp
    cases hopens with
    | children =>
      exact ⟨documents, hopened, hencloses.part hmem List.mem_cons_self, hnodup, hfresh⟩
    | ifBranch =>
      exact ⟨documents, hopened, hencloses.part hmem List.mem_cons_self, hnodup, hfresh⟩
    | elseBranch =>
      exact ⟨documents, hopened, hencloses.part hmem (List.mem_cons_of_mem _ List.mem_cons_self),
        hnodup, hfresh⟩
    | @document place file node elements hclosed hload hread =>
      rw [hopened, List.mem_append, not_or] at hclosed
      refine ⟨documents ++ [(frame.directory.join file).normalize], ?_, ?_, ?_, ?_⟩
      · rw [entering_opened, hopened, List.append_assoc]
      · rw [entering_directory]
        exact hencloses.document hmem hload hread
      · exact List.nodup_append.2 ⟨hnodup, List.nodup_singleton _, by
          rintro path hpath _ hother rfl
          exact hclosed.2 (List.mem_singleton.1 hother ▸ hpath)⟩
      · exact List.forall_mem_append.2 ⟨hfresh, List.forall_mem_singleton.2 hclosed.1⟩

/-- A stack is the one of a block that is come to. -/
def StackOf (project : Project) (outer : Call) (stack : List NormalPath) : Prop :=
  ∃ call, Relation.ReflTransGen project.Calls outer call ∧ call.frame.opened = stack

theorem stackOf_opened : project.StackOf outer outer.frame.opened := ⟨outer, .refl, rfl⟩

theorem StackOf.head (h : project.StackOf inner stack) (hcall : project.Calls outer inner) :
    project.StackOf outer stack := by
  obtain ⟨call, hreached, hstack⟩ := h
  exact ⟨call, .head hcall hreached, hstack⟩

/-- What is come to from a block is come to from one with the same frame that calls the same. -/
theorem StackOf.congr (h : project.StackOf inner stack) (hframe : inner.frame = outer.frame)
    (hcalls : ∀ call, project.Calls inner call → project.Calls outer call) :
    project.StackOf outer stack := by
  obtain ⟨call, hreached, hstack⟩ := h
  rcases hreached.cases_head with rfl | ⟨next, hcall, hreached⟩
  · exact ⟨outer, .refl, hframe ▸ hstack⟩
  · exact ⟨call, .head (hcalls next hcall) hreached, hstack⟩

theorem Calls.of_first (h : project.Calls ⟨frame, [element], s⟩ call) :
    project.Calls ⟨frame, element :: rest, s⟩ call := by
  generalize houter : (⟨frame, [element], s⟩ : Call) = outer at h
  obtain @⟨frame, before, after, other, s, s₁, code, inner, hbefore, hc, hopens⟩ := h
  cases before with
  | nil =>
    cases houter
    exact @Calls.inside _ _ [] rest _ _ _ _ _ hbefore hc hopens
  | cons => simp at houter

theorem Calls.of_rest {code : List Code} (hfirst : project.Runs frame [element] s (.ok code) s₁)
    (h : project.Calls ⟨frame, rest, s₁⟩ call) :
    project.Calls ⟨frame, element :: rest, s⟩ call := by
  generalize houter : (⟨frame, rest, s₁⟩ : Call) = outer at h
  obtain @⟨frame, before, after, other, s, s₂, code, inner, hbefore, hc, hopens⟩ := h
  cases houter
  exact @Calls.inside _ _ (element :: before) after _ _ _ _ _ (hfirst.append hbefore) hc hopens

theorem calls_of_opens (hc : s.cancelled = false) (h : project.Opens frame s element call) :
    project.Calls ⟨frame, [element], s⟩ call :=
  @Calls.inside _ _ [] [] _ _ _ _ _ .nil hc h

end Project

/-! ## Runs -/

open LiveSession LiveSession.Ending

namespace Project

variable {project : Project} {frame : Frame} {s s₁ s' : Session}

/-- How the trail goes on while the elements of a call are compiled. -/
structure Visits (project : Project) (call : Call) (s' : Session)
    (trail visited : List (List NormalPath)) : Prop where
  /-- Every stack is the one of a block that is come to. -/
  reached : ∀ stack ∈ visited, project.StackOf call stack
  /-- The last stack is the one with which the elements were come to. -/
  last : trail.getLast? = some call.frame.opened →
    (trail ++ visited).getLast? = some call.frame.opened
  logs : call.session.LogsUnder s' (call.frame.opened :: visited)

namespace Visits

variable {trail visited visited₁ visited₂ : List (List NormalPath)} {elements block : List Element}

theorem of_logs (h : s.LogsUnder s' [frame.opened]) :
    project.Visits ⟨frame, elements, s⟩ s' trail [] where
  reached := List.forall_mem_nil _
  last hlast := by rwa [List.append_nil]
  logs := h

/-- What is visited for a part of some elements is visited for them. -/
theorem mono (h : project.Visits ⟨frame, block, s⟩ s' trail visited)
    (hreached : ∀ stack, project.StackOf ⟨frame, block, s⟩ stack →
      project.StackOf ⟨frame, elements, s⟩ stack) :
    project.Visits ⟨frame, elements, s⟩ s' trail visited where
  reached stack hmem := hreached stack (h.reached stack hmem)
  last := h.last
  logs := h.logs

theorem append {more : List Element}
    (hfirst : project.Visits ⟨frame, elements, s⟩ s₁ trail visited₁)
    (hrest : project.Visits ⟨frame, more, s₁⟩ s' (trail ++ visited₁) visited₂)
    (hreached : ∀ stack, project.StackOf ⟨frame, more, s₁⟩ stack →
      project.StackOf ⟨frame, elements, s⟩ stack) :
    project.Visits ⟨frame, elements, s⟩ s' trail (visited₁ ++ visited₂) where
  reached := List.forall_mem_append.2
    ⟨hfirst.reached, fun stack hmem => hreached stack (hrest.reached stack hmem)⟩
  last hlast := by
    rw [← List.append_assoc]
    exact hrest.last (hfirst.last hlast)
  logs := (hfirst.logs.mono (by simp)).trans (hrest.logs.mono (by simp))

end Visits

/-- A run on a stack comes to the same as in a frame, and the stack is left as it was. -/
theorem Runs.pair_compileElements {elements : List Element} {result : Except Error (List Code)}
    (h : project.Runs frame elements s result s') (trail : List (List NormalPath)) :
    ∃ visited,
      (compileElements ⟨project, s, frame.opened, trail⟩ frame.directory frame.name elements).pair =
        (result, ⟨project, s', frame.opened, trail ++ visited⟩) ∧
      project.Visits ⟨frame, elements, s⟩ s' trail visited := by
  -- Each part starts with the trail that the one before it has left, so the trail varies.
  induction h generalizing trail with
  | nil =>
    refine ⟨[], ?_, .of_logs Session.logsUnder_refl⟩
    rw [pair_compileElements_nil, List.append_nil]
  | cancelled hc =>
    refine ⟨[], ?_, .of_logs Session.logsUnder_refl⟩
    rw [pair_compileElements_of_cancelled hc, List.append_nil]
  | cons hfirst hrest ihfirst ihrest =>
    obtain ⟨visited₁, hpair₁, hvisits₁⟩ := ihfirst trail
    obtain ⟨visited₂, hpair₂, hvisits₂⟩ := ihrest (trail ++ visited₁)
    refine ⟨visited₁ ++ visited₂, ?_, ?_⟩
    · rw [pair_compileElements_cons_ok hpair₁ hpair₂, List.append_assoc]
    · refine .append (hvisits₁.mono fun _ h => ?_) hvisits₂ fun _ h => ?_
      · exact h.congr rfl fun _ => .of_first
      · exact h.congr rfl fun _ => .of_rest hfirst
  | fails hfirst ih =>
    obtain ⟨visited, hpair, hvisits⟩ := ih trail
    exact ⟨visited, pair_compileElements_cons_error hpair,
      hvisits.mono fun _ h => h.congr rfl fun _ => .of_first⟩
  | step hc hstep =>
    refine ⟨[], ?_, .of_logs hstep.logsUnder⟩
    rw [pair_compileElements_singleton hc, List.append_nil]
    exact hstep.pair_elementCode
  | @document frame place file node elements s s' result hc hclosed hload hread hbody ih =>
    obtain ⟨visited, hpair, hvisits⟩ :=
      ih (trail ++ [frame.opened ++ [(frame.directory.join file).normalize]])
    have hcalls := calls_of_opens hc (@Opens.document _ _ _ place _ _ _ hclosed hload hread)
    -- The document is entered in a frame of its own, with the stack that the push has left.
    rw [entering_directory, entering_name, entering_opened] at hpair
    refine ⟨(frame.opened ++ [(frame.directory.join file).normalize]) :: visited ++ [frame.opened],
      ?_, ?_, ?_, ?_⟩
    · have hcode : (LiveSession.elementCode ⟨project, s, frame.opened, trail⟩ frame.directory
          frame.name (.sequence place file)).pair = _ :=
        pair_elementCode_of_some (runFrom_savedElements_of_read hclosed hload hread) hpair
      rw [pair_compileElements_singleton hc, hcode, closing_push]
      simp
    · intro stack hmem
      rw [List.cons_append, List.mem_cons, List.mem_append, List.mem_singleton] at hmem
      rcases hmem with rfl | hmem | rfl
      · exact stackOf_opened.head hcalls
      · exact (hvisits.reached stack hmem).head hcalls
      · exact stackOf_opened
    · intro _
      rw [← List.append_assoc, List.getLast?_append, List.getLast?_singleton, Option.some_or]
    · refine (Session.logsUnder_logged List.mem_cons_self _).trans
        (hvisits.logs.mono fun stack hmem => ?_)
      exact List.mem_cons_of_mem _ (List.mem_append_left _ hmem)
  | @counterLoop frame place iterations children s s' result hc hbody ih =>
    obtain ⟨visited, hpair, hvisits⟩ := ih trail
    refine ⟨visited, ?_, hvisits.mono fun _ h => h.head (calls_of_opens hc .children)⟩
    rw [pair_compileElements_singleton hc, pair_elementCode_counterLoop hpair]
  | @conditional frame place spec ifRepeats elseRepeats ifBranch elseBranch ifTest elseTest s s₁ s'
      ifBody result hc hconditions hif helse ihif ihelse =>
    obtain ⟨visited₁, hpair₁, hvisits₁⟩ := ihif trail
    obtain ⟨visited₂, hpair₂, hvisits₂⟩ := ihelse (trail ++ visited₁)
    refine ⟨visited₁ ++ visited₂, ?_, ?_⟩
    · rw [pair_compileElements_singleton hc, pair_elementCode_conditional hconditions hpair₁ hpair₂,
        List.append_assoc]
    · refine .append (hvisits₁.mono fun _ h => ?_) hvisits₂ fun _ h => ?_
      · exact h.head (calls_of_opens hc (.ifBranch hconditions))
      · exact h.head (calls_of_opens hc (.elseBranch hconditions hif))
  | ifBranchFails hc hconditions hif ih =>
    obtain ⟨visited, hpair, hvisits⟩ := ih trail
    refine ⟨visited, ?_, hvisits.mono fun _ h => h.head (calls_of_opens hc (.ifBranch hconditions))⟩
    rw [pair_compileElements_singleton hc, pair_elementCode_ifBranchFails hconditions hpair]

end Project

/-! ## What is passed on the way -/

namespace LiveSession

variable {live middle later : LiveSession} {directory : Path} {name : String} {element : Element}
  {before rest elements : List Element} {code : List Code}

/-- Whatever has been recorded in one session was recorded first in another. -/
structure Precedes (live later : LiveSession) : Prop where
  trail : live.trail <+: later.trail
  session : live.session.Grows later.session

namespace Precedes

theorem refl (live : LiveSession) : live.Precedes live := ⟨List.prefix_rfl, .refl _⟩

theorem trans (h₁ : live.Precedes middle) (h₂ : middle.Precedes later) : live.Precedes later :=
  ⟨h₁.trail.trans h₂.trail, h₁.session.trans h₂.session⟩

end Precedes

theorem precedes_opening (live : LiveSession) (path : NormalPath) :
    live.Precedes (live.opening path) := ⟨List.prefix_append .., .refl _⟩

theorem precedes_closing (live : LiveSession) : live.Precedes live.closing :=
  ⟨List.prefix_append .., .refl _⟩

theorem later_of_pair {α : Type} {ending : Ending α live} {result : Except Error α}
    (h : ending.pair = (result, later)) : ending.later = later := congrArg Prod.snd h

theorem precedes_compileElements (live : LiveSession) (directory : Path) (name : String)
    (elements : List Element) :
    live.Precedes (compileElements live directory name elements).later := by
  obtain ⟨project, s, active, trail⟩ := live
  obtain ⟨result, s', hruns⟩ := Project.exists_runs project ⟨directory, name, active⟩ elements s
  obtain ⟨visited, hpair, -⟩ := hruns.pair_compileElements trail
  rw [later_of_pair hpair]
  exact ⟨List.prefix_append .., hruns.grows⟩

/-- What one element leaves is passed on the way to what it leaves with others behind it. -/
theorem precedes_compileElements_cons (hc : live.session.cancelled = false) :
    (live.elementCode directory name element).later.Precedes
      (compileElements live directory name (element :: rest)).later := by
  have hfirst : (compileElements live directory name [element]).pair =
      (live.elementCode directory name element).pair := pair_compileElements_singleton hc
  rcases hpair : (live.elementCode directory name element).pair with ⟨error | code, middle⟩
  · rw [hpair] at hfirst
    rw [later_of_pair hpair, later_of_pair (pair_compileElements_cons_error hfirst)]
    exact .refl _
  · rw [hpair] at hfirst
    rw [later_of_pair hpair, later_of_pair (pair_compileElements_cons_ok hfirst rfl)]
    exact precedes_compileElements middle directory name rest

/-- Elements leave what those behind some of them leave, after these have been compiled. -/
theorem later_compileElements_append
    (hbefore : (compileElements live directory name before).pair = (.ok code, middle)) :
    (compileElements live directory name (before ++ rest)).later =
      (compileElements middle directory name rest).later := by
  induction before generalizing live code with
  | nil =>
    rw [pair_compileElements_nil] at hbefore
    cases hbefore
    rfl
  | cons element before ih =>
    rcases hfirst : (compileElements live directory name [element]).pair with ⟨error | first, next⟩
    · rw [pair_compileElements_cons_error hfirst] at hbefore
      cases hbefore
    · rcases hrest : (compileElements next directory name before).pair with ⟨error | more, last⟩
      · rw [pair_compileElements_cons_ok hfirst hrest] at hbefore
        cases hbefore
      · rw [pair_compileElements_cons_ok hfirst hrest] at hbefore
        cases hbefore
        rw [List.cons_append, later_of_pair (pair_compileElements_cons_ok hfirst rfl)]
        exact ih hrest

end LiveSession

/-- The session in which the elements of a call are come to, with the trail so far. -/
def Call.entered (project : Project) (call : Call) (trail : List (List NormalPath)) : LiveSession :=
  ⟨project, call.session, call.frame.opened, trail⟩

/-- The session that the elements of a call leave. -/
def Call.left (project : Project) (call : Call) (trail : List (List NormalPath)) : LiveSession :=
  ((call.entered project trail).compileElements call.frame.directory call.frame.name
    call.elements).later

namespace LiveSession

/-- On the way from one session to another the elements of a call are compiled: what is open in the
frame of the call is on the stack then, and was put there by the last change of the stack. -/
def Passes (before after : LiveSession) (call : Call) : Prop :=
  ∃ trail, trail.getLast? = some call.frame.opened ∧
    before.Precedes (call.entered before.project trail) ∧
    (call.left before.project trail).Precedes after

end LiveSession

namespace Project

variable {project : Project} {frame : Frame} {s s' : Session} {element : Element}
  {outer inner call : Call} {trail : List (List NormalPath)}

/-- An element compiles the block that it opens. -/
theorem Opens.passes (h : project.Opens frame s element inner)
    (hlast : trail.getLast? = some frame.opened) :
    Passes ⟨project, s, frame.opened, trail⟩
      (LiveSession.elementCode ⟨project, s, frame.opened, trail⟩ frame.directory frame.name
        element).later inner := by
  cases h with
  | @children place iterations children =>
    refine ⟨trail, hlast, .refl _, ?_⟩
    rw [later_of_pair (pair_elementCode_counterLoop rfl)]
    exact .refl _
  | @ifBranch place spec ifRepeats elseRepeats ifBranch elseBranch tests hconditions =>
    obtain ⟨ifTest, elseTest⟩ := tests
    refine ⟨trail, hlast, .refl _, ?_⟩
    rcases hif : (LiveSession.compileElements ⟨project, s, frame.opened, trail⟩ frame.directory
      frame.name ifBranch).pair with ⟨error | ifBody, middle⟩
    · rw [later_of_pair (pair_elementCode_ifBranchFails hconditions hif), Call.left, Call.entered,
        later_of_pair hif]
      exact .refl _
    · rw [later_of_pair (pair_elementCode_conditional hconditions hif rfl), Call.left, Call.entered,
        later_of_pair hif]
      exact precedes_compileElements middle frame.directory frame.name elseBranch
  | @elseBranch place spec ifRepeats elseRepeats ifBranch elseBranch tests ifBody s₁ hconditions
      hif =>
    obtain ⟨ifTest, elseTest⟩ := tests
    obtain ⟨visited, hpair, hvisits⟩ := hif.pair_compileElements trail
    refine ⟨trail ++ visited, hvisits.last hlast, ⟨List.prefix_append .., hif.grows⟩, ?_⟩
    rw [later_of_pair (pair_elementCode_conditional hconditions hpair rfl)]
    exact .refl _
  | @document place file node elements hclosed hload hread =>
    refine ⟨trail ++ [frame.opened ++ [(frame.directory.join file).normalize]], ?_,
      ⟨List.prefix_append .., Session.grows_logged ..⟩, ?_⟩
    · rw [List.getLast?_append, List.getLast?_singleton, Option.some_or, entering_opened]
    · have hcode : (LiveSession.elementCode ⟨project, s, frame.opened, trail⟩ frame.directory
          frame.name (.sequence place file)).pair = _ :=
        pair_elementCode_of_some (runFrom_savedElements_of_read hclosed hload hread) rfl
      rw [later_of_pair hcode, Call.left, Call.entered]
      simp only [entering_directory, entering_name]
      exact precedes_closing _

theorem Calls.passes (h : project.Calls outer inner)
    (hlast : trail.getLast? = some outer.frame.opened) :
    Passes (outer.entered project trail) (outer.left project trail) inner := by
  obtain @⟨frame, before, after, element, s, s₁, code, inner, hbefore, hc, hopens⟩ := h
  obtain ⟨visited, hpair, hvisits⟩ := hbefore.pair_compileElements trail
  have hgoes : Precedes (Call.entered project ⟨frame, before ++ element :: after, s⟩ trail)
      ⟨project, s₁, frame.opened, trail ++ visited⟩ := ⟨List.prefix_append .., hbefore.grows⟩
  obtain ⟨trail₁, hlast₁, hentered, hleft⟩ := hopens.passes (hvisits.last hlast)
  refine ⟨trail₁, hlast₁, hgoes.trans hentered, hleft.trans ?_⟩
  rw [Call.left, Call.entered, later_compileElements_append hpair]
  exact precedes_compileElements_cons hc

/-- Every block that is come to is compiled on the way. -/
theorem passes_of_reached (h : Relation.ReflTransGen project.Calls outer call)
    (hlast : trail.getLast? = some outer.frame.opened) :
    Passes (outer.entered project trail) (outer.left project trail) call := by
  induction h with
  | refl => exact ⟨trail, hlast, .refl _, .refl _⟩
  | tail _ hcall ih =>
    obtain ⟨trail₁, hlast₁, hentered₁, hleft₁⟩ := ih
    obtain ⟨trail₂, hlast₂, hentered₂, hleft₂⟩ := hcall.passes hlast₁
    exact ⟨trail₂, hlast₂, hentered₁.trans hentered₂, hleft₂.trans hleft₁⟩

end Project

/-! ## Documents -/

namespace LiveSession

variable {live : LiveSession} {document : Node} {name : String} {directory : Path}
  {elements : List Element} {result : Except Error (List Code)} {s' : Session}

theorem compileDocument_of_error {defect : Defect} (hread : readSequence document = .error defect) :
    live.compileDocument document name directory = (.error (defect.inFile name), live) := by
  rw [compileDocument, hread]

/-- A document is pushed, its elements are compiled, and it is popped. -/
theorem compileDocument_of_read {later : LiveSession} (hread : readSequence document = .ok elements)
    (hentered : ((live.opening (directory.join name).normalize).compileElements directory name
      elements).pair = (result, later)) :
    live.compileDocument document name directory =
      (result.map fun code => ⟨code, later.session.cancelled⟩, later.closing) := by
  rw [compileDocument, hread]
  dsimp only
  generalize compileElements _ directory name elements = entered at hentered
  obtain ⟨found, last, kept⟩ := entered
  cases hentered
  rfl

/-- The elements of a document that is compiled in a session, as a call. -/
def call (live : LiveSession) (name : String) (directory : Path) (elements : List Element) : Call :=
  ⟨⟨directory, name, live.active ++ [(directory.join name).normalize]⟩, elements, live.session⟩

/-- The elements of a document are compiled as in its frame. -/
theorem compileDocument_of_runs (hread : readSequence document = .ok elements)
    (hruns : live.project.Runs ⟨directory, name, live.active ++ [(directory.join name).normalize]⟩
      elements live.session result s') :
    ∃ visited, live.compileDocument document name directory =
        (result.map fun code => ⟨code, s'.cancelled⟩,
          { live with
            session := s'
            trail := live.trail ++ ((live.active ++ [(directory.join name).normalize]) :: visited ++
              [live.active]) }) ∧
      live.project.Visits (live.call name directory elements) s'
        (live.trail ++ [live.active ++ [(directory.join name).normalize]]) visited := by
  obtain ⟨project, s, active, trail⟩ := live
  obtain ⟨visited, helements, hvisits⟩ := hruns.pair_compileElements
    (trail ++ [active ++ [(directory.join name).normalize]])
  refine ⟨visited, ?_, hvisits⟩
  rw [compileDocument_of_read hread helements, closing_push]
  simp

/-- Every block that is come to inside a document is compiled on the way. -/
theorem passes_compileDocument (hread : readSequence document = .ok elements) {block : Call}
    (h : Relation.ReflTransGen live.project.Calls (live.call name directory elements) block) :
    live.Passes (live.compileDocument document name directory).2 block := by
  have hdocument : live.compileDocument document name directory = _ :=
    compileDocument_of_read hread rfl
  have hlast : (live.opening (directory.join name).normalize).trail.getLast? =
      some (live.call name directory elements).frame.opened := by
    simp [opening, call]
  obtain ⟨trail, hlast, hentered, hleft⟩ := Project.passes_of_reached h hlast
  rw [hdocument]
  exact ⟨trail, hlast, (live.precedes_opening _).trans hentered, hleft.trans (precedes_closing _)⟩

/-- With nothing open before, a document comes to what its sequence comes to. -/
theorem compileDocument_eq_compileSequence (hactive : live.active = []) :
    (live.compileDocument document name directory).map (·.map (·.code)) (·.session) =
      (live.project.compileSequence document name directory).runFrom live.session := by
  have hruns := Project.runsDocument_iff.2
    (rfl : (live.project.compileSequence document name directory).runFrom live.session = _)
  generalize (live.project.compileSequence document name directory).runFrom live.session = outcome
    at hruns
  cases hruns with
  | malformed hread =>
    rw [compileDocument_of_error hread]
    rfl
  | @elements elements result s' hread hruns =>
    have hruns : live.project.Runs
        ⟨directory, name, live.active ++ [(directory.join name).normalize]⟩ elements live.session
          result s' := by
      rw [hactive]
      exact hruns
    obtain ⟨visited, hdocument, -⟩ := compileDocument_of_runs hread hruns
    rw [hdocument]
    cases result <;> rfl

/-- What holds of a session after a document has been compiled in it, however that has ended. -/
structure LeftBy (document : Node) (name : String) (directory : Path)
    (before after : LiveSession) : Prop where
  active : after.active = before.active
  methods : before.session.registry.methods <+: after.session.registry.methods
  cancelled : before.session.cancelled = true → after.session.cancelled = true
  project : after.project = before.project
  /-- A document that cannot be read is not pushed. -/
  malformed : ∀ defect, readSequence document = .error defect → after.trail = before.trail
  /-- From the push of the document to its pop, every stack is the one of a block that is come to,
  and whatever is logged is logged under one of these stacks. -/
  stacked : ∀ elements, readSequence document = .ok elements →
    ∃ during, after.trail = before.trail ++ (during ++ [before.active]) ∧
      during.head? = some (before.active ++ [(directory.join name).normalize]) ∧
      (∀ stack ∈ during, before.project.StackOf (before.call name directory elements) stack) ∧
      before.session.LogsUnder after.session during
  /-- Every block that is come to is compiled on the way, and on the stack are then what was open
  before, the document and exactly the documents around the block, none of them twice. -/
  reached : ∀ elements, readSequence document = .ok elements → ∀ block : Call,
    Relation.ReflTransGen before.project.Calls (before.call name directory elements) block →
    before.Passes after block ∧
      ∃ documents, block.frame.opened =
          before.active ++ (directory.join name).normalize :: documents ∧
        before.project.Encloses directory elements documents block.frame.directory block.elements ∧
        documents.Nodup ∧
        ∀ path ∈ documents, path ∉ before.active ++ [(directory.join name).normalize]

/-- **A session is left consistent by every outcome.** Whether a document has compiled, failed or
been cancelled at any depth, the stack is what it was, nothing registered is lost, a cancelled
session stays cancelled, and the project is the same. In between, the stack is always what is open
around the block that is being compiled. -/
theorem session_left_consistent (live : LiveSession) (document : Node) (name : String)
    (directory : Path) :
    LeftBy document name directory live (live.compileDocument document name directory).2 := by
  cases hread : readSequence document with
  | error defect =>
    rw [compileDocument_of_error hread]
    exact {
      active := rfl
      methods := List.prefix_rfl
      cancelled := id
      project := rfl
      malformed := fun _ _ => rfl
      stacked := fun elements h => nomatch hread.symm.trans h
      reached := fun elements h => nomatch hread.symm.trans h }
  | ok elements =>
    obtain ⟨result, s', hruns⟩ := Project.exists_runs live.project
      ⟨directory, name, live.active ++ [(directory.join name).normalize]⟩ elements live.session
    obtain ⟨visited, hdocument, hvisits⟩ := compileDocument_of_runs hread hruns
    have hreached {block : Call} (h : Relation.ReflTransGen live.project.Calls
        (live.call name directory elements) block) := passes_compileDocument hread h
    rw [hdocument] at hreached ⊢
    exact {
      active := rfl
      methods := hruns.grows.methods
      cancelled := fun hc => (hruns.eq_of_cancelled hc).2 ▸ hc
      project := rfl
      malformed := fun defect h => nomatch hread.symm.trans h
      stacked := fun other h => by
        cases hread.symm.trans h
        refine ⟨_ :: visited, rfl, rfl, List.forall_mem_cons.2 ⟨?_, hvisits.reached⟩, hvisits.logs⟩
        exact Project.stackOf_opened
      reached := fun other h block hblock => by
        cases hread.symm.trans h
        obtain ⟨documents, hopened, hencloses, hnodup, hfresh⟩ := Project.opened_of_reached hblock
        refine ⟨hreached hblock, documents, ?_, hencloses, hnodup, hfresh⟩
        rw [hopened, call, List.append_assoc, List.singleton_append] }

/-- A document that leads back to itself from the second document it opens, in a session in which
another one is open: all three are on the stack before it is left as it was. -/
theorem ring_leaves_stack :
    let entry : List NormalPath := [(⟨"q/outer.xml"⟩ : Path).normalize]
    let live : LiveSession := { project := RingSample.project, active := entry }
    let later := (live.compileDocument RingSample.main "main.xml" ⟨"p"⟩).2
    readSequence RingSample.main = .ok [.sequence ⟨0, none⟩ "b/s.xml"] ∧ later.active = entry ∧
      entry ++ [((⟨"p"⟩ : Path).join "main.xml").normalize,
        ((⟨"p"⟩ : Path).join "b/s.xml").normalize] ∈ later.trail := by
  intro entry live later
  have hleft := session_left_consistent live RingSample.main "main.xml" ⟨"p"⟩
  have hclosed : ((⟨"p"⟩ : Path).join "b/s.xml").normalize ∉
      entry ++ [((⟨"p"⟩ : Path).join "main.xml").normalize] := by decide
  have hcalls : RingSample.project.Calls
      (live.call "main.xml" ⟨"p"⟩ [.sequence ⟨0, none⟩ "b/s.xml"]) _ :=
    Project.calls_of_opens rfl (.document hclosed RingSample.load_steps RingSample.read_steps)
  obtain ⟨⟨trail, hlast, -, hafter⟩, -⟩ := hleft.reached _ RingSample.read_main _ (.single hcalls)
  have hpassed := (precedes_compileElements _ _ _ _).trans hafter
  exact ⟨RingSample.read_main, hleft.active, hpassed.trail.subset (List.mem_of_getLast? hlast)⟩

end LiveSession

end RobotSketch
