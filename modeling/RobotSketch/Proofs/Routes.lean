import RobotSketch.Proofs.Cycles
import RobotSketch.Proofs.Joining
import RobotSketch.Proofs.Linking

/-!
# Two routes to a sketch

An expression can be made into a sketch in two ways: alone, with its instructions in the loop, or
through a sequence that does nothing but run it, with its instructions in a subroutine. The first
route looks for the document at the path as it is given, the second one at its normal form, and
errors carry other names.

`Sketch.definitions` takes the text of a sketch apart again, into the headers of its functions and
the lines inside. The main statement is `routes_agree`: both routes succeed or neither does, and
then the loop of the one sketch has the lines of the subroutine in the other.
-/
namespace RobotSketch

/-! ## The functions of a text -/

namespace Sketch

/-- The functions that lines define: the header of each, and the lines up to its closing brace. -/
def definitionsIn : List (List Char) → List (List Char × List (List Char))
  | [] => []
  | line :: rest =>
    if "void ".toList.isPrefixOf line then
      (line, rest.takeWhile (· ≠ ['\x7d'])) :: definitionsIn rest
    else definitionsIn rest

/-- The functions that the text of a sketch defines. -/
def definitions (source : String) : List (List Char × List (List Char)) :=
  definitionsIn (source.toList.splitOn '\n')

/-- A line that begins with a blank, as those inside a function do. -/
def IsInner (line : List Char) : Prop := line.head? = some ' '

theorem isInner_indented (depth : Nat) (cs : List Char) : IsInner (indented (depth + 1) cs) := by
  unfold IsInner indented
  rw [show 3 * (depth + 1) = 3 * depth + 2 + 1 by omega, List.replicate_succ]
  rfl

theorem isInner_charLines (block : Block) : ∀ line ∈ block.charLines 1, IsInner line := by
  intro line hline
  obtain ⟨inner, -, rfl⟩ := List.mem_map.1 hline
  rw [Nat.add_comm]
  exact isInner_indented _ _

theorem IsInner.definitionsIn_cons {line : List Char} (h : IsInner line)
    (rest : List (List Char)) : definitionsIn (line :: rest) = definitionsIn rest := by
  obtain ⟨cs, rfl⟩ : ∃ cs, line = ' ' :: cs := List.head?_eq_some_iff.1 h
  exact if_neg (by simp)

theorem definitionsIn_append_inner {body : List (List Char)} (h : ∀ line ∈ body, IsInner line)
    (rest : List (List Char)) : definitionsIn (body ++ rest) = definitionsIn rest := by
  induction body with
  | nil => rfl
  | cons line body ih =>
    rw [List.forall_mem_cons] at h
    rw [List.cons_append, h.1.definitionsIn_cons, ih h.2]

/-- A function is found again, with what is inside. -/
theorem definitionsIn_functionLines (name : String) {body : List (List Char)}
    (h : ∀ line ∈ body, IsInner line) (rest : List (List Char)) :
    definitionsIn (functionLines name body ++ rest) =
      (functionHeader name, body) :: definitionsIn rest := by
  have hheader : "void ".toList.isPrefixOf (functionHeader name) = true :=
    List.isPrefixOf_iff_prefix.2 ⟨_, (List.append_assoc ..).symm⟩
  have hinside : (body ++ ['\x7d'] :: rest).takeWhile (· ≠ ['\x7d']) = body := by
    rw [List.takeWhile_append_of_pos]
    · simp
    · intro line hline
      have hblank := h line hline
      simp only [ne_eq, decide_not, Bool.not_eq_true', decide_eq_false_iff_not]
      rintro rfl
      cases hblank
  rw [functionLines, List.cons_append, List.cons_append, List.append_assoc, List.singleton_append,
    definitionsIn, if_neg (by decide), definitionsIn, if_pos hheader, hinside,
    definitionsIn_append_inner h, definitionsIn, if_neg (by decide)]

/-- The functions of a sketch are its setup, its loop and its subroutines, in this order. -/
theorem definitionsIn_linesOf (loop : Block) (methods : List (Method (List String)))
    (rest : List (List Char)) : definitionsIn (linesOf loop methods ++ rest) =
      (functionHeader "setup", [indented 1 Board.initCall.toList]) ::
      (functionHeader "loop", loop.charLines 1) ::
      (methods.map fun method =>
        (functionHeader method.name, (Block.ofTexts method.body).charLines 1)) ++
      definitionsIn rest := by
  have hpreamble : preambleLines = [Board.includeLine.toList, [], Board.declaration.toList] ++
      functionLines "setup" [indented 1 Board.initCall.toList] := by decide +kernel
  have hstart : ∀ lines, definitionsIn ([Board.includeLine.toList, [], Board.declaration.toList] ++
      lines) = definitionsIn lines := by
    intro lines
    rw [List.cons_append, definitionsIn, if_neg (by decide), List.cons_append, definitionsIn,
      if_neg (by decide), List.cons_append, definitionsIn, if_neg (by decide), List.nil_append]
  have hmethods : definitionsIn ((methods.flatMap fun method =>
      functionLines method.name ((Block.ofTexts method.body).charLines 1)) ++ rest) =
      (methods.map fun method =>
        (functionHeader method.name, (Block.ofTexts method.body).charLines 1)) ++
      definitionsIn rest := by
    induction methods with
    | nil => rfl
    | cons method others ih =>
      rw [List.flatMap_cons, List.append_assoc,
        definitionsIn_functionLines _ (isInner_charLines _), ih]
      rfl
  rw [linesOf, hpreamble]
  simp only [List.append_assoc]
  rw [hstart, definitionsIn_functionLines _ (by simpa using isInner_indented 0 _),
    definitionsIn_functionLines _ (isInner_charLines _), hmethods]
  rfl

/-- The text of a sketch defines its setup, its loop and its subroutines, in this order. -/
theorem definitions_render {loop : Block} {methods : List (Method (List String))}
    (hloop : ∀ line ∈ loop.charLines 1, '\n' ∉ line)
    (hnames : ∀ method ∈ methods, '\n' ∉ method.name.toList)
    (hbodies : ∀ method ∈ methods, ∀ text ∈ method.body, '\n' ∉ text.toList) :
    definitions (render loop methods) =
      (functionHeader "setup", [indented 1 Board.initCall.toList]) ::
      (functionHeader "loop", loop.charLines 1) ::
      methods.map fun method =>
        (functionHeader method.name, (Block.ofTexts method.body).charLines 1) := by
  rw [definitions, splitOn_render_linesOf hloop hnames hbodies, definitionsIn_linesOf]
  exact List.append_nil _

end Sketch

/-! ## The documents of both routes -/

/-- A path and its normal form lead to the same tree, though an error would carry another name. -/
theorem Documents.load_normalize {documents : Documents} {path : Path} {node : Node} :
    documents.load path.normalize.path = .ok (some node) ↔
      documents.load path = .ok (some node) := by
  have hsource : documents.source? path.normalize.path = documents.source? path := by
    rw [source?, source?, path.normalize_path_normalize]
  unfold load Node.parseFile
  rw [hsource]
  cases documents.source? path with
  | none => exact Iff.rfl
  | some source =>
    simp only
    cases Node.parse source with
    | error defect =>
      constructor
      · intro h; cases h
      · intro h; cases h
    | ok other => exact Iff.rfl

/-- A path of a directory has the directory for its parent. -/
theorem NormalPath.parent?_step_name {normal : NormalPath} {name : String}
    (h : (normal.step (.name name)).Proper) :
    (normal.step (.name name)).path.parent? = some normal.path := by
  have hnames : (normal.step (.name name)).names ≠ [] := by simp [step]
  rw [parent?_path h hnames]
  simp [parent, step]

/-! ## Success on both routes -/

theorem expressionSketch_some (path : Path) (node : Node) :
    expressionSketch path (.ok (some node)) =
      (((Expression.read node).bind (·.body)).mapError (Defect.inFile path.displayName)).bind
        fun body => .ok (Sketch.render (.ofTexts (body.map (·.line))) []) := rfl

/-- An expression alone becomes a sketch if it can be loaded and has a body. -/
theorem compileExpression_eq_ok_iff {library : Library} {path : Path} {sketch : String} :
    compileExpression library path = .ok sketch ↔
      ∃ node body, library.load path = .ok (some node) ∧
        (Expression.read node).bind (·.body) = .ok body ∧
        sketch = Sketch.render (.ofTexts (body.map (·.line))) [] := by
  unfold compileExpression
  constructor
  · intro h
    rcases hload : library.load path with error | (- | node)
    · rw [hload] at h; cases h
    · rw [hload] at h; cases h
    · rw [hload, expressionSketch_some] at h
      cases hbody : (Expression.read node).bind (·.body) with
      | error defect => rw [hbody] at h; cases h
      | ok body => rw [hbody] at h; cases h; exact ⟨node, body, rfl, hbody, rfl⟩
  · rintro ⟨node, body, hload, hbody, rfl⟩
    rw [hload, expressionSketch_some, hbody]
    rfl

namespace Project

variable {project : Project} {documents : Documents} {root file name : String} {directory : Path}
variable {node : Node} {position : Nat}

/-- The frame of the sequence at `root` in a directory. -/
def rootFrame (root : String) (directory : Path) : Frame :=
  ⟨(rootPath root directory).path.parent?.getD ⟨""⟩, (rootPath root directory).path.displayName,
    [(((rootPath root directory).path.parent?.getD ⟨""⟩).join
      (rootPath root directory).path.displayName).normalize]⟩

/-- The expressions that a sequence of a directory refers to are found where they are for the
directory itself. -/
theorem expressionPath_rootFrame (hexpressions : project.expressions = none)
    (hroot : rootPath root directory = directory.normalize.step (.name name)) :
    project.expressionPath (rootFrame root directory).directory file =
      (directory.join file).normalize.path := by
  have hproper : (directory.normalize.step (.name name)).Proper := hroot ▸ Path.proper_normalize _
  have hdirectory : (rootFrame root directory).directory = directory.normalize.path := by
    rw [rootFrame, hroot, NormalPath.parent?_step_name hproper, Option.getD_some]
  rw [hdirectory, expressionPath, hexpressions, Option.getD_none, Path.normalize_join_normalize]

/-- A sequence of one element comes to what its element comes to. -/
theorem compileProgram_of_step {element : Element} {s' : Session}
    {result : Except Error (List Code)}
    (hload : project.library.load (rootPath root directory).path = .ok (some node))
    (hread : readSequence node = .ok [element])
    (hstep : project.Step (rootFrame root directory) element (rootSession root directory) result
      s') :
    (project.compileProgram root directory).1 = result.map (programFrom s') :=
  congrArg Prod.fst (compileProgram_eq (.document hload (.elements hread (.step rfl hstep))))

/-- The program that does nothing but call its one subroutine. -/
def programOfMethod (method : Method (List Instruction)) : Program :=
  ⟨Sketch.render (Code.block [.action (.call method.name)]) [method.lines], [method], false⟩

/-- The subroutine of an expression that is used first. -/
def firstMethod (file : String) (body : List Instruction) : Method (List Instruction) :=
  (Registry.empty.register file body).1

theorem register_firstMethod (file : String) (body : List Instruction) :
    (Registry.empty.register file body).2.methods = [firstMethod file body] := by
  rw [firstMethod, Registry.register_of_get?_none rfl]
  rfl

theorem body_firstMethod (file : String) (body : List Instruction) :
    (firstMethod file body).body = body := by
  rw [firstMethod, Registry.register_of_get?_none rfl]

theorem isIdentifier_firstMethod (file : String) (body : List Instruction) :
    Identifier.IsIdentifier (firstMethod file body).name.toList := by
  have hsound := (Registry.sound_empty : (Registry.empty : Registry (List Instruction)).Sound)
  refine ((hsound.register file body).named _ ?_).1
  rw [register_firstMethod]
  exact List.mem_singleton_self _

/-- What a sequence that only runs an expression comes to, given the document that is found. -/
theorem compileProgram_of_load {expression : Node}
    (hload : project.library.load (rootPath root directory).path = .ok (some node))
    (hread : readSequence node = .ok [.expression ⟨position, none⟩ file 0])
    (hexpression : project.library.load
      (project.expressionPath (rootFrame root directory).directory file) = .ok (some expression)) :
    (project.compileProgram root directory).1 =
      (((Expression.read expression).bind (·.body)).mapError (Defect.inFile file)).map
        fun body => programOfMethod (firstMethod file body) := by
  have hnew : (rootSession root directory).registry.get? file = none := rfl
  cases hbody : (Expression.read expression).bind (·.body) with
  | error defect =>
    rw [compileProgram_of_step hload hread (.malformedExpression hnew hexpression hbody)]
    rfl
  | ok body =>
    rw [compileProgram_of_step hload hread (.first hnew hexpression hbody)]
    have hmethods : ((rootSession root directory).registry.register file body).2.methods =
        [firstMethod file body] := register_firstMethod file body
    refine congrArg Except.ok ?_
    rw [programFrom, if_neg (by exact Bool.false_ne_true), Session.registering_registry, hmethods]
    rfl

/-- A sequence of a directory that only runs an expression becomes a program if the expression can
be loaded and has a body. -/
theorem compileProgram_eq_ok_iff {program : Program}
    (hlibrary : project.library = documents.library) (hexpressions : project.expressions = none)
    (hkey : (directory.join file).normalize ∈ documents.keys)
    (hroot : rootPath root directory = directory.normalize.step (.name name))
    (hload : documents.load (rootPath root directory).path = .ok (some node))
    (hread : readSequence node = .ok [.expression ⟨position, none⟩ file 0]) :
    (project.compileProgram root directory).1 = .ok program ↔
      ∃ expression body, documents.load (directory.join file) = .ok (some expression) ∧
        (Expression.read expression).bind (·.body) = .ok body ∧
        program = programOfMethod (firstMethod file body) := by
  have hpath := @expressionPath_rootFrame project root file name directory hexpressions hroot
  have hfound : project.library.load
      (project.expressionPath (rootFrame root directory).directory file) =
        documents.load (directory.join file).normalize.path := by rw [hlibrary, hpath]; rfl
  have hsequence : project.library.load (rootPath root directory).path = .ok (some node) := by
    rw [hlibrary]; exact hload
  have hnormal := fun expression => @Documents.load_normalize documents (directory.join file)
    expression
  rcases hexpression : documents.load (directory.join file).normalize.path with
    error | (- | expression)
  · have hnew : (rootSession root directory).registry.get? file = none := rfl
    rw [compileProgram_of_step hsequence hread
      (.unloadable (.expression hnew) (hfound.trans hexpression))]
    constructor
    · intro h; cases h
    · rintro ⟨_, _, h, -⟩
      cases ((hnormal _).2 h).symm.trans hexpression
  · exact absurd hkey (Documents.normalize_not_mem_keys hexpression)
  · rw [compileProgram_of_load hsequence hread (hfound.trans hexpression)]
    constructor
    · intro h
      cases hbody : (Expression.read expression).bind (·.body) with
      | error defect => rw [hbody] at h; cases h
      | ok body =>
        rw [hbody] at h
        cases h
        exact ⟨expression, body, (hnormal _).1 hexpression, hbody, rfl⟩
    · rintro ⟨_, body, hother, hbody, rfl⟩
      cases ((hnormal _).2 hother).symm.trans hexpression
      rw [hbody]
      rfl

end Project

/-! ## The lines of both sketches -/

namespace Sketch

/-- The setup of every sketch. -/
def setupDefinition : List Char × List (List Char) :=
  (functionHeader "setup", [indented 1 Board.initCall.toList])

/-- The lines of instructions inside a function. -/
def bodyLines (body : List Instruction) : List (List Char) :=
  body.map fun instruction => indented 1 instruction.line.toList

theorem charLines_body (body : List Instruction) :
    (Block.ofTexts (body.map (·.line))).charLines 1 = bodyLines body := by
  rw [Block.charLines_ofTexts, List.map_map]
  rfl

variable {body : List Instruction}

/-- The sketch of an expression alone has its instructions in the loop. -/
theorem definitions_expression (h : ∀ instruction ∈ body, instruction.IsRendered) :
    definitions (render (.ofTexts (body.map (·.line))) []) =
      [setupDefinition, (functionHeader "loop", bodyLines body)] := by
  rw [definitions_render _ (by simp) (by simp), charLines_body]
  · rfl
  · intro line hline
    rw [charLines_body] at hline
    obtain ⟨instruction, hinstruction, rfl⟩ := List.mem_map.1 hline
    exact newline_not_mem_indented.2 (h instruction hinstruction).newline_not_mem

/-- The sketch of a program with one subroutine has a call in the loop, and the instructions in the
subroutine. -/
theorem definitions_programOfMethod {method : Method (List Instruction)}
    (hname : Identifier.IsIdentifier method.name.toList)
    (h : ∀ instruction ∈ method.body, instruction.IsRendered) :
    definitions (Project.programOfMethod method).source =
      [setupDefinition,
        (functionHeader "loop", [indented 1 (callStatement method.name).toList]),
        (functionHeader method.name, bodyLines method.body)] := by
  have hloop : (Code.block [.action (.call method.name)]).charLines 1 =
      [indented 1 (callStatement method.name).toList] := Code.charLines_action 1 _ []
  have hcall : '\n' ∉ (callStatement method.name).toList := by
    rw [toList_callStatement, List.mem_append, not_or]
    exact ⟨hname.newline_not_mem, by decide⟩
  rw [Project.programOfMethod, definitions_render, hloop, List.map_singleton, Method.lines,
    charLines_body]
  · rfl
  · rw [hloop]
    simpa using newline_not_mem_indented.2 hcall
  · simpa [Method.lines] using hname.newline_not_mem
  · simpa [Method.lines] using fun instruction hmem => (h instruction hmem).newline_not_mem

end Sketch

theorem Expression.isRendered_of_bind {node : Node} {body : List Instruction}
    (h : (Expression.read node).bind (·.body) = .ok body) :
    ∀ instruction ∈ body, instruction.IsRendered := by
  cases hread : Expression.read node with
  | error defect => rw [hread] at h; cases h
  | ok expression => rw [hread] at h; exact Expression.isRendered_body h

namespace Project

/-- **The two routes agree.** Let a directory have a document for a file, and directly in it a
sequence whose only element runs that file, without a comment or a delay. Compiling the expression
alone succeeds exactly if compiling the sequence does, whatever the answers to questions. Then the
program is not cancelled and has one method; the lines in the loop of the one sketch are those in
the method of the other, and the loop of the other is just the call. -/
theorem routes_agree (documents : Documents) (handler : Handler) {root file name : String}
    {directory : Path} {node : Node} {position : Nat}
    (hkey : (directory.join file).normalize ∈ documents.keys)
    (hroot : rootPath root directory = directory.normalize.step (.name name))
    (hload : documents.load (rootPath root directory).path = .ok (some node))
    (hread : readSequence node = .ok [.expression ⟨position, none⟩ file 0]) :
    let project : Project := ⟨documents.library, handler, none⟩
    ((∃ sketch, compileExpression documents.library (directory.join file) = .ok sketch) ↔
      ∃ program, (project.compileProgram root directory).1 = .ok program) ∧
    ∀ sketch program,
      compileExpression documents.library (directory.join file) = .ok sketch →
      (project.compileProgram root directory).1 = .ok program →
      program.cancelled = false ∧ ∃ method lines, program.methods = [method] ∧
        Sketch.definitions sketch =
          [Sketch.setupDefinition, (Sketch.functionHeader "loop", lines)] ∧
        Sketch.definitions program.source =
          [Sketch.setupDefinition,
            (Sketch.functionHeader "loop", [indented 1 (callStatement method.name).toList]),
            (Sketch.functionHeader method.name, lines)] := by
  intro project
  have hprogram := fun program => @compileProgram_eq_ok_iff project documents root file name
    directory node position program rfl rfl hkey hroot hload hread
  have hexpression := fun sketch =>
    @compileExpression_eq_ok_iff documents.library (directory.join file) sketch
  refine ⟨⟨?_, ?_⟩, ?_⟩
  · rintro ⟨sketch, hsketch⟩
    obtain ⟨expression, body, hfound, hbody, -⟩ := (hexpression sketch).1 hsketch
    exact ⟨_, (hprogram _).2 ⟨expression, body, hfound, hbody, rfl⟩⟩
  · rintro ⟨program, hcompiled⟩
    obtain ⟨expression, body, hfound, hbody, -⟩ := (hprogram program).1 hcompiled
    exact ⟨_, (hexpression _).2 ⟨expression, body, hfound, hbody, rfl⟩⟩
  · intro sketch program hsketch hcompiled
    obtain ⟨expression, body, hfound, hbody, rfl⟩ := (hexpression sketch).1 hsketch
    obtain ⟨other, body', hother, hbody', rfl⟩ := (hprogram program).1 hcompiled
    cases hfound.symm.trans hother
    cases hbody.symm.trans hbody'
    have hrendered := Expression.isRendered_of_bind hbody
    refine ⟨rfl, firstMethod file body, Sketch.bodyLines body, rfl,
      Sketch.definitions_expression hrendered, ?_⟩
    have hmethod := body_firstMethod file body
    have hdefinitions := Sketch.definitions_programOfMethod (isIdentifier_firstMethod file body)
      (hmethod.symm ▸ hrendered)
    rwa [hmethod] at hdefinitions

end Project

/-! ## A dance of one part -/

namespace SoloSample

/-- A dance that only runs an expression, under a spelling of its own. -/
def documents : Documents := .ofList [
  (⟨"p/a.xml"⟩, "<expression delay-millis='1'/>"),
  (⟨"p/main.xml"⟩, "<sequence><expression file='b/../a.xml'/></sequence>")]

/-- The directory, as it is given. -/
def directory : Path := ⟨"p/./q/.."⟩

def main : Node := ⟨"sequence", [], "", [⟨"expression", [("file", "b/../a.xml")], "", []⟩]⟩

theorem load_main : documents.load (Project.rootPath "main.xml" directory).path =
    .ok (some main) := eq_ok_of_toOption (by decide +kernel)

theorem read_main : readSequence main = .ok [.expression ⟨0, none⟩ "b/../a.xml" 0] := by cbv

theorem load_part : documents.library.load (directory.join "b/../a.xml") =
    .ok (some ⟨"expression", [("delay-millis", "1")], "", []⟩) :=
  eq_ok_of_toOption (by decide +kernel)

end SoloSample

namespace Project

/-- The part is compiled alone and from the dance, and its lines are in the loop of the one sketch
and in the method of the other. -/
theorem sample_routes_agree :
    (SoloSample.directory.join "b/../a.xml").normalize ∈ SoloSample.documents.keys ∧
    rootPath "main.xml" SoloSample.directory =
      SoloSample.directory.normalize.step (.name "main.xml") ∧
    ∃ sketch program method lines,
      compileExpression SoloSample.documents.library (SoloSample.directory.join "b/../a.xml") =
        .ok sketch ∧
      ((⟨SoloSample.documents.library, .fixed .abort, none⟩ : Project).compileProgram "main.xml"
        SoloSample.directory).1 = .ok program ∧
      program.methods = [method] ∧
      Sketch.definitions sketch =
        [Sketch.setupDefinition, (Sketch.functionHeader "loop", lines)] ∧
      Sketch.definitions program.source =
        [Sketch.setupDefinition,
          (Sketch.functionHeader "loop", [indented 1 (callStatement method.name).toList]),
          (Sketch.functionHeader method.name, lines)] := by
  have hkey : (SoloSample.directory.join "b/../a.xml").normalize ∈ SoloSample.documents.keys := by
    decide
  have hroot : rootPath "main.xml" SoloSample.directory =
      SoloSample.directory.normalize.step (.name "main.xml") := by decide
  have hagree := routes_agree SoloSample.documents (.fixed .abort) hkey hroot SoloSample.load_main
    SoloSample.read_main
  have hbody : (Expression.read ⟨"expression", [("delay-millis", "1")], "", []⟩).bind (·.body) =
      .ok [.delay 1] := eq_ok_of_toOption (by decide)
  have hsketch := compileExpression_eq_ok_iff.2
    ⟨_, _, SoloSample.load_part, hbody, rfl⟩
  obtain ⟨program, hprogram⟩ := hagree.1.1 ⟨_, hsketch⟩
  obtain ⟨-, method, lines, hagree⟩ := hagree.2 _ program hsketch hprogram
  exact ⟨hkey, hroot, _, program, method, lines, hsketch, hprogram, hagree⟩

end Project

end RobotSketch
