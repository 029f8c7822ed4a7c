import RobotSketch.Proofs.Defects
import RobotSketch.Proofs.Paths
import RobotSketch.Proofs.Success
import RobotSketch.Proofs.Termination

/-!
# Sequences that lead back to themselves

The sequence documents held in memory form a graph: one refers to another by a saved sequence, at
any depth inside its loops and branches. Inlining walks along the edges of this graph and keeps the
documents on the way from the root open.

The main statement, `cycle_detection_exact`, says that a run reports a cycle only if there is one,
and passes without being cancelled only if there is none. For the first half, `Chain` follows the
open documents along a run. For the second half, what a project unfolds into is finite, so every
document in it is accessible.
-/
namespace RobotSketch

/-! ## The graph of documents -/

namespace Element

mutual

/-- The files of the saved sequences in an element, at any depth. -/
def sequenceFiles : Element → List String
  | .expression .. => []
  | .sequence _ file => [file]
  | .counterLoop _ _ children => sequenceFilesAll children
  | .conditional _ _ _ _ ifBranch elseBranch =>
    sequenceFilesAll ifBranch ++ sequenceFilesAll elseBranch

/-- The files of the saved sequences in elements one after the other. -/
def sequenceFilesAll : List Element → List String
  | [] => []
  | element :: rest => sequenceFiles element ++ sequenceFilesAll rest

end

end Element

open Element

/-- The directory of a document. -/
def NormalPath.directory (normal : NormalPath) : Path := normal.path.parent?.getD ⟨""⟩

/-- Where a document finds a file. -/
def NormalPath.target (normal : NormalPath) (file : String) : NormalPath :=
  (normal.directory.join file).normalize

namespace Documents

/-- The files that the sequence document at a path refers to. -/
def references (documents : Documents) (path : NormalPath) : List String :=
  match documents.load path.path with
  | .ok (some node) => (readSequence node).toOption.elim [] sequenceFilesAll
  | _ => []

/-- One document refers to another, which exists. -/
def RefersTo (documents : Documents) (first second : NormalPath) : Prop :=
  ∃ file ∈ documents.references first, first.target file = second ∧ second ∈ documents.keys

/-- Documents from a start to the last one, each of which refers to the next. The last one is called
by the reference to it. -/
inductive Chain (documents : Documents) (start : NormalPath) :
    List NormalPath → NormalPath → String → Prop where
  | start (hkey : start ∈ documents.keys) :
    Chain documents start [start] start start.path.displayName
  | next {opened : List NormalPath} {last : NormalPath} {name file : String}
      (h : Chain documents start opened last name) (hfile : file ∈ documents.references last)
      (hkey : last.target file ∈ documents.keys) :
    Chain documents start (opened ++ [last.target file]) (last.target file) file

/-- The sequence called `enclosing`, the last of a chain, refers by `file` to one on the chain. -/
structure LeadsBack (documents : Documents) (start : NormalPath) (opened : List NormalPath)
    (last : NormalPath) (enclosing file : String) : Prop where
  chain : documents.Chain start opened last enclosing
  referenced : file ∈ documents.references last
  isOpen : last.target file ∈ opened

variable {documents : Documents}

theorem references_eq {path : NormalPath} {node : Node} {elements : List Element}
    (hload : documents.load path.path = .ok (some node))
    (hread : readSequence node = .ok elements) :
    documents.references path = sequenceFilesAll elements := by
  unfold references
  simp only [hload, hread]
  rfl

/-- A path at which nothing is found is no key. -/
theorem normalize_not_mem_keys {path : Path}
    (h : documents.load path.normalize.path = .ok none) : path.normalize ∉ documents.keys := by
  intro hkey
  obtain ⟨entry, hentry, hpath⟩ := List.mem_map.1 hkey
  unfold load source? at h
  rw [path.normalize_path_normalize] at h
  have hfound : (documents.entries.find? (·.1 == path.normalize)).isSome :=
    List.find?_isSome.2 ⟨entry, hentry, by simpa using hpath⟩
  obtain ⟨found, hfound⟩ := Option.isSome_iff_exists.1 hfound
  simp only [hfound, Option.map_some] at h
  cases hparse : Node.parseFile found.2 path.normalize.path.displayName <;>
    simp [hparse, Except.map] at h

theorem Chain.mem_keys {start last path : NormalPath} {opened : List NormalPath} {name : String}
    (h : documents.Chain start opened last name) (hmem : path ∈ opened) :
    path ∈ documents.keys := by
  induction h with
  | start hkey => rwa [List.mem_singleton.1 hmem]
  | next h hfile hkey ih =>
    rcases List.mem_append.1 hmem with hmem | hmem
    · exact ih hmem
    · rwa [List.mem_singleton.1 hmem]

/-- The last document of a chain is reached from every one of it. -/
theorem Chain.reaches {start last path : NormalPath} {opened : List NormalPath} {name : String}
    (h : documents.Chain start opened last name) (hmem : path ∈ opened) :
    Relation.ReflTransGen documents.RefersTo path last := by
  induction h with
  | start hkey => rw [List.mem_singleton.1 hmem]
  | next h hfile hkey ih =>
    rcases List.mem_append.1 hmem with hmem | hmem
    · exact (ih hmem).tail ⟨_, hfile, rfl, hkey⟩
    · rw [List.mem_singleton.1 hmem]

/-- A chain that leads back ends in a cycle. -/
theorem LeadsBack.cycle {start last : NormalPath} {opened : List NormalPath}
    {enclosing file : String} (h : documents.LeadsBack start opened last enclosing file) :
    Relation.TransGen documents.RefersTo (last.target file) (last.target file) :=
  .tail' (h.chain.reaches h.isOpen) ⟨file, h.referenced, rfl, h.chain.mem_keys h.isOpen⟩

/-- No cycle can be reached from a document that is accessible. -/
theorem not_cycle_of_acc {start path : NormalPath}
    (hacc : Acc (fun second first => documents.RefersTo first second) start)
    (hreach : Relation.ReflTransGen documents.RefersTo start path) :
    ¬ Relation.TransGen documents.RefersTo path path := by
  have hpath : Acc (fun second first => documents.RefersTo first second) path := by
    induction hreach with
    | refl => exact hacc
    | tail _ hrefers ih => exact ih.inv hrefers
  clear hreach hacc
  induction hpath with
  | intro path _ ih =>
    intro hcycle
    obtain ⟨next, hrefers, hback⟩ := Relation.TransGen.head'_iff.1 hcycle
    exact ih next hrefers (.tail' hback hrefers)

end Documents

/-! ## What unfolds has no cycle -/

namespace Project

variable {project : Project} {documents : Documents}

/-- The documents that elements refer to are accessible if the elements unfold. -/
theorem Unfolds.acc (hlibrary : project.library = documents.library) {directory : Path}
    {name : String} {known known' : List String} {elements : List Element} {trees : List Unfolded}
    (h : project.Unfolds directory name known elements trees known') :
    ∀ file ∈ sequenceFilesAll elements, (directory.join file).normalize ∈ documents.keys →
      Acc (fun second first => documents.RefersTo first second)
        (directory.join file).normalize := by
  induction h with
  | nil => simp [sequenceFilesAll]
  | first _ _ _ _ _ ih => simpa [sequenceFilesAll, sequenceFiles] using ih
  | again _ _ ih => simpa [sequenceFilesAll, sequenceFiles] using ih
  | skipped _ _ _ ih => simpa [sequenceFilesAll, sequenceFiles] using ih
  | inlined hload hread hbody _ ihbody ih =>
    intro other hother hkey
    rcases List.mem_append.1 hother with hother | hother
    · obtain rfl := List.mem_singleton.1 hother
      rw [hlibrary] at hload
      refine ⟨_, fun second hrefers => ?_⟩
      obtain ⟨inner, hinner, rfl, hsecond⟩ := hrefers
      rw [Documents.references_eq hload hread] at hinner
      rw [NormalPath.target, NormalPath.directory] at hsecond ⊢
      exact ihbody inner hinner hsecond
    · exact ih other hother hkey
  | absent hload _ ih =>
    intro other hother hkey
    rcases List.mem_append.1 hother with hother | hother
    · obtain rfl := List.mem_singleton.1 hother
      rw [hlibrary] at hload
      exact absurd hkey (Documents.normalize_not_mem_keys hload)
    · exact ih other hother hkey
  | counterLoop _ _ ihbody ih =>
    intro other hother
    rcases List.mem_append.1 hother with hother | hother
    · exact ihbody other hother
    · exact ih other hother
  | conditional _ _ _ _ ihif ihelse ih =>
    intro other hother
    rcases List.mem_append.1 hother with hother | hother
    · rcases List.mem_append.1 hother with hother | hother
      · exact ihif other hother
      · exact ihelse other hother
    · exact ih other hother

theorem UnfoldsFrom.acc (hlibrary : project.library = documents.library) {root : String}
    {directory : Path} {trees : List Unfolded} (h : project.UnfoldsFrom root directory trees) :
    Acc (fun second first => documents.RefersTo first second) (rootPath root directory) := by
  obtain ⟨node, elements, known, hload, hread, hunfolds⟩ := h
  rw [hlibrary] at hload
  rw [rootPath]
  refine ⟨_, fun second hrefers => ?_⟩
  obtain ⟨file, hfile, rfl, hkey⟩ := hrefers
  rw [Documents.references_eq hload hread] at hfile
  rw [NormalPath.target, NormalPath.directory] at hkey ⊢
  exact hunfolds.acc hlibrary file hfile hkey

/-! ## What is reported leads back -/

variable {frame : Frame} {s s' : Session}

theorem not_selfReference_of_load {path : Path} {enclosing file : String} :
    documents.load path ≠ .error (.malformed enclosing (Defect.selfReference file).message) := by
  intro h
  unfold Documents.load Node.parseFile Node.parse at h
  split at h
  · cases h
  · rename_i source hsource
    cases hparse : Xml.parse (Xml.stripDoctype source.toList) with
    | ok node =>
      rw [hparse] at h
      cases h
    | error fault =>
      rw [hparse] at h
      simp only [Except.mapError, Except.map, Except.error.injEq, Defect.inFile,
        Error.malformed.injEq] at h
      exact Defect.OfDocument.message_ne (by simp [Defect.OfDocument]) file h.2

theorem not_selfReference_of_conditions {spec : SensorSpec} {error : Error} {name : String}
    (h : spec.conditions = .error error) {enclosing details : String} :
    error.inSequence name ≠ .malformed enclosing details := by
  have herror : error = .unknownSensor spec.sensor "" := by
    unfold SensorSpec.conditions sensorThreshold at h
    cases hfind : SensorProfile.find? spec.sensor with
    | none => simp only [hfind] at h; cases h; rfl
    | some profile => simp only [hfind] at h; cases h
  rw [herror]
  simp [Error.inSequence]

/-- A step reports a self reference only at a saved sequence that is open. -/
theorem Step.of_selfReference (hlibrary : project.library = documents.library) {element : Element}
    {enclosing file : String}
    (h : project.Step frame element s
      (.error (.malformed enclosing (Defect.selfReference file).message)) s') :
    enclosing = frame.name ∧ (∃ place, element = .sequence place file) ∧
      (frame.directory.join file).normalize ∈ frame.opened := by
  generalize hresult : (Except.error (.malformed enclosing (Defect.selfReference file).message) :
    Except Error (List Code)) = result at h
  have hread : ∀ {defect : Defect} {other : String}, defect.OfDocument →
      Except.error (.malformed enclosing (Defect.selfReference file).message) ≠
        (.error (defect.inFile other) : Except Error (List Code)) := by
    intro defect other hdefect heq
    simp only [Except.error.injEq, Defect.inFile, Error.malformed.injEq] at heq
    exact hdefect.message_ne file heq.2.symm
  cases h with
  | again | absent | first => cases hresult
  | @selfReference s place other hopened =>
    simp only [Except.error.injEq, Defect.inFile, Error.malformed.injEq] at hresult
    obtain rfl := Defect.message_selfReference_inj hresult.2
    exact ⟨hresult.1, ⟨place, rfl⟩, hopened⟩
  | unloadable _ hload =>
    rw [hlibrary, ← Except.error.inj hresult] at hload
    exact absurd hload not_selfReference_of_load
  | malformedExpression _ _ hbody => exact absurd hresult (hread (Expression.reports_body _ _ hbody))
  | malformedSequence _ _ hbody => exact absurd hresult (hread (reports_readSequence _ _ hbody))
  | unknownSensor hconditions =>
    exact absurd (Except.error.inj hresult).symm (not_selfReference_of_conditions hconditions)

/-- The frame of the last document of a chain. -/
structure IsLast (documents : Documents) (start : NormalPath) (frame : Frame) (last : NormalPath) :
    Prop where
  chain : documents.Chain start frame.opened last frame.name
  directory : frame.directory = last.directory

theorem IsLast.target_eq {start last : NormalPath} (h : IsLast documents start frame last)
    (file : String) : (frame.directory.join file).normalize = last.target file := by
  rw [h.directory, NormalPath.target]

/-- A document that is entered becomes the last one. -/
theorem IsLast.entering {start last : NormalPath} {file : String}
    (h : IsLast documents start frame last) (hfile : file ∈ documents.references last)
    (hkey : last.target file ∈ documents.keys) :
    IsLast documents start (frame.entering file) (last.target file) where
  chain := by
    rw [Frame.entering, h.target_eq]
    exact h.chain.next hfile hkey
  directory := by rw [Frame.entering, h.target_eq, NormalPath.directory]

/-- Along every run the open documents form a chain, so a run that reports a self reference has
followed a chain that leads back. -/
theorem Runs.leadsBack (hlibrary : project.library = documents.library) {start : NormalPath}
    {enclosing file : String} {elements : List Element} {result : Except Error (List Code)}
    (h : project.Runs frame elements s result s') {last : NormalPath}
    (hlast : IsLast documents start frame last)
    (hfiles : sequenceFilesAll elements ⊆ documents.references last)
    (hresult : result = .error (.malformed enclosing (Defect.selfReference file).message)) :
    ∃ opened last, documents.LeadsBack start opened last enclosing file := by
  -- A block that is put together fails only where one of its parts does.
  have hmap : ∀ {result : Except Error (List Code)} {f : List Code → List Code} {error : Error},
      result.map f = .error error → result = .error error := by
    intro result f error h
    cases result with
    | error other => exact h
    | ok code => cases h
  induction h generalizing last with
  | nil | cancelled => cases hresult
  | cons _ _ _ ihrest =>
    refine ihrest hlast (fun other hother => hfiles ?_) (hmap hresult)
    exact List.mem_append_right _ hother
  | fails _ ih =>
    refine ih hlast (fun other hother => hfiles ?_) hresult
    simpa [sequenceFilesAll] using List.mem_append_left _ (by simpa [sequenceFilesAll] using hother)
  | step _ hstep =>
    subst hresult
    obtain ⟨rfl, ⟨place, rfl⟩, hopened⟩ := hstep.of_selfReference hlibrary
    rw [hlast.directory] at hopened
    exact ⟨_, last, hlast.chain, hfiles (by simp [sequenceFilesAll, sequenceFiles]), hopened⟩
  | @document frame place other node elements s s' result _ _ hload hread _ ih =>
    have hother : other ∈ documents.references last :=
      hfiles (by simp [sequenceFilesAll, sequenceFiles])
    rw [hlibrary] at hload
    have hkey := Documents.normalize_mem_keys hload
    rw [hlast.target_eq] at hkey hload
    refine ih (hlast.entering hother hkey) ?_ (hmap hresult)
    rw [Documents.references_eq hload hread]
    exact List.Subset.refl _
  | counterLoop _ _ ih =>
    exact ih hlast (by simpa [sequenceFilesAll, sequenceFiles] using hfiles) (hmap hresult)
  | conditional _ _ _ _ _ ihelse =>
    refine ihelse hlast (fun other hother => hfiles ?_) (hmap hresult)
    simp [sequenceFilesAll, sequenceFiles, hother]
  | ifBranchFails _ _ _ ih =>
    refine ih hlast (fun other hother => hfiles ?_) hresult
    simp [sequenceFilesAll, sequenceFiles, hother]

/-- A root that ends in a name is found again in its directory. -/
theorem isLast_root {start : NormalPath} (hproper : start.Proper) (hnames : start.names ≠ [])
    (hkey : start ∈ documents.keys) :
    IsLast documents start ⟨start.path.parent?.getD ⟨""⟩, start.path.displayName,
      [((start.path.parent?.getD ⟨""⟩).join start.path.displayName).normalize]⟩ start := by
  rw [NormalPath.parent?_join_displayName hproper hnames, NormalPath.normalize_path hproper]
  exact ⟨.start hkey, by rw [NormalPath.directory]⟩

theorem RunsRoot.leadsBack (hlibrary : project.library = documents.library) {root : String}
    {directory : Path} (hroot : (rootPath root directory).names ≠ []) {enclosing file : String}
    (h : project.RunsRoot root directory
      (.error (.malformed enclosing (Defect.selfReference file).message), s)) :
    ∃ opened last, documents.LeadsBack (rootPath root directory) opened last enclosing file := by
  cases h with
  | unloadable hload => rw [hlibrary] at hload; exact absurd hload not_selfReference_of_load
  | document hload hruns =>
    rw [hlibrary] at hload
    generalize houtcome : (_, s) = outcome at hruns
    cases hruns with
    | @malformed defect hread =>
      simp only [Prod.mk.injEq, Except.error.injEq, Defect.inFile, Error.malformed.injEq] at houtcome
      exact absurd houtcome.1.2.symm ((reports_readSequence _ _ hread).message_ne file)
    | elements hread hruns =>
      have hkey : rootPath root directory ∈ documents.keys := Documents.normalize_mem_keys hload
      have hproper : (rootPath root directory).Proper := Path.proper_normalize _
      refine hruns.leadsBack hlibrary (isLast_root hproper hroot hkey) ?_
        (congrArg Prod.fst houtcome).symm
      rw [Documents.references_eq hload hread]
      exact List.Subset.refl _

end Project

/-- The steps of the ring are refused inside the dance. -/
theorem RingSample.reports : ∃ session, project.compileProgram "main.xml" ⟨"p"⟩ =
    (.error (.malformed "b/s.xml" (Defect.selfReference ".././main.xml").message), session) := by
  have hdirectory : (Project.rootPath "main.xml" ⟨"p"⟩).path.parent?.getD ⟨""⟩ = ⟨"p"⟩ := by
    decide
  have hname : (Project.rootPath "main.xml" ⟨"p"⟩).path.displayName = "main.xml" := by
    decide
  have hopened : ((frame.entering "b/s.xml").directory.join ".././main.xml").normalize ∈
      (frame.entering "b/s.xml").opened := by decide
  have hruns : ∃ session, project.RunsDocument main "main.xml" ⟨"p"⟩
      (Project.rootSession "main.xml" ⟨"p"⟩)
      (.error (.malformed "b/s.xml" (Defect.selfReference ".././main.xml").message), session) :=
    ⟨_, .elements read_main (.document rfl closed_steps load_steps read_steps
      (.counterLoop rfl (.step rfl (.selfReference hopened))))⟩
  obtain ⟨session, hruns⟩ := hruns
  have hroot : project.RunsRoot "main.xml" ⟨"p"⟩
      (.error (.malformed "b/s.xml" (Defect.selfReference ".././main.xml").message), session) := by
    refine .document load_main ?_
    rwa [hdirectory, hname]
  exact ⟨session, Project.compileProgram_eq hroot⟩

/-! ## Cycles -/

namespace Project

/-- Cycles among the documents held in memory are found exactly. If the sequence at a root that ends
in a name compiles without being cancelled, then no cycle of documents is reached from it. If it is
reported that `file` in `enclosing` is a self reference, then documents lead from the root to the
one called `enclosing`, which refers by `file` to one of them, and that one is on a cycle. -/
theorem cycle_detection_exact (documents : Documents) (handler : Handler)
    (expressions : Option Path) (root : String) (directory : Path)
    (hroot : (rootPath root directory).names ≠ []) :
    let project : Project := ⟨documents.library, handler, expressions⟩
    (∀ program session, project.compileProgram root directory = (.ok program, session) →
      program.cancelled = false →
      ∀ path, Relation.ReflTransGen documents.RefersTo (rootPath root directory) path →
        ¬ Relation.TransGen documents.RefersTo path path) ∧
    ∀ enclosing file session, project.compileProgram root directory =
        (.error (.malformed enclosing s!"sequence '{file}' references itself"), session) →
      ∃ opened last,
        documents.LeadsBack (rootPath root directory) opened last enclosing file ∧
        Relation.TransGen documents.RefersTo (last.target file) (last.target file) := by
  intro project
  refine ⟨fun program session h hc path hreach => ?_, fun enclosing file session h => ?_⟩
  · obtain ⟨trees, hexplained⟩ := compileProgram_explained h hc
    exact Documents.not_cycle_of_acc (hexplained.unfolds.acc rfl) hreach
  · obtain ⟨result, s, hruns⟩ := exists_runsRoot project root directory
    rw [compileProgram_eq hruns] at h
    rcases result with error | code
    · cases h
      obtain ⟨opened, last, hback⟩ := hruns.leadsBack rfl hroot
      exact ⟨opened, last, hback, hback.cycle⟩
    · cases h

/-- A project that compiles has no cycle, and one that is refused has the cycle that is reported. -/
theorem sample_cycle_detection :
    (∀ path, Relation.ReflTransGen Sample.documents.RefersTo (rootPath "main.xml" ⟨"p"⟩) path →
      ¬ Relation.TransGen Sample.documents.RefersTo path path) ∧
    ∃ opened last,
      RingSample.documents.LeadsBack (rootPath "main.xml" ⟨"p"⟩) opened last "b/s.xml"
        ".././main.xml" ∧
      Relation.TransGen RingSample.documents.RefersTo (last.target ".././main.xml")
        (last.target ".././main.xml") := by
  obtain ⟨program, session, hcompiles, hc⟩ := Sample.compiles
  obtain ⟨refused, hreports⟩ := RingSample.reports
  exact ⟨(cycle_detection_exact Sample.documents (.fixed .proceed) none "main.xml" ⟨"p"⟩
      (by decide)).1 program session hcompiles hc,
    (cycle_detection_exact RingSample.documents (.fixed .proceed) none "main.xml" ⟨"p"⟩
      (by decide)).2 _ _ refused hreports⟩

end Project

end RobotSketch
