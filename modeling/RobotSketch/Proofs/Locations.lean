import RobotSketch.Files
import RobotSketch.Proofs.Joining
import RobotSketch.Proofs.Termination

/-!
# Where a path leads

In a tree of files without links a path leads from the working directory, or from the root, to a
location: a dot stays, a double dot goes to the directory around, and the root is around itself.
`SameLocation` says that two paths lead to the same location in every tree in which both can be
followed.

Normal forms tell paths apart by where they lead, and by one thing more: how often an absolute path
goes up from the root (`Path.overshoot`). The root absorbs these steps, while a normal form keeps
them, as in `/../a`. The main statement is `normal_forms_canonical_iff`; it goes on to what the
check for sequences that lead back to themselves makes of it.
-/
namespace RobotSketch

/-! ## Following a path -/

/-- The location that one text between slashes leads to. -/
def Location.enter (location : Location) : List Char → Location
  | [] | ['.'] => location
  | ['.', '.'] => location.dropLast
  | name => location ++ [String.ofList name]

/-- How often texts between slashes go up from the root. -/
def Location.overshoot (location : Location) : List (List Char) → Nat
  | [] => 0
  | segment :: segments =>
    (if segment = ['.', '.'] ∧ location = [] then 1 else 0) +
      (location.enter segment).overshoot segments

namespace Path

/-- The texts between the slashes of a path. -/
def texts (path : Path) : List (List Char) := Text.pieces (· == '/') path.text.toList

/-- How often an absolute path goes up from the root. -/
def overshoot (path : Path) : Nat := if path.isAbsolute then Location.overshoot [] path.texts else 0

/-- Where a path starts, given the working directory. -/
def startFrom (path : Path) (working : Location) : Location :=
  if path.isAbsolute then [] else working

end Path

namespace Tree

/-- Whether there is a directory at a location. -/
def HasDirectory (tree : Tree) (location : Location) : Prop :=
  ∃ children, tree.entry? location = some (.directory children)

/-- Texts between slashes lead from one location to another, through directories that exist. What
they lead to need not exist. -/
inductive Leads (tree : Tree) : Location → List (List Char) → Location → Prop where
  | arrived {location : Location} : Leads tree location [] location
  | onward {location target : Location} {segment : List Char} {segments : List (List Char)}
      (hdirectory : tree.HasDirectory location)
      (h : Leads tree (location.enter segment) segments target) :
    Leads tree location (segment :: segments) target

/-- A path leads to a location. -/
def LeadsTo (tree : Tree) (path : Path) (target : Location) : Prop :=
  tree.Leads (path.startFrom tree.working) path.texts target

end Tree

/-- Two paths lead to the same location in every tree, from every working directory, in which all
the directories that they pass through exist. -/
def SameLocation (first second : Path) : Prop :=
  ∀ (tree : Tree) (here there : Location),
    tree.LeadsTo first here → tree.LeadsTo second there → here = there

/-- The location that a path leads to from a working directory. -/
def Path.location (path : Path) (working : Location) : Location :=
  path.texts.foldl Location.enter (path.startFrom working)

theorem Location.length_enter_le (location : Location) (segment : List Char) :
    (location.enter segment).length ≤ location.length + 1 := by
  unfold enter
  split <;> simp
  omega

theorem Location.mem_of_mem_enter {location : Location} {segment : List Char} {name : String}
    (h : name ∈ location.enter segment) : name ∈ location ∨ name = String.ofList segment := by
  unfold enter at h
  split at h
  · exact Or.inl h
  · exact Or.inl h
  · exact Or.inl (List.dropLast_subset _ h)
  · simpa using h

theorem Tree.Leads.eq_foldl {tree : Tree} {location target : Location} {segments : List (List Char)}
    (h : tree.Leads location segments target) :
    target = segments.foldl Location.enter location := by
  induction h with
  | arrived => rfl
  | onward _ _ ih => exact ih

/-! ## Trees in which paths can be followed -/

/-- What a directory holds in which all words of the given names are directories, up to a depth. -/
def Children.words (names : List String) : Nat → Children
  | 0 => []
  | depth + 1 => names.map fun name => (name, .directory (words names depth))

theorem Children.at?_words {names : List String} {location : Location} {depth : Nat}
    (hnames : location ⊆ names) (hdepth : location.length ≤ depth) :
    (Entry.directory (words names depth)).at? location =
      some (.directory (words names (depth - location.length))) := by
  induction location generalizing depth with
  | nil => rfl
  | cons name rest ih =>
    obtain ⟨hname, hrest⟩ := List.cons_subset.1 hnames
    obtain ⟨depth, rfl⟩ : ∃ below, depth = below + 1 :=
      ⟨depth - 1, by rw [List.length_cons] at hdepth; omega⟩
    have hlookup : (words names (depth + 1)).lookup name =
        some (.directory (words names depth)) := by
      rw [words]
      generalize Entry.directory (words names depth) = entry
      clear hnames hrest hdepth ih
      induction names with
      | nil => exact absurd hname List.not_mem_nil
      | cons first names ih =>
        rw [List.map_cons, List.lookup_cons]
        by_cases hfirst : name = first
        · simp [hfirst]
        · simp only [beq_eq_false_iff_ne.2 hfirst]
          exact ih ((List.mem_cons.1 hname).resolve_left hfirst)
    rw [Entry.at?, hlookup, Option.bind_some, ih hrest (by simpa using hdepth)]
    simp

/-- Texts between slashes can be followed where all words of their names are directories. -/
theorem Tree.leads_words {names : List String} {working location : Location} {depth : Nat}
    {segments : List (List Char)} (hlocation : location ⊆ names)
    (hsegments : ∀ segment ∈ segments, String.ofList segment ∈ names)
    (hdepth : location.length + segments.length ≤ depth) :
    (⟨.words names depth, working⟩ : Tree).Leads location segments
      (segments.foldl Location.enter location) := by
  induction segments generalizing location with
  | nil => exact .arrived
  | cons segment segments ih =>
    rw [List.length_cons] at hdepth
    have hhere := Children.at?_words hlocation (by omega : location.length ≤ depth)
    refine .onward ⟨_, hhere⟩ (ih (fun name hname => ?_) (fun other hother => ?_) ?_)
    · rcases Location.mem_of_mem_enter hname with hname | rfl
      · exact hlocation hname
      · exact hsegments segment List.mem_cons_self
    · exact hsegments other (List.mem_cons_of_mem _ hother)
    · have hlength := location.length_enter_le segment
      omega

/-- From every working directory two paths can be followed in one tree. -/
theorem Tree.exists_leadsTo (first second : Path) (working : Location) :
    ∃ tree : Tree, tree.LeadsTo first (first.location working) ∧
      tree.LeadsTo second (second.location working) := by
  let names := working ++ (first.texts ++ second.texts).map String.ofList
  let depth := working.length + (first.texts ++ second.texts).length
  have hleads : ∀ path : Path, path.texts ⊆ first.texts ++ second.texts →
      path.texts.length ≤ (first.texts ++ second.texts).length →
      (⟨.words names depth, working⟩ : Tree).LeadsTo path (path.location working) := by
    intro path hsubset hlength
    have hstart : path.startFrom working ⊆ working ∧
        (path.startFrom working).length ≤ working.length := by
      unfold Path.startFrom
      split <;> simp
    refine leads_words (fun name hname => ?_) (fun segment hsegment => ?_) ?_
    · exact List.mem_append_left _ (hstart.1 hname)
    · exact List.mem_append_right _ (List.mem_map_of_mem (hsubset hsegment))
    · exact Nat.add_le_add hstart.2 hlength
  exact ⟨_, hleads first (List.subset_append_left ..) (by simp),
    hleads second (List.subset_append_right ..) (by simp)⟩

theorem sameLocation_iff_location {first second : Path} :
    SameLocation first second ↔ ∀ working, first.location working = second.location working := by
  constructor
  · intro h working
    obtain ⟨tree, hfirst, hsecond⟩ := Tree.exists_leadsTo first second working
    exact h tree _ _ hfirst hsecond
  · intro h tree here there hhere hthere
    rw [hhere.eq_foldl, hthere.eq_foldl]
    exact h tree.working

/-! ## Normal forms -/

namespace NormalPath

/-- The location that a normal path leads to from a working directory. -/
def location (normal : NormalPath) (working : Location) : Location :=
  (if normal.absolute then [] else working.take (working.length - normal.ups)) ++ normal.names

/-- What one text between slashes does to a normal path. -/
def read (normal : NormalPath) (segment : List Char) : NormalPath :=
  (Path.Component.ofSegment? segment).elim normal normal.step

/-- One text more leads one step on. -/
theorem location_read (normal : NormalPath) (segment : List Char) (working : Location) :
    (normal.read segment).location working = (normal.location working).enter segment := by
  obtain ⟨absolute, ups, names⟩ := normal
  unfold read Path.Component.ofSegment? Location.enter
  split
  · rfl
  · rfl
  · cases names with
    | cons first rest =>
      exact (List.dropLast_append_of_ne_nil (List.cons_ne_nil first rest)).symm
    | nil =>
      cases absolute with
      | true => rfl
      | false =>
        simp only [Option.elim_some, step, location, Bool.false_eq_true, if_false, List.append_nil]
        rw [List.dropLast_eq_take, List.take_take, List.length_take]
        congr 1
        omega
  · simp only [Option.elim_some, step, location]
    exact (List.append_assoc ..).symm

/-- A step up is kept if there is no name that it cancels. -/
theorem ups_read (normal : NormalPath) (segment : List Char) :
    (normal.read segment).ups =
      normal.ups + if segment = ['.', '.'] ∧ normal.names = [] then 1 else 0 := by
  obtain ⟨absolute, ups, names⟩ := normal
  unfold read Path.Component.ofSegment?
  split
  · rfl
  · rfl
  · cases names <;> rfl
  · rename_i hne
    rw [if_neg fun h => hne h.1]
    rfl

theorem absolute_read (normal : NormalPath) (segment : List Char) :
    (normal.read segment).absolute = normal.absolute := by
  obtain ⟨absolute, ups, names⟩ := normal
  unfold read Path.Component.ofSegment?
  split <;> try rfl
  cases names <;> rfl

theorem location_foldl_read (segments : List (List Char)) (normal : NormalPath)
    (working : Location) :
    (segments.foldl read normal).location working =
      segments.foldl Location.enter (normal.location working) := by
  induction segments generalizing normal with
  | nil => rfl
  | cons segment segments ih => rw [List.foldl_cons, List.foldl_cons, ih, location_read]

theorem absolute_foldl_read (segments : List (List Char)) (normal : NormalPath) :
    (segments.foldl read normal).absolute = normal.absolute := by
  induction segments generalizing normal with
  | nil => rfl
  | cons segment segments ih => rw [List.foldl_cons, ih, absolute_read]

/-- Behind a root, the steps up that are kept are those that overshoot. -/
theorem ups_foldl_read (segments : List (List Char)) {normal : NormalPath}
    (habsolute : normal.absolute = true) :
    (segments.foldl read normal).ups =
      normal.ups + Location.overshoot normal.names segments := by
  induction segments generalizing normal with
  | nil => rfl
  | cons segment segments ih =>
    have hnames : (normal.read segment).names = Location.enter normal.names segment := by
      have hlocation := normal.location_read segment []
      rwa [location, location, absolute_read, habsolute] at hlocation
    rw [List.foldl_cons, ih ((absolute_read ..).trans habsolute), ups_read, hnames,
      Location.overshoot]
    omega

end NormalPath

namespace Path

variable (path : Path)

theorem normalize_eq_foldl_read :
    path.normalize = path.texts.foldl NormalPath.read { absolute := path.isAbsolute } := by
  rw [normalize_eq, steps, List.foldl_filterMap]
  congr 1
  funext normal segment
  unfold NormalPath.read
  cases Component.ofSegment? segment <;> rfl

theorem absolute_normalize : path.normalize.absolute = path.isAbsolute := by
  rw [normalize_eq_foldl_read, NormalPath.absolute_foldl_read]

/-- A path leads where its normal form leads. -/
theorem location_normalize (working : Location) :
    path.normalize.location working = path.location working := by
  rw [normalize_eq_foldl_read, NormalPath.location_foldl_read, location, startFrom]
  cases path.isAbsolute <;> simp [NormalPath.location]

theorem ups_normalize_of_isAbsolute (h : path.isAbsolute = true) :
    path.normalize.ups = path.overshoot := by
  rw [normalize_eq_foldl_read, NormalPath.ups_foldl_read _ h, overshoot, if_pos h]
  exact Nat.zero_add _

end Path

/-- Two normal paths lead to the same locations if they differ in nothing but steps up from the
root. -/
theorem NormalPath.location_eq_iff {first second : NormalPath} :
    (∀ working, first.location working = second.location working) ↔
      first.absolute = second.absolute ∧ first.names = second.names ∧
        (first.absolute = false → first.ups = second.ups) := by
  constructor
  · intro h
    -- From the root, all steps up are lost and the names are left.
    have hnames : first.names = second.names := by
      have hroot := h []
      unfold location at hroot
      simpa using hroot
    -- From far below the root, each step up shows in the length.
    have hlength := congrArg List.length (h (List.replicate (first.ups + second.ups + 1) ""))
    simp only [location, List.length_append, hnames, Nat.add_right_cancel_iff] at hlength
    cases hfirst : first.absolute <;> cases hsecond : second.absolute <;>
      simp [hfirst, hsecond] at hlength
    · exact ⟨rfl, hnames, fun _ => by omega⟩
    · omega
    · omega
    · exact ⟨rfl, hnames, fun h => Bool.noConfusion h⟩
  · rintro ⟨habsolute, hnames, hups⟩ working
    unfold location
    rw [← habsolute, hnames]
    cases hfirst : first.absolute with
    | true => rfl
    | false => rw [hups hfirst]

theorem sameLocation_iff {first second : Path} :
    SameLocation first second ↔ first.isAbsolute = second.isAbsolute ∧
      first.normalize.names = second.normalize.names ∧
        (first.isAbsolute = false → first.normalize.ups = second.normalize.ups) := by
  have hnormal := @NormalPath.location_eq_iff first.normalize second.normalize
  simp only [Path.location_normalize, Path.absolute_normalize] at hnormal
  rw [sameLocation_iff_location, hnormal]

/-- Normal forms are equal if the paths lead to the same location and go up from the root equally
often. -/
theorem Path.normalize_eq_iff {first second : Path} :
    first.normalize = second.normalize ↔
      SameLocation first second ∧ first.overshoot = second.overshoot := by
  rw [sameLocation_iff]
  constructor
  · intro h
    have habsolute : first.isAbsolute = second.isAbsolute := by
      rw [← absolute_normalize, ← absolute_normalize, h]
    refine ⟨⟨habsolute, by rw [h], fun _ => by rw [h]⟩, ?_⟩
    cases hfirst : first.isAbsolute with
    | true =>
      rw [← ups_normalize_of_isAbsolute _ hfirst, h,
        ups_normalize_of_isAbsolute _ (habsolute.symm.trans hfirst)]
    | false =>
      unfold overshoot
      rw [← habsolute, hfirst]
      rfl
  · rintro ⟨⟨habsolute, hnames, hups⟩, hovershoot⟩
    have hups : first.normalize.ups = second.normalize.ups := by
      cases hfirst : first.isAbsolute with
      | true =>
        rw [ups_normalize_of_isAbsolute _ hfirst, hovershoot,
          ups_normalize_of_isAbsolute _ (habsolute.symm.trans hfirst)]
      | false => exact hups hfirst
    have habsolute : first.normalize.absolute = second.normalize.absolute := by
      rw [absolute_normalize, absolute_normalize, habsolute]
    cases hfirst : first.normalize
    cases hsecond : second.normalize
    simp_all

/-! ## References that lead back -/

namespace Project

variable {project : Project}

/-- A run comes to an element of a frame, in the session that the elements in front of it leave. -/
inductive ComesTo (project : Project) (start : Call) : Frame → Element → Session → Prop where
  | intro {frame : Frame} {before after : List Element} {element : Element} {s s₁ : Session}
      {code : List Code}
      (hcalls : Relation.ReflTransGen project.Calls start ⟨frame, before ++ element :: after, s⟩)
      (hbefore : project.Runs frame before s (.ok code) s₁) (hc : s₁.cancelled = false) :
    ComesTo project start frame element s₁

/-- What is wrong with an element that a run comes to is the error of the run. -/
theorem ComesTo.fails {start : Call} {frame : Frame} {element : Element} {s s' : Session}
    {error : Error} (h : project.ComesTo start frame element s)
    (hstep : project.Step frame element s (.error error) s') :
    project.Runs start.frame start.elements start.session (.error error) s' := by
  have hcall : ∀ call : Call, Relation.ReflTransGen project.Calls start call →
      project.Runs call.frame call.elements call.session (.error error) s' →
      project.Runs start.frame start.elements start.session (.error error) s' := by
    intro call hcalls hinner
    induction hcalls with
    | refl => exact hinner
    | tail _ hlast ih => exact ih (hlast.fails hinner)
  cases h with
  | intro hcalls hbefore hc =>
    exact hcall _ hcalls (hbefore.append (.fails (.step hc hstep)))

/-- A reference to a document that is open, under any spelling that goes up from the root equally
often, is refused, and with it the whole run. -/
theorem ComesTo.selfReference {start : Call} {frame : Frame} {place : Place} {file : String}
    {s : Session} {path : Path} (h : project.ComesTo start frame (.sequence place file) s)
    (hopened : path.normalize ∈ frame.opened)
    (hsame : SameLocation (frame.directory.join file) path)
    (hovershoot : (frame.directory.join file).overshoot = path.overshoot) :
    project.Runs start.frame start.elements start.session
      (.error ((Defect.selfReference file).inFile frame.name)) s := by
  have hnormal : (frame.directory.join file).normalize = path.normalize :=
    Path.normalize_eq_iff.2 ⟨hsame, hovershoot⟩
  exact h.fails (.selfReference (hnormal ▸ hopened))

/-- **When normal forms are canonical.** Two paths have the same normal form if they lead to the
same location in every tree in which they can be followed, and go up from the root equally often.
So while the document at the second path is being compiled, a saved sequence that leads to its
location is refused as a reference of that document to itself, whatever else the run has come
through, provided that both paths go up from the root equally often. -/
theorem normal_forms_canonical_iff (first second : Path) :
    (first.normalize = second.normalize ↔
      SameLocation first second ∧ first.overshoot = second.overshoot) ∧
    ∀ (project : Project) (document : Node) (name : String) (directory : Path) (s s₁ : Session)
      (elements : List Element) (frame : Frame) (place : Place) (file : String),
      readSequence document = .ok elements →
      project.ComesTo ⟨⟨directory, name, [(directory.join name).normalize]⟩, elements, s⟩ frame
        (.sequence place file) s₁ →
      second.normalize ∈ frame.opened → SameLocation (frame.directory.join file) second →
      (frame.directory.join file).overshoot = second.overshoot →
      (project.compileSequence document name directory).runFrom s =
        (.error (.malformed frame.name s!"sequence '{file}' references itself"), s₁) := by
  refine ⟨Path.normalize_eq_iff, ?_⟩
  intro project document name directory s s₁ elements frame place file hread hcomes hopened hsame
    hovershoot
  exact runsDocument_iff.1 (.elements hread (hcomes.selfReference hopened hsame hovershoot))

/-- An absolute path that goes up from the root has another normal form than the path without that
step, although both lead to the same place. Under a relative spelling, the dance that comes back to
itself from inside a loop of its steps is refused. -/
theorem root_alias_not_canonical :
    SameLocation ⟨"/../a.xml"⟩ ⟨"/a.xml"⟩ ∧
    (⟨"/../a.xml"⟩ : Path).normalize ≠ (⟨"/a.xml"⟩ : Path).normalize ∧
    ∃ s₁, (RingSample.project.compileSequence RingSample.main "main.xml" ⟨"p"⟩).runFrom {} =
      (.error (.malformed "b/s.xml" "sequence '.././main.xml' references itself"), s₁) := by
  have hsame : SameLocation ⟨"/../a.xml"⟩ ⟨"/a.xml"⟩ := sameLocation_iff.2 (by decide)
  have hovershoot : (⟨"/../a.xml"⟩ : Path).overshoot ≠ (⟨"/a.xml"⟩ : Path).overshoot := by decide
  refine ⟨hsame, fun h => hovershoot ((normal_forms_canonical_iff _ _).1.1 h).2, ?_⟩
  have hsteps : RingSample.project.Calls
      ⟨RingSample.frame, [.sequence ⟨0, none⟩ "b/s.xml"], {}⟩ _ :=
    @Calls.inside _ _ [] [] _ _ _ _ _ .nil rfl
      (.document RingSample.closed_steps RingSample.load_steps RingSample.read_steps)
  have hloop : ∀ s : Session, s.cancelled = false → RingSample.project.Calls
      ⟨RingSample.frame.entering "b/s.xml",
        [.counterLoop ⟨0, none⟩ 2 [.sequence ⟨0, none⟩ ".././main.xml"]], s⟩
      ⟨RingSample.frame.entering "b/s.xml", [.sequence ⟨0, none⟩ ".././main.xml"], s⟩ :=
    fun s hc => @Calls.inside _ _ [] [] _ s s _ _ .nil hc .children
  have hcomes := @ComesTo.intro RingSample.project _ _ [] [] (.sequence ⟨0, none⟩ ".././main.xml") _
    _ _ (.tail (.single hsteps) (hloop _ rfl)) .nil rfl
  have hpath : ((RingSample.frame.entering "b/s.xml").directory.join ".././main.xml").normalize =
      ((⟨"p"⟩ : Path).join "main.xml").normalize := by decide
  obtain ⟨hcanonical, hrefused⟩ := normal_forms_canonical_iff
    ((RingSample.frame.entering "b/s.xml").directory.join ".././main.xml")
    ((⟨"p"⟩ : Path).join "main.xml")
  obtain ⟨hdance, hequal⟩ := hcanonical.1 hpath
  exact ⟨_, hrefused _ _ _ _ _ _ _ _ _ _ RingSample.read_main hcomes (by decide) hdance hequal⟩

end Project

end RobotSketch
