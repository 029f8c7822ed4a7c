import RobotSketch.Session

/-!
# Which defects come from where

A reader reports what is wrong with the document in front of it. That a saved sequence refers to
one that is open is no such defect (`Defect.OfDocument`), and the wording of such a defect never
reads like the one for a self reference (`Defect.OfDocument.message_ne`). So a run that reports a
self reference has met one.
-/
namespace RobotSketch

/-! ## Wording -/

namespace Defect

/-- The defect can be seen in a single document. -/
def OfDocument (defect : Defect) : Prop := ∀ file, defect ≠ .selfReference file

theorem getLast?_append_ne {ending : String} {c : Char}
    (h : ending.toList.getLast?.any (· != c) = true) (start : String) :
    (start ++ ending).toList.getLast? ≠ some c := by
  obtain ⟨d, hd, hne⟩ := (Option.any_eq_true _ _).1 h
  rw [String.toList_append, List.getLast?_append, hd, Option.some_or]
  simpa using hne

theorem head?_append_any {start : String} {p : Char → Bool}
    (h : start.toList.head?.any p = true) (ending : String) :
    (start ++ ending).toList.head?.any p = true := by
  obtain ⟨c, hc, hp⟩ := (Option.any_eq_true _ _).1 h
  rw [String.toList_append, List.head?_append, hc, Option.some_or]
  exact hp

/-- No complaint about a text is worded with the letter that a self reference starts with. -/
theorem head?_complaintMessage_any (place : String) (complaint : Xml.Complaint) :
    (complaint.message place).toList.head?.any (· != 's') = true := by
  cases complaint
  all_goals
    dsimp only [Xml.Complaint.message]
    repeat' with_reducible refine head?_append_any ?_ _
    decide +kernel

/-- Of the defects that are no fault of a text, a self reference is the only one whose wording ends
in the letter it ends in. -/
theorem OfDocument.getLast?_message_ne {defect : Defect} (h : defect.OfDocument)
    (hfault : ∀ fault, defect ≠ .notWellFormed fault) :
    defect.message.toList.getLast? ≠ some 'f' := by
  cases defect with
  | selfReference file => exact absurd rfl (h file)
  | notWellFormed fault => exact absurd rfl (hfault fault)
  | noIterations | noSensor | sensorOutOfRange => decide +kernel
  | _ => exact getLast?_append_ne (by decide +kernel) _

theorem toList_message_selfReference (file : String) :
    (Defect.selfReference file).message.toList =
      "sequence '".toList ++ (file.toList ++ "' references itself".toList) := by
  show ("sequence '" ++ file ++ "' references itself").toList = _
  rw [String.toList_append, String.toList_append, List.append_assoc]

theorem OfDocument.message_ne {defect : Defect} (h : defect.OfDocument) (file : String) :
    defect.message ≠ (Defect.selfReference file).message := by
  intro heq
  by_cases hfault : ∃ fault, defect = .notWellFormed fault
  · obtain ⟨fault, rfl⟩ := hfault
    have hstarts : fault.message.toList.head?.any (· != 's') = true :=
      head?_complaintMessage_any _ fault.complaint
    have hfirst : "sequence '".toList.head? = some 's' := by decide +kernel
    change fault.message = _ at heq
    rw [heq, toList_message_selfReference, List.head?_append, hfirst] at hstarts
    exact absurd hstarts (by simp)
  · have hlast : "' references itself".toList.getLast? = some 'f' := by decide +kernel
    have hends := h.getLast?_message_ne fun fault heq => hfault ⟨fault, heq⟩
    rw [heq, toList_message_selfReference, List.getLast?_append, List.getLast?_append, hlast] at hends
    exact hends rfl

/-- The wording of a self reference shows its file. -/
theorem message_selfReference_inj {file other : String}
    (h : (Defect.selfReference file).message = (Defect.selfReference other).message) :
    file = other := by
  have htext := congrArg String.toList h
  rw [toList_message_selfReference, toList_message_selfReference, List.append_cancel_left_eq,
    List.append_cancel_right_eq] at htext
  exact String.toList_inj.1 htext

end Defect

/-! ## Readers -/

/-- Every defect that a reader may report satisfies `P`. -/
def Reports {α : Type} (result : Except Defect α) (P : Defect → Prop) : Prop :=
  ∀ defect, result = .error defect → P defect

namespace Reports

variable {α β : Type} {P : Defect → Prop}

theorem ok (a : α) : Reports (.ok a) P := by
  intro defect h
  cases h

theorem error {defect : Defect} (h : P defect) : Reports (.error defect : Except Defect α) P := by
  intro other heq
  cases heq
  exact h

theorem bind {result : Except Defect α} {next : α → Except Defect β} (h : Reports result P)
    (hnext : ∀ a, Reports (next a) P) : Reports (result >>= next) P := by
  cases result with
  | error defect => exact error (h defect rfl)
  | ok a => exact hnext a

/-- What is reported of a list is reported of one of its members. -/
theorem mapM_of_mem {read : α → Except Defect β} {as : List α}
    (h : ∀ a ∈ as, Reports (read a) P) : Reports (as.mapM read) P := by
  induction as with
  | nil => exact ok _
  | cons a as ih =>
    rw [List.mapM_cons]
    refine (h a List.mem_cons_self).bind fun b => ?_
    exact (ih fun a ha => h a (List.mem_cons_of_mem _ ha)).bind fun bs => ok _

theorem mapM {read : α → Except Defect β} (h : ∀ a, Reports (read a) P) (as : List α) :
    Reports (as.mapM read) P :=
  mapM_of_mem fun a _ => h a

end Reports

namespace Node

open Defect

variable (node : Node) (key : String)

theorem reports_required : Reports (node.required key) OfDocument := by
  unfold required
  split
  · exact .ok _
  · exact .error (by simp [OfDocument])

theorem reports_number? {α : Type} (read : List Char → Option α) :
    Reports (number? read node key) OfDocument := by
  unfold number?
  split
  · exact .ok _
  · split
    · exact .ok _
    · exact .error (by simp [OfDocument])

theorem reports_number {α : Type} (read : List Char → Option α) :
    Reports (number read node key) OfDocument := by
  unfold number
  split
  · exact .ok _
  · exact .error (by simp [OfDocument])
  · rename_i defect hnumber
    exact .error (reports_number? node key read defect hnumber)

theorem reports_flag : Reports (node.flag key) OfDocument := by
  unfold flag
  split
  · exact .ok _
  · split
    · exact .ok _
    · exact .error (by simp [OfDocument])

end Node

open Defect

theorem Element.reports_readSensor (node : Node) : Reports (readSensor node) OfDocument := by
  unfold readSensor
  split
  · rename_i spec hspec
    refine (spec.reports_number? _ _).bind fun deviceId => ?_
    dsimp only
    split
    · exact .error (by simp [OfDocument])
    · refine (spec.reports_required _).bind fun sensor => ?_
      exact (spec.reports_number _ _).bind fun percentage => .ok _
  · exact .error (by simp [OfDocument])

/-- A branch of a conditional, and what follows it. -/
theorem Element.reports_branch {α : Type} {branch : Node} {next : Bool × List Element → Except Defect α}
    (hchildren : Reports (readList 0 branch.children) OfDocument)
    (hnext : ∀ part, Reports (next part) OfDocument) :
    Reports (do
      let repeats ← branch.flag "should-repeat"
      let children ← readList 0 branch.children
      let part ← pure (repeats, children)
      next part) OfDocument :=
  (branch.reports_flag _).bind fun _ => hchildren.bind fun _ => .bind (.ok _) hnext

theorem Element.reports_readList (position : Nat) (nodes : List Node) :
    Reports (readList position nodes) OfDocument := by
  match nodes with
  | [] =>
    rw [readList.eq_def]
    exact .ok _
  | node :: rest =>
    rw [readList.eq_def]
    dsimp only
    split
    · refine (node.reports_required _).bind fun file => ?_
      refine (node.reports_number? _ _).bind fun delay => ?_
      exact (reports_readList _ rest).bind fun elements => .ok _
    · refine (node.reports_required _).bind fun file => ?_
      exact (reports_readList _ rest).bind fun elements => .ok _
    · refine (node.reports_number _ _).bind fun iterations => ?_
      have := node.sizeOf_children_lt
      split
      · exact .error (by simp [OfDocument])
      · refine (reports_readList _ node.children).bind fun children => ?_
        exact (reports_readList _ rest).bind fun elements => .ok _
    · refine (reports_readSensor node).bind fun spec => ?_
      have hrest (element : Element) : Reports
          (do return element :: (← readList (position + 1) rest)) OfDocument :=
        (reports_readList _ rest).bind fun elements => .ok _
      split
      · refine .bind (.ok _) fun _ => ?_
        split
        · exact hrest _
        · rename_i branch hbranch
          have := Node.sizeOf_grandchildren_lt hbranch
          exact reports_branch (reports_readList 0 branch.children) fun _ => hrest _
      · rename_i branch hbranch
        have := Node.sizeOf_grandchildren_lt hbranch
        refine reports_branch (reports_readList 0 branch.children) fun _ => ?_
        split
        · exact hrest _
        · rename_i other hother
          have := Node.sizeOf_grandchildren_lt hother
          exact reports_branch (reports_readList 0 other.children) fun _ => hrest _
    · exact reports_readList position rest
termination_by sizeOf nodes
decreasing_by
  all_goals
    simp only [List.cons.sizeOf_spec]
    omega

/-- A sequence document has defects of its own only. -/
theorem reports_readSequence (node : Node) : Reports (readSequence node) OfDocument := by
  unfold readSequence
  split
  · exact Element.reports_readList 0 node.children
  · exact .error (by simp [OfDocument])

namespace DeviceCommand

theorem reports_integerValue (raw : String) : Reports (integerValue raw) OfDocument := by
  unfold integerValue
  split
  · exact .ok _
  · exact .error (by simp [OfDocument])

variable (command : DeviceCommand)

theorem reports_valueStarting (start : String) :
    Reports (command.valueStarting start) OfDocument := by
  unfold valueStarting
  split
  · exact reports_integerValue _
  · exact .error (by simp [OfDocument])

theorem reports_firstValue : Reports command.firstValue OfDocument := by
  unfold firstValue
  split
  · exact reports_integerValue _
  · exact .error (by simp [OfDocument])

theorem reports_values (service : Service) : Reports (command.values service) OfDocument := by
  unfold values
  split
  · refine (command.reports_valueStarting _).bind fun red => ?_
    refine (command.reports_valueStarting _).bind fun green => ?_
    exact (command.reports_valueStarting _).bind fun blue => .ok _
  · exact command.reports_firstValue.bind fun value => .ok _

theorem reports_render : Reports command.render OfDocument := by
  unfold render
  split
  · exact .ok _
  · rename_i service hservice
    dsimp only
    split
    · exact .error (by simp [OfDocument])
    · exact (command.reports_values service).bind fun values => .ok _

end DeviceCommand

namespace Expression

theorem reports_readDevice (serviceType operation : String) (device : Node) :
    Reports (readDevice serviceType operation device) OfDocument := by
  have hparameter (parameter : Node) : Reports (readParameter parameter) OfDocument :=
    (parameter.reports_required _).bind fun name => .ok _
  refine (Reports.mapM hparameter _).bind fun parameters => ?_
  exact (device.reports_number _ _).bind fun deviceId => .ok _

theorem reports_readService (service : Node) : Reports (readService service) OfDocument := by
  refine (service.reports_required _).bind fun serviceType => ?_
  refine .bind (.mapM (fun operation => ?_) _) fun commands => .ok _
  exact (operation.reports_required _).bind fun name =>
    .mapM (reports_readDevice serviceType name) _

theorem reports_read (root : Node) : Reports (read root) OfDocument := by
  unfold read
  dsimp only
  split
  · exact .error (by simp [OfDocument])
  · refine (Reports.mapM reports_readService _).bind fun commands => ?_
    exact (root.reports_number? _ _).bind fun delay => .ok _

/-- An expression document has defects of its own only, also when its body is made. -/
theorem reports_body (root : Node) : Reports ((read root).bind (·.body)) OfDocument :=
  (reports_read root).bind fun expression =>
    (Reports.mapM (·.reports_render) expression.commands).bind fun _ => .ok _

end Expression

end RobotSketch
