import RobotSketch.Proofs.Sketch.Machine

/-!
# Which branch a reading chooses

The two tests of a conditional compare a reading with one and the same value, the one from below and
the other from above. Off that value exactly one of them passes. A reading on it passes neither, so
there the shapes part: those that ask the first test go to the else-branch, and the one that asks
the second goes to the if-branch. The main statement is `tests_complementary_iff`.
-/
namespace RobotSketch

/-! ## The two thresholds of a sensor -/

namespace SensorProfile

variable (profile : SensorProfile) (percentage : Int)

/-- Both branches are divided at the same value, mirrored or not. -/
theorem value_threshold_else :
    (profile.threshold percentage false).value = (profile.threshold percentage true).value := by
  cases hinverted : profile.inverted <;> simp [threshold, hinverted]

/-- The else-branch has the opposite comparison, flipped or not. -/
theorem comparison_threshold_else :
    (profile.threshold percentage false).comparison =
      (profile.threshold percentage true).comparison.flipped := by
  cases hinverted : profile.inverted <;> simp [threshold, hinverted, Comparison.flipped]

end SensorProfile

/-- Opposite comparisons with one value are complementary exactly off that value. -/
theorem Condition.holds_eq_not_iff {ifTest elseTest : Condition}
    (hvalue : elseTest.threshold.value = ifTest.threshold.value)
    (hcomparison : elseTest.threshold.comparison = ifTest.threshold.comparison.flipped)
    (reading : Int) :
    (ifTest.holds reading = !elseTest.holds reading) ↔ reading ≠ ifTest.threshold.value := by
  unfold Condition.holds
  rw [hvalue, hcomparison]
  cases ifTest.threshold.comparison with
  | less =>
    simp only [Comparison.flipped, ← decide_not, decide_eq_decide]
    omega
  | greater =>
    simp only [Comparison.flipped, ← decide_not, decide_eq_decide]
    omega

/-- Both comparisons are strict. -/
theorem Condition.not_holds_value (test : Condition) : test.holds test.threshold.value = false := by
  unfold Condition.holds
  cases test.threshold.comparison <;> simp

/-- A sensor that is known has a threshold for either branch. -/
theorem sensorThreshold_of_find? {sensor : String} {profile : SensorProfile}
    (h : SensorProfile.find? sensor = some profile) (percentage : Int) (branchIsIf : Bool) :
    sensorThreshold sensor percentage branchIsIf =
      .ok (profile.threshold percentage branchIsIf) := by
  rw [sensorThreshold, h]

theorem SensorSpec.conditions_of_find? {sensor : String} {profile : SensorProfile}
    (h : SensorProfile.find? sensor = some profile) (slot : UInt8) (percent : Percent) :
    conditions ⟨sensor, slot, percent⟩ = .ok (⟨slot, profile.threshold percent.value true⟩,
      ⟨slot, profile.threshold percent.value false⟩) := by
  rw [conditions, sensorThreshold_of_find? h, sensorThreshold_of_find? h]
  rfl

/-! ## The branch that a shape enters -/

namespace LoopShape

/-- Whether a conditional enters its if-branch on a reading. The if-test decides, unless only the
else-branch repeats: then the else-test does. -/
def entersIf (shape : LoopShape) (ifTest elseTest : Condition) (reading : Int) : Bool :=
  match shape with
  | .whileElseThenIf => !elseTest.holds reading
  | .ifElse | .whileIfThenElse | .foreverIfElse => ifTest.holds reading

open Sketch

variable {functions : List Function} {readings : Nat → UInt8 → Int} {taken : Nat}

theorem reaches_branch (test : Condition) (yes no rest : List (Statement Condition Step)) :
    Reaches functions readings (.branch test yes no :: rest) taken []
      ((if test.holds (readings taken test.slot) then yes else no) ++ rest) (taken + 1) := by
  split
  case isTrue h => exact reaches_branch_of_holds yes no h
  case isFalse h => exact reaches_branch_of_not_holds yes no (Bool.eq_false_iff.2 h)

/-- A loop is either entered or left for what stands behind it. -/
theorem reaches_loopWhile (test : Condition) (body next rest : List (Statement Condition Step)) :
    ∃ after, Reaches functions readings (.loopWhile test body :: (next ++ rest)) taken []
      ((if test.holds (readings taken test.slot) then body else next) ++ after) (taken + 1) := by
  split
  case isTrue h => exact ⟨_, reaches_loopWhile_of_holds body h⟩
  case isFalse h => exact ⟨rest, reaches_loopWhile_of_not_holds body (Bool.eq_false_iff.2 h)⟩

/-- A conditional takes one reading, emits nothing, and is then at the branch it enters. -/
theorem reaches_arrange (shape : LoopShape) (ifTest elseTest : Condition)
    (hslot : elseTest.slot = ifTest.slot) (ifBody elseBody rest : List (Statement Condition Step)) :
    ∃ after, Reaches functions readings
      (shape.arrange ifTest elseTest ifBody elseBody ++ rest) taken []
      ((if shape.entersIf ifTest elseTest (readings taken ifTest.slot) then ifBody else elseBody) ++
        after) (taken + 1) := by
  cases shape with
  | ifElse => exact ⟨rest, reaches_branch ifTest ifBody elseBody rest⟩
  | whileElseThenIf =>
    rw [← hslot]
    simp only [entersIf, Bool.not_eq_true', ← Bool.not_eq_true, ite_not]
    exact reaches_loopWhile elseTest elseBody ifBody rest
  | whileIfThenElse => exact reaches_loopWhile ifTest ifBody elseBody rest
  | foreverIfElse =>
    -- entering the endless loop takes no reading
    exact ⟨_, (reaches_forever _).trans (reaches_branch ifTest ifBody elseBody _)⟩

end LoopShape

/-! ## Off the threshold -/

/-- For every sensor that is known, a reading passes exactly one of the two tests if and only if it
is not the threshold itself, which passes neither. The tests are those of the conditional, whatever
its shape, and the shapes that ask the if-test enter the same branch as the one that asks the else-test if and only if
the reading is not the threshold. -/
theorem tests_complementary_iff {sensor : String} {profile : SensorProfile}
    (hknown : SensorProfile.find? sensor = some profile) (slot : UInt8) (reading : Int) :
    (∀ percentage : Int, ∃ ifThreshold elseThreshold,
      sensorThreshold sensor percentage true = .ok ifThreshold ∧
      sensorThreshold sensor percentage false = .ok elseThreshold ∧
      ((Condition.holds ⟨slot, ifThreshold⟩ reading =
          !Condition.holds ⟨slot, elseThreshold⟩ reading) ↔
        reading ≠ ifThreshold.value) ∧
      (reading = ifThreshold.value → Condition.holds ⟨slot, ifThreshold⟩ reading = false ∧
        Condition.holds ⟨slot, elseThreshold⟩ reading = false)) ∧
    ∀ percent : Percent, ∃ ifTest elseTest,
      SensorSpec.conditions ⟨sensor, slot, percent⟩ = .ok (ifTest, elseTest) ∧
      (∀ (shape : LoopShape) (ifBody elseBody rest : List (Statement Condition Sketch.Step))
        (functions : List Sketch.Function) (readings : Nat → UInt8 → Int) (taken : Nat),
        readings taken slot = reading →
        ∃ after, Sketch.Reaches functions readings
          (shape.arrange ifTest elseTest ifBody elseBody ++ rest) taken []
          ((if shape.entersIf ifTest elseTest reading then ifBody else elseBody) ++ after)
          (taken + 1)) ∧
      ∀ shape : LoopShape, shape = .ifElse ∨ shape = .foreverIfElse →
        (shape.entersIf ifTest elseTest reading =
            LoopShape.whileElseThenIf.entersIf ifTest elseTest reading ↔
          reading ≠ ifTest.threshold.value) := by
  have hiff : ∀ percentage, (Condition.holds ⟨slot, profile.threshold percentage true⟩ reading =
      !Condition.holds ⟨slot, profile.threshold percentage false⟩ reading) ↔
        reading ≠ (profile.threshold percentage true).value := fun percentage =>
    Condition.holds_eq_not_iff (profile.value_threshold_else percentage)
      (profile.comparison_threshold_else percentage) reading
  refine ⟨fun percentage => ?_, fun percent => ?_⟩
  · refine ⟨_, _, sensorThreshold_of_find? hknown percentage true,
      sensorThreshold_of_find? hknown percentage false, hiff percentage, ?_⟩
    rintro rfl
    refine ⟨Condition.not_holds_value ⟨slot, _⟩, ?_⟩
    rw [← profile.value_threshold_else]
    exact Condition.not_holds_value ⟨slot, _⟩
  · refine ⟨_, _, SensorSpec.conditions_of_find? hknown slot percent, ?_, ?_⟩
    · intro shape ifBody elseBody rest functions readings taken hreading
      rw [← hreading]
      exact shape.reaches_arrange _ _ (by rfl) ifBody elseBody rest
    · rintro shape (rfl | rfl)
      · exact hiff percent.value
      · exact hiff percent.value

/-- Half of the range of a light sensor is 511, and a reading of 512 passes exactly one test. -/
theorem light_above_half_passes_one :
    SensorProfile.find? "light" = some ⟨"light", [], 0, 255, false⟩ ∧
    ∃ ifTest elseTest,
      SensorSpec.conditions ⟨"light", 2, ⟨50, by decide⟩⟩ = .ok (ifTest, elseTest) ∧
      LoopShape.ifElse.entersIf ifTest elseTest 512 =
        LoopShape.whileElseThenIf.entersIf ifTest elseTest 512 := by
  have hlight : SensorProfile.find? "light" = some ⟨"light", [], 0, 255, false⟩ := by decide
  obtain ⟨-, hspec⟩ := tests_complementary_iff hlight 2 512
  obtain ⟨ifTest, elseTest, hconditions, -, hshapes⟩ := hspec ⟨50, by decide⟩
  have hne : (512 : Int) ≠ ifTest.threshold.value := by
    rw [SensorSpec.conditions_of_find? hlight] at hconditions
    obtain ⟨rfl, -⟩ := Prod.mk.inj (Except.ok.inj hconditions)
    decide
  exact ⟨hlight, ifTest, elseTest, hconditions, (hshapes .ifElse (.inl rfl)).2 hne⟩

/-- A reading of 511 passes neither test, and the shapes go to different branches on it. -/
theorem light_at_half_passes_neither :
    SensorSpec.conditions ⟨"light", 2, ⟨50, by decide⟩⟩ =
      .ok (⟨2, ⟨511, .less⟩⟩, ⟨2, ⟨511, .greater⟩⟩) ∧
    Condition.holds ⟨2, ⟨511, .less⟩⟩ 511 = false ∧
    Condition.holds ⟨2, ⟨511, .greater⟩⟩ 511 = false ∧
    LoopShape.ifElse.entersIf ⟨2, ⟨511, .less⟩⟩ ⟨2, ⟨511, .greater⟩⟩ 511 ≠
      LoopShape.whileElseThenIf.entersIf ⟨2, ⟨511, .less⟩⟩ ⟨2, ⟨511, .greater⟩⟩ 511 := by
  have hlight : SensorProfile.find? "light" = some ⟨"light", [], 0, 255, false⟩ := by decide
  have hless : SensorProfile.threshold ⟨"light", [], 0, 255, false⟩ (50 : Nat) true =
      ⟨511, .less⟩ := by decide
  have hgreater : SensorProfile.threshold ⟨"light", [], 0, 255, false⟩ (50 : Nat) false =
      ⟨511, .greater⟩ := by decide
  have htests := SensorSpec.conditions_of_find? hlight 2 ⟨50, by decide⟩
  simp only [hless, hgreater] at htests
  exact ⟨htests, by decide, by decide, by decide⟩

end RobotSketch
