import Mathlib
import RobotSketch.Proofs.Sketch.Machine

/-!
# Scaling percentages

A percentage stands for a point between two ends, and the point is a fraction. What a sensor is
compared with is the point without its fraction (`valueAtPercentage_eq`). Cutting off fractions goes
up from below zero and down from above, yet it never turns the order of two numbers round
(`towardZero_mono`). So a percentage never leads past an end, and more of it leads further,
whichever end is the greater one.

The thresholds of a sensor follow, and those of an inverted sensor are seen in a mirror. The main
statement is `thresholds_scale`.
-/
namespace RobotSketch

/-! ## Ranges -/

theorem clamp_mono (low high : Int) : Monotone (clamp low high) := by
  intro a b hab
  unfold clamp
  omega

theorem clamp_eq_self {low high value : Int} (hlow : low ≤ value) (hhigh : value ≤ high) :
    clamp low high value = value := by
  unfold clamp
  omega

theorem clamp_of_le {low high value : Int} (h : value ≤ low) : clamp low high value = low := by
  unfold clamp
  omega

theorem clamp_of_ge {low high value : Int} (h : low ≤ high) (hvalue : high ≤ value) :
    clamp low high value = high := by
  unfold clamp
  omega

/-! ## Fractions -/

/-- A number without its fraction. -/
def towardZero (q : ℚ) : ℤ := if 0 ≤ q then ⌊q⌋ else ⌈q⌉

theorem towardZero_intCast (n : ℤ) : towardZero n = n := by
  unfold towardZero
  split
  · exact Int.floor_intCast n
  · exact Int.ceil_intCast n

theorem towardZero_mono : Monotone towardZero := by
  intro a b hab
  unfold towardZero
  by_cases ha : 0 ≤ a
  · rw [if_pos ha, if_pos (ha.trans hab)]
    exact Int.floor_mono hab
  · rw [if_neg ha]
    by_cases hb : 0 ≤ b
    · -- zero lies between the two, and between what is left of them
      rw [if_pos hb]
      have hceil : ⌈a⌉ ≤ 0 := Int.ceil_le.2 (by simpa using le_of_not_ge ha)
      have hfloor : 0 ≤ ⌊b⌋ := Int.floor_nonneg.2 hb
      omega
    · rw [if_neg hb]
      exact Int.ceil_mono hab

/-- A quotient without its fraction is the one that is rounded toward zero. -/
theorem towardZero_div (n : ℤ) (d : ℕ) (hd : 0 < d) : towardZero (n / d) = n.tdiv d := by
  have hdq : (0 : ℚ) < d := by exact_mod_cast hd
  have hsign : (0 : ℚ) ≤ n / d ↔ 0 ≤ n := by
    rw [le_div_iff₀ hdq, zero_mul]
    exact_mod_cast Iff.rfl
  unfold towardZero
  by_cases hn : 0 ≤ n
  · rw [if_pos (hsign.2 hn), Rat.floor_intCast_div_natCast, Int.tdiv_eq_ediv_of_nonneg hn]
  · rw [if_neg (mt hsign.1 hn), Rat.ceil_intCast_div_natCast,
      ← Int.tdiv_eq_ediv_of_nonneg (by omega : 0 ≤ -n), Int.neg_tdiv, Int.neg_neg]

/-! ## Points between two ends -/

/-- The point so many hundredths of the way from `first` to `last`. Percentages outside 0 to 100
count as the nearer end. -/
def pointAt (percentage first last : Int) : ℚ :=
  first + (last - first) * (clamp 0 100 percentage : Int) / 100

section Points

variable {percentage first last : Int}

theorem pointAt_of_nonpos (h : percentage ≤ 0) : pointAt percentage first last = first := by
  rw [pointAt, clamp_of_le h]
  simp

theorem pointAt_of_hundred_le (h : 100 ≤ percentage) : pointAt percentage first last = last := by
  rw [pointAt, clamp_of_ge (by decide) h]
  push_cast
  ring

/-- What is left of the way is the same way from the other end. -/
theorem pointAt_swap (percentage first last : Int) :
    pointAt (100 - percentage) last first = pointAt percentage first last := by
  have hclamp : clamp 0 100 (100 - percentage) = 100 - clamp 0 100 percentage := by
    unfold clamp
    omega
  rw [pointAt, pointAt, hclamp]
  push_cast
  ring

theorem pointAt_mono (h : first ≤ last) : Monotone (pointAt · first last) := by
  intro p q hpq
  have hspan : (0 : ℚ) ≤ last - first := by
    rw [sub_nonneg]
    exact_mod_cast h
  have hclamp : ((clamp 0 100 p : Int) : ℚ) ≤ (clamp 0 100 q : Int) := by
    exact_mod_cast clamp_mono 0 100 hpq
  have hway := mul_le_mul_of_nonneg_left hclamp hspan
  simp only [pointAt]
  linarith

theorem pointAt_anti (h : last ≤ first) : Antitone (pointAt · first last) := by
  intro p q hpq
  simp only [← pointAt_swap _ first last]
  exact pointAt_mono h (by omega)

/-- A point without its fraction lies between the ends. -/
theorem towardZero_pointAt_mem (h : first ≤ last) (percentage : Int) :
    first ≤ towardZero (pointAt percentage first last) ∧
      towardZero (pointAt percentage first last) ≤ last := by
  have hmono : Monotone fun p => towardZero (pointAt p first last) :=
    towardZero_mono.comp (pointAt_mono h)
  constructor
  · have hfirst := hmono (min_le_left percentage 0)
    simpa [pointAt_of_nonpos, towardZero_intCast] using hfirst
  · have hlast := hmono (le_max_left percentage 100)
    simpa [pointAt_of_hundred_le, towardZero_intCast] using hlast

theorem towardZero_pointAt_between (percentage first last : Int) :
    min first last ≤ towardZero (pointAt percentage first last) ∧
      towardZero (pointAt percentage first last) ≤ max first last := by
  rcases le_total first last with h | h
  · rw [min_eq_left h, max_eq_right h]
    exact towardZero_pointAt_mem h percentage
  · rw [min_eq_right h, max_eq_left h, ← pointAt_swap]
    exact towardZero_pointAt_mem h (100 - percentage)

end Points

/-! ## Values at a percentage -/

/-- The value at a percentage is the point there without its fraction. Bringing it between the ends
changes nothing. -/
theorem valueAtPercentage_eq (percentage first last : Int) :
    valueAtPercentage percentage first last = towardZero (pointAt percentage first last) := by
  have hpoint : pointAt percentage first last =
      ((100 * first + (last - first) * clamp 0 100 percentage : Int) : ℚ) / (100 : ℕ) := by
    rw [pointAt]
    push_cast
    ring
  obtain ⟨hlow, hhigh⟩ := towardZero_pointAt_between percentage first last
  rw [hpoint, towardZero_div _ _ (by decide)] at hlow hhigh ⊢
  exact clamp_eq_self hlow hhigh

theorem valueAtPercentage_mono {first last : Int} (h : first ≤ last) :
    Monotone (valueAtPercentage · first last) := by
  simp only [valueAtPercentage_eq]
  exact towardZero_mono.comp (pointAt_mono h)

theorem valueAtPercentage_anti {first last : Int} (h : last ≤ first) :
    Antitone (valueAtPercentage · first last) := by
  simp only [valueAtPercentage_eq]
  exact towardZero_mono.comp_antitone (pointAt_anti h)

/-! ## Thresholds -/

theorem nativeReading_le {low high : UInt8} (h : low ≤ high) :
    nativeReading low ≤ nativeReading high := by
  have hraw : low.toNat ≤ high.toNat := UInt8.le_iff_toNat_le.1 h
  unfold nativeReading
  omega

namespace SensorProfile

variable {profile : SensorProfile} {branchIsIf : Bool}

theorem threshold_of_not_inverted (h : profile.inverted = false) (percentage : Int) :
    (profile.threshold percentage branchIsIf).value =
      valueAtPercentage percentage profile.nativeMin profile.nativeMax := by
  simp [threshold, h]

/-- The threshold of an inverted sensor is mirrored in the range of the sensor. -/
theorem threshold_of_inverted (h : profile.inverted = true) (percentage : Int) :
    (profile.threshold percentage branchIsIf).value =
      profile.nativeMax - valueAtPercentage percentage profile.nativeMin profile.nativeMax +
        profile.nativeMin := by
  simp [threshold, h]

variable (hrange : profile.rawMin ≤ profile.rawMax)
include hrange

/-- A threshold lies where the sensor reads. -/
theorem threshold_mem (percentage : Int) :
    profile.nativeMin ≤ (profile.threshold percentage branchIsIf).value ∧
      (profile.threshold percentage branchIsIf).value ≤ profile.nativeMax := by
  obtain ⟨hlow, hhigh⟩ := towardZero_pointAt_mem (nativeReading_le hrange) percentage
  rw [← valueAtPercentage_eq] at hlow hhigh
  cases hinverted : profile.inverted with
  | false =>
    rw [threshold_of_not_inverted hinverted]
    exact ⟨hlow, hhigh⟩
  | true =>
    rw [threshold_of_inverted hinverted]
    unfold nativeMin nativeMax
    omega

theorem threshold_mono (h : profile.inverted = false) :
    Monotone fun percentage => (profile.threshold percentage branchIsIf).value := by
  simp only [threshold_of_not_inverted h]
  exact valueAtPercentage_mono (nativeReading_le hrange)

theorem threshold_anti (h : profile.inverted = true) :
    Antitone fun percentage => (profile.threshold percentage branchIsIf).value := by
  intro p q hpq
  have hvalue := valueAtPercentage_mono (nativeReading_le hrange) hpq
  simp only [threshold_of_inverted h, nativeMin, nativeMax] at hvalue ⊢
  omega

omit hrange

/-- A reading passes the test of an inverted sensor if its mirror image passes the test that the
sensor would have upright. -/
theorem holds_threshold_of_inverted (h : profile.inverted = true) (percentage : Int) (slot : UInt8)
    (reading : Int) :
    Condition.holds ⟨slot, profile.threshold percentage branchIsIf⟩ reading =
      Condition.holds ⟨slot, { profile with inverted := false }.threshold percentage branchIsIf⟩
        (profile.nativeMax + profile.nativeMin - reading) := by
  have hmax : { profile with inverted := false }.nativeMax = profile.nativeMax := rfl
  have hmin : { profile with inverted := false }.nativeMin = profile.nativeMin := rfl
  cases branchIsIf with
  | true | false =>
    simp only [Condition.holds, threshold, h, hmax, hmin, if_true, Comparison.flipped,
      Bool.false_eq_true, if_false, decide_eq_decide]
    omega

end SensorProfile

/-- **Thresholds scale.** The value at a percentage is the exact point between the two ends without
its fraction. It lies between the ends before it is brought there, starts at the one end, stops at
the other and moves one way in between. A sensor whose raw range is in order has its thresholds in
its native range. They grow with the percentage, and those of an inverted sensor shrink: its test is
the upright one in a mirror. -/
theorem thresholds_scale :
    (∀ percentage first last : Int,
      valueAtPercentage percentage first last = towardZero (pointAt percentage first last) ∧
      min first last ≤ towardZero (pointAt percentage first last) ∧
      towardZero (pointAt percentage first last) ≤ max first last ∧
      (percentage ≤ 0 → valueAtPercentage percentage first last = first) ∧
      (100 ≤ percentage → valueAtPercentage percentage first last = last)) ∧
    (∀ first last : Int,
      (first ≤ last → Monotone (valueAtPercentage · first last)) ∧
      (last ≤ first → Antitone (valueAtPercentage · first last))) ∧
    ∀ (profile : SensorProfile) (branchIsIf : Bool), profile.rawMin ≤ profile.rawMax →
      (∀ percentage, profile.nativeMin ≤ (profile.threshold percentage branchIsIf).value ∧
        (profile.threshold percentage branchIsIf).value ≤ profile.nativeMax) ∧
      (profile.inverted = false →
        Monotone fun percentage => (profile.threshold percentage branchIsIf).value) ∧
      (profile.inverted = true →
        (Antitone fun percentage => (profile.threshold percentage branchIsIf).value) ∧
        ∀ percentage slot reading,
          Condition.holds ⟨slot, profile.threshold percentage branchIsIf⟩ reading =
            Condition.holds
              ⟨slot, { profile with inverted := false }.threshold percentage branchIsIf⟩
              (profile.nativeMax + profile.nativeMin - reading)) := by
  refine ⟨fun percentage first last => ?_, fun first last => ?_,
    fun profile branchIsIf hrange => ?_⟩
  · have hvalue := valueAtPercentage_eq percentage first last
    obtain ⟨hlow, hhigh⟩ := towardZero_pointAt_between percentage first last
    refine ⟨hvalue, hlow, hhigh, fun h => ?_, fun h => ?_⟩
    · rw [hvalue, pointAt_of_nonpos h, towardZero_intCast]
    · rw [hvalue, pointAt_of_hundred_le h, towardZero_intCast]
  · exact ⟨valueAtPercentage_mono, valueAtPercentage_anti⟩
  · exact ⟨SensorProfile.threshold_mem hrange, SensorProfile.threshold_mono hrange, fun h =>
      ⟨SensorProfile.threshold_anti hrange h, SensorProfile.holds_threshold_of_inverted h⟩⟩

/-- Half of the way from -5 to 2 is -1.5, and the fraction is cut off toward zero. A distance sensor
at 30 percent is compared with 684, and a reading of 700 is the mirror image of 322. -/
theorem distance_thresholds_scale :
    (valueAtPercentage 50 (-5) 2 = -1 ∧
      valueAtPercentage 50 (-5) 2 = towardZero (pointAt 50 (-5) 2)) ∧
    ((-7 : Int) ≤ 0 ∧ valueAtPercentage (-7) (-5) 2 = -5) ∧
    ((100 : Int) ≤ 400 ∧ valueAtPercentage 400 (-5) 2 = 2) ∧
    ((-5 : Int) ≤ 2 ∧ valueAtPercentage 40 (-5) 2 ≤ valueAtPercentage 50 (-5) 2 ∧
      valueAtPercentage 50 2 (-5) ≤ valueAtPercentage 40 2 (-5)) ∧
    ∃ light distance : SensorProfile,
      (SensorProfile.find? "light" = some light ∧ light.rawMin ≤ light.rawMax ∧
        light.inverted = false ∧
        (light.threshold 30 true).value ≤ (light.threshold 60 true).value) ∧
      SensorProfile.find? "distance" = some distance ∧ distance.rawMin ≤ distance.rawMax ∧
      distance.inverted = true ∧ distance.threshold 30 true = ⟨684, .greater⟩ ∧
      (distance.threshold 60 true).value ≤ (distance.threshold 30 true).value ∧
      Condition.holds ⟨1, ⟨684, .greater⟩⟩ 700 = Condition.holds ⟨1, ⟨338, .less⟩⟩ 322 := by
  obtain ⟨hvalues, hends, hsensors⟩ := thresholds_scale
  have hthreshold : SensorProfile.threshold ⟨"distance", ["infrared"], 20, 235, true⟩ 30 true =
      ⟨684, .greater⟩ := by decide
  have hupright : SensorProfile.threshold ⟨"distance", ["infrared"], 20, 235, false⟩ 30 true =
      ⟨338, .less⟩ := by decide
  have himage : SensorProfile.nativeMax ⟨"distance", ["infrared"], 20, 235, true⟩ +
      SensorProfile.nativeMin ⟨"distance", ["infrared"], 20, 235, true⟩ - 700 = 322 := by decide
  have hdistance := (hsensors ⟨"distance", ["infrared"], 20, 235, true⟩ true (by decide)).2.2 rfl
  have hmirror := hdistance.2 30 1 700
  have hlight := (hsensors ⟨"light", [], 0, 255, false⟩ true (by decide)).2.1 rfl
  rw [hthreshold, hupright, himage] at hmirror
  refine ⟨⟨by decide, (hvalues 50 (-5) 2).1⟩,
    ⟨by decide, (hvalues (-7) (-5) 2).2.2.2.1 (by decide)⟩,
    ⟨by decide, (hvalues 400 (-5) 2).2.2.2.2 (by decide)⟩,
    ⟨by decide, (hends (-5) 2).1 (by decide) (by decide), (hends 2 (-5)).2 (by decide) (by decide)⟩,
    ⟨"light", [], 0, 255, false⟩, ⟨"distance", ["infrared"], 20, 235, true⟩,
    ⟨by decide, by decide, rfl, hlight (by decide)⟩, by decide, by decide, rfl, hthreshold,
    hdistance.1 (by decide), hmirror⟩

end RobotSketch
