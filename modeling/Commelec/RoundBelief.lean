/-
Commelec/RoundBelief.lean

What a discrete device with equal steps believes.

The belief function sends `(P, Q)` to a single point `(s, Q)`.  Three cases are tried in order:
up to `Pmin + error` the value `s` is `Pmin`, from `Pmax + error` on it is `Pmax`, and else it
is `P - error`, rounded to the grid of all `Pmin + k * stepSize`.  The message rounds to
multiples of `stepSize` and adds the remainder of `Pmin`, whose sign is the one of `Pmin`.

* `gridPoint` — the point of the grid that the last case evaluates to: it is on the grid
  (`exists_gridPoint`) and at most half a step away (`abs_gridPoint_sub_le`);
* `gridPoint_le_iff` — where it is at most `Pmax`: the last step of the grid may be cut off by
  `Pmax`, and what is beyond its middle is rounded up;
* `uniform_hull` — the rectangular hull of the advertised belief is that value;
* `uniform_rounds_to_grid`, `uniform_in_range_iff` — so the value is on the grid, and it is in
  the advertised range unless the last step is cut off there.
-/
import Commelec.DiscreteBelief

namespace Commelec

open Effectful Outcome

/-! ### Rounding -/

section Rounding

variable (x y : ℝ)

/-- Rounding returns an integer. -/
theorem exists_roundHalfAway : ∃ k : ℤ, roundHalfAway x = k := by
  rw [roundHalfAway]
  split
  · exact ⟨_, rfl⟩
  · exact ⟨-⌊-x + 1 / 2⌋, by push_cast; rfl⟩

/-- It moves a number by at most one half. -/
theorem abs_roundHalfAway_sub_le : |roundHalfAway x - x| ≤ 1 / 2 := by
  rw [roundHalfAway, abs_le]
  split
  · have hle := Int.floor_le (x + 1 / 2)
    have hlt := Int.lt_floor_add_one (x + 1 / 2)
    constructor
    · linarith
    · linarith
  · have hle := Int.floor_le (-x + 1 / 2)
    have hlt := Int.lt_floor_add_one (-x + 1 / 2)
    constructor
    · linarith
    · linarith

/-- What is rounded to at most `n`: halves are rounded down below zero only. -/
theorem roundHalfAway_le_iff (n : ℤ) :
    roundHalfAway x ≤ n ↔ x < n + 1 / 2 ∨ (x = n + 1 / 2 ∧ x < 0) := by
  rw [roundHalfAway]
  split
  · next hx =>
    have hfloor : ⌊x + 1 / 2⌋ ≤ n ↔ x + 1 / 2 < n + 1 := by
      rw [← Int.lt_add_one_iff, Int.floor_lt]
      push_cast
      rfl
    rw [Int.cast_le, hfloor]
    constructor
    · intro h
      exact Or.inl (by linarith)
    · rintro (h | ⟨-, h⟩)
      · linarith
      · exact absurd hx (not_le.mpr h)
  · next hx =>
    have hfloor : -n ≤ ⌊-x + 1 / 2⌋ ↔ ((-n : ℤ) : ℝ) ≤ -x + 1 / 2 := Int.le_floor
    have hneg : -(⌊-x + 1 / 2⌋ : ℝ) ≤ n ↔ -n ≤ ⌊-x + 1 / 2⌋ := by
      rw [neg_le, ← Int.cast_neg, Int.cast_le]
    rw [hneg, hfloor]
    push_cast
    constructor
    · intro h
      rcases lt_or_eq_of_le (show x ≤ n + 1 / 2 by linarith) with h | h
      · exact Or.inl h
      · exact Or.inr ⟨h, not_le.mp hx⟩
    · rintro (h | ⟨h, -⟩)
      · linarith
      · linarith

/-- An integer is rounded to itself, and rounding keeps the order. -/
theorem le_roundHalfAway {n : ℤ} (h : (n : ℝ) ≤ x) : (n : ℝ) ≤ roundHalfAway x := by
  obtain ⟨k, hk⟩ := exists_roundHalfAway x
  have hnear := abs_roundHalfAway_sub_le x
  rw [hk, abs_le] at hnear
  rw [hk, Int.cast_le]
  have hlt : (n : ℝ) < k + 1 := by linarith
  exact Int.lt_add_one_iff.mp (by exact_mod_cast hlt)

/-- The remainder differs from the dividend by a multiple of the divisor. -/
theorem exists_truncatedRemainder : ∃ k : ℤ, truncatedRemainder x y = x - y * k := by
  rw [truncatedRemainder]
  split
  · exact ⟨_, rfl⟩
  · exact ⟨_, rfl⟩

end Rounding

/-! ### The grid -/

/-- `x`, rounded to the grid. -/
noncomputable def gridPoint (Pmin stepSize x : ℝ) : ℝ :=
  stepSize * roundHalfAway ((x - truncatedRemainder Pmin stepSize) / stepSize)
    + truncatedRemainder Pmin stepSize

/-- The middle of the first step that ends above `Pmax`. -/
noncomputable def lastMiddle (Pmin Pmax stepSize : ℝ) : ℝ :=
  Pmin + (⌊(Pmax - Pmin) / stepSize⌋ + 1 / 2) * stepSize

section Grid

variable {Pmin Pmax stepSize x : ℝ}

/-- A rounded number is on the grid. -/
theorem exists_gridPoint : ∃ k : ℤ, gridPoint Pmin stepSize x = Pmin + k * stepSize := by
  obtain ⟨j, hj⟩ := exists_truncatedRemainder Pmin stepSize
  obtain ⟨i, hi⟩ := exists_roundHalfAway ((x - truncatedRemainder Pmin stepSize) / stepSize)
  refine ⟨i - j, ?_⟩
  rw [gridPoint, hi, hj]
  push_cast
  ring

/-- It is at most half a step away. -/
theorem abs_gridPoint_sub_le (hstep : 0 < stepSize) :
    |gridPoint Pmin stepSize x - x| ≤ stepSize / 2 := by
  have hnear := abs_roundHalfAway_sub_le ((x - truncatedRemainder Pmin stepSize) / stepSize)
  have hscale : gridPoint Pmin stepSize x - x = stepSize *
      (roundHalfAway ((x - truncatedRemainder Pmin stepSize) / stepSize)
        - (x - truncatedRemainder Pmin stepSize) / stepSize) := by
    rw [gridPoint, mul_sub, mul_div_cancel₀ _ hstep.ne']
    ring
  rw [hscale, abs_mul, abs_of_pos hstep]
  calc stepSize * _ ≤ stepSize * (1 / 2) := mul_le_mul_of_nonneg_left hnear hstep.le
    _ = stepSize / 2 := by ring

/-- What is above `Pmin` is not rounded below it. -/
theorem le_gridPoint (hstep : 0 < stepSize) (hx : Pmin ≤ x) : Pmin ≤ gridPoint Pmin stepSize x := by
  obtain ⟨j, hj⟩ := exists_truncatedRemainder Pmin stepSize
  have hj' : (j : ℝ) ≤ (x - truncatedRemainder Pmin stepSize) / stepSize := by
    rw [le_div_iff₀ hstep, hj]
    linarith
  have hround := mul_le_mul_of_nonneg_left (le_roundHalfAway _ hj') hstep.le
  rw [gridPoint]
  linarith

/-- The first step that ends above `Pmax` has its middle above `Pmin`. -/
theorem lt_lastMiddle (hle : Pmin ≤ Pmax) (hstep : 0 < stepSize) :
    Pmin < lastMiddle Pmin Pmax stepSize := by
  have hsteps : (0 : ℝ) ≤ ⌊(Pmax - Pmin) / stepSize⌋ := by
    apply Int.cast_nonneg
    apply Int.floor_nonneg.mpr
    exact div_nonneg (sub_nonneg.mpr hle) hstep.le
  rw [lastMiddle, lt_add_iff_pos_right]
  positivity

/-- **Where the rounded number is at most `Pmax`.** -/
theorem gridPoint_le_iff (hstep : 0 < stepSize) :
    gridPoint Pmin stepSize x ≤ Pmax ↔ x < lastMiddle Pmin Pmax stepSize ∨
      (x = lastMiddle Pmin Pmax stepSize ∧
        lastMiddle Pmin Pmax stepSize < truncatedRemainder Pmin stepSize) := by
  obtain ⟨j, hj⟩ := exists_truncatedRemainder Pmin stepSize
  obtain ⟨i, hi⟩ := exists_roundHalfAway ((x - truncatedRemainder Pmin stepSize) / stepSize)
  let K := ⌊(Pmax - Pmin) / stepSize⌋
  -- the point is at most `Pmax` if it is at most the last one on the grid, number `j + K`
  have hlast : gridPoint Pmin stepSize x ≤ Pmax
      ↔ roundHalfAway ((x - truncatedRemainder Pmin stepSize) / stepSize) ≤ (j + K : ℤ) := by
    rw [gridPoint, hi, Int.cast_le, ← sub_le_iff_le_add', Int.le_floor, le_div_iff₀ hstep, hj]
    push_cast
    constructor
    · intro h
      linarith
    · intro h
      linarith
  have hmiddle : lastMiddle Pmin Pmax stepSize
      = (((j + K : ℤ) : ℝ) + 1 / 2) * stepSize + truncatedRemainder Pmin stepSize := by
    rw [lastMiddle, hj]
    push_cast
    ring
  rw [hlast, roundHalfAway_le_iff, div_lt_iff₀ hstep, div_eq_iff hstep.ne', sub_lt_iff_lt_add,
    sub_eq_iff_eq_add, ← hmiddle, div_lt_iff₀ hstep, zero_mul, sub_neg]
  constructor
  · rintro (h | ⟨h, hneg⟩)
    · exact Or.inl h
    · exact Or.inr ⟨h, h ▸ hneg⟩
  · rintro (h | ⟨h, hneg⟩)
    · exact Or.inl h
    · exact Or.inr ⟨h, h ▸ hneg⟩

end Grid

/-! ### The message -/

/-- The message for `step * round((P - err - corr) / step) + corr`. -/
def gridExpr (step err corr : EReal) : RealExpr EReal :=
  .binaryOperation none .sum
    (.binaryOperation none .prod (.real none step)
      (.unaryOperation none .round
        (.binaryOperation none .prod
          (.binaryOperation none .sum
            (.binaryOperation none .sum (.var none "P") (.unaryOperation none .negate
              (.real none err)))
            (.unaryOperation none .negate (.real none corr)))
          (.unaryOperation none .multInv (.real none step)))))
    (.real none corr)

/-- The cases of the belief. -/
noncomputable def gridCases (Pmin Pmax stepSize error : ℝ) :
    List (SetExpr EReal × RealExpr EReal) :=
  [addCase Pmin (-⊤) ((Pmin : EReal) + error), addCase Pmax ((Pmax : EReal) + error) ⊤,
    (.rectangle none [(.real none (-⊤), .real none ⊤)],
      gridExpr stepSize error (Double.fmod Pmin stepSize))]

theorem roundingCases_eq (Pmin Pmax stepSize error : ℝ) :
    (roundingCases ⊤ stepSize error Pmin Pmax : Outcome Err (List (SetExpr EReal × RealExpr EReal)))
      = ok (gridCases Pmin Pmax stepSize error) := rfl

theorem round_coe (x : ℝ) : (Double.round (x : EReal)) = ((roundHalfAway x : ℝ) : EReal) :=
  extend_coe roundHalfAway ⊥ ⊤ x

section Values

variable {boundVars : ValueMap EReal} {realExprRefs : RealExprRefMap EReal} {fuel : ℕ}
  {Pmin Pmax stepSize error P : ℝ}

/-- The value of the last case. -/
theorem metered_gridExpr (hP : boundVars "P" = some (P : EReal)) :
    Metered 15 ((gridPoint Pmin stepSize (P - error) : ℝ) : EReal)
      ((calls (methods boundVars realExprRefs) (fuel + 8)).eval
        (gridExpr stepSize error (Double.fmod Pmin stepSize))) := by
  have hsum : binaryFun .sum = some fun x y : EReal => x + y := rfl
  have hprod : binaryFun .prod = some fun x y : EReal => x * y := rfl
  have hround : unaryFun .round = some (Double.round : EReal → EReal) := rfl
  have hneg : unaryFun .negate = some fun x : EReal => -x := rfl
  have hinv : unaryFun .multInv = some fun x : EReal => 1 / x := rfl
  let corr := truncatedRemainder Pmin stepSize
  have hvalue : ((gridPoint Pmin stepSize (P - error) : ℝ) : EReal)
      = (stepSize : EReal) * Double.round (((P : EReal) + -error + -corr) * (1 / stepSize))
        + corr := by
    have harg : ((P : EReal) + -error + -corr) * (1 / stepSize)
        = (((P - error - corr) / stepSize : ℝ) : EReal) := by
      rw [div_eq_mul_one_div (P - error - corr), EReal.coe_mul, EReal.coe_div, EReal.coe_sub,
        EReal.coe_sub, EReal.coe_one, sub_eq_add_neg, sub_eq_add_neg]
    rw [harg, round_coe, gridPoint, EReal.coe_add, EReal.coe_mul]
  rw [hvalue]
  show Metered (1 + ((1 + (1 + (1 + (1 + ((1 + ((1 + (1 + (1 + 1))) + (1 + 1)))
    + (1 + 1)))))) + 1)) _ _
  refine metered_binary hsum (metered_binary hprod (metered_real _) ?_) (metered_real _)
  refine metered_unary hround (metered_binary hprod ?_ (metered_unary hinv (metered_real _)))
  refine metered_binary hsum ?_ (metered_unary hneg (metered_real _))
  exact metered_binary hsum (metered_var hP) (metered_unary hneg (metered_real _))

/-- The case distinction, for the value that the three cases select. -/
noncomputable def roundedPower (Pmin Pmax stepSize error P : ℝ) : ℝ :=
  if P ≤ Pmin + error then Pmin
  else if Pmax + error ≤ P then Pmax
  else gridPoint Pmin stepSize (P - error)

theorem spends_gridCases (hP : boundVars "P" = some (P : EReal)) :
    SpendsUpTo 24 ((roundedPower Pmin Pmax stepSize error P : ℝ) : EReal)
      (firstCase ((gridCases Pmin Pmax stepSize error).map fun c =>
        ((calls (methods boundVars realExprRefs) (fuel + 8)).membership c.1 [(P : EReal)],
          (calls (methods boundVars realExprRefs) (fuel + 8)).eval c.2))) := by
  have hvalue : ∀ x : EReal, SpendsUpTo 1 x
      ((calls (methods boundVars realExprRefs) (fuel + 8)).eval (.real none x)) :=
    fun x => .of_spends (.of_metered (metered_real x)) le_rfl
  have hgrid : SpendsUpTo 15 ((gridPoint Pmin stepSize (P - error) : ℝ) : EReal)
      ((calls (methods boundVars realExprRefs) (fuel + 8)).eval
        (gridExpr stepSize error (Double.fmod Pmin stepSize))) :=
    .of_spends (.of_metered (metered_gridExpr hP)) le_rfl
  have hlow := spends_interval boundVars realExprRefs (fuel + 6) ((Pmin : EReal) + error) P
  have hhigh := spends_fromBound boundVars realExprRefs (fuel + 6) ((Pmax : EReal) + error) P
  have helse := spends_interval boundVars realExprRefs (fuel + 6) ⊤ P
  rw [decide_eq_true le_top] at helse
  have hlow_iff : (P : EReal) ≤ (Pmin : EReal) + error ↔ P ≤ Pmin + error := by
    rw [← EReal.coe_add, EReal.coe_le_coe_iff]
  have hhigh_iff : (Pmax : EReal) + error ≤ P ↔ Pmax + error ≤ P := by
    rw [← EReal.coe_add, EReal.coe_le_coe_iff]
  rw [roundedPower]
  split
  · next h =>
    rw [decide_eq_true (hlow_iff.mpr h)] at hlow
    exact (SpendsUpTo.bind (.of_spends hlow le_rfl) (hvalue Pmin)).mono (by norm_num)
  · next h =>
    rw [decide_eq_false fun h' => h (hlow_iff.mp h')] at hlow
    refine SpendsUpTo.bind (N := 3) (K := 21) (.of_spends hlow le_rfl) ?_
    split
    · next h' =>
      rw [decide_eq_true (hhigh_iff.mpr h')] at hhigh
      exact (SpendsUpTo.bind (.of_spends hhigh le_rfl) (hvalue Pmax)).mono (by norm_num)
    · next h' =>
      -- neither of the boundaries
      rw [decide_eq_false fun h'' => h' (hhigh_iff.mp h'')] at hhigh
      refine SpendsUpTo.bind (N := 3) (K := 18) (.of_spends hhigh le_rfl) ?_
      refine SpendsUpTo.bind (N := 3) (K := 15) (.of_spends helse le_rfl) ?_
      exact hgrid

end Values

/-! ### The advertisement -/

section Advertisement

variable (Pmin Pmax stepSize error alpha beta Pimp Qimp : ℝ)

/-- The advertisement of a device with equal steps; it can be collected. -/
theorem uniformDevice_built : ∃ built : Advertisement EReal,
    (uniformRealDiscreteDeviceAdvertisement ⊤ Pmin Pmax stepSize error alpha beta Pimp Qimp
      : Outcome Err (Advertisement EReal)) = ok built ∧ built.Collectable ∧
    built.beliefFunction = some (.singleton none
      [.caseDistinction none ["P"] (gridCases Pmin Pmax stepSize error), .var none "Q"]) := by
  obtain ⟨cf, hcf, hnodes⟩ := normalizedCost_ok (beta : EReal) alpha
  refine ⟨⟨some (.rectangle none
      [(.real none Pmin, .real none Pmax), (.real none 0, .real none 0)]), some _, some cf,
    [(Pimp : EReal), Qimp]⟩, ?_, ⟨?_, ?_, ?_⟩, rfl⟩
  · rw [uniformRealDiscreteDeviceAdvertisement, makeAdvertisement, RoundBelief.makeBelief,
      roundingCases_eq, ok_bind, pure_eq, ok_bind, hcf, ok_bind]
    rfl
  · show 5 ≤ 10000
    norm_num
  · show 29 ≤ 10000
    norm_num
  · show cf.nodes.length ≤ 10000
    omega

/-- The advertisement is built and can be interpreted, and the rectangular hull of its belief at
`(P, Q)` is the point `(s, Q)` for some `s` with `T P s`. -/
def BelievesIn (lp : LpSolver EReal) (adv : Outcome Err (Advertisement EReal))
    (T : ℝ → ℝ → Prop) : Prop :=
  ∃ built af belief, adv = ok built ∧ AdvFunc.new built = (ok (), af) ∧
    built.beliefFunction = some belief ∧
    ∀ P Q : ℝ, ∃ s : ℝ,
      AdvFunc.Ends (fun n => AdvFunc.rectangularHull lp n belief (bindPQ (P : EReal) Q)) af
        (ok ⟨[(s : EReal), Q], [(s : EReal), Q]⟩) ∧ T P s

/-- **The rectangular hull of the belief** is the rounded setpoint. -/
theorem uniform_hull (lp : LpSolver EReal) {T : ℝ → ℝ → Prop}
    (hT : ∀ P, T P (roundedPower Pmin Pmax stepSize error P)) :
    BelievesIn lp (uniformRealDiscreteDeviceAdvertisement ⊤ Pmin Pmax stepSize error alpha beta
      Pimp Qimp) T := by
  obtain ⟨built, hbuilt, hcollect, hbelief⟩ :=
    uniformDevice_built Pmin Pmax stepSize error alpha beta Pimp Qimp
  have hnew := AdvFunc.setAdv_of_collectable hcollect AdvFunc.blank
  refine ⟨built, _, _, hbuilt, hnew, hbelief, fun P Q => ⟨_, ?_, hT P⟩⟩
  refine SpendsUpTo.ends (k := 10) rfl (fun fuel => ?_) (show 24 + 3 ≤ MAX_NESTING_DEPTH by decide)
  exact spends_casesHull lp (spends_gridCases (bindPQ_P _ _))

end Advertisement

/-- **The belief rounds onto the grid of `Pmin`**: outside of the range it is the boundary, else
a point of the grid that is at most half a step away. -/
theorem uniform_rounds_to_grid (Pmin Pmax : ℝ) {stepSize : ℝ} (hstep : 0 < stepSize)
    (error alpha beta Pimp Qimp : ℝ) (lp : LpSolver EReal) :
    BelievesIn lp (uniformRealDiscreteDeviceAdvertisement ⊤ Pmin Pmax stepSize error alpha beta
      Pimp Qimp) fun P s =>
        (P ≤ Pmin + error → s = Pmin) ∧
        (¬ P ≤ Pmin + error → Pmax + error ≤ P → s = Pmax) ∧
        (¬ P ≤ Pmin + error → ¬ Pmax + error ≤ P →
          ∃ k : ℤ, s = Pmin + k * stepSize ∧
            |Pmin + k * stepSize - (P - error)| ≤ stepSize / 2) := by
  apply uniform_hull
  intro P
  refine ⟨fun hlow => ?_, fun hlow hhigh => ?_, fun hlow hhigh => ?_⟩
  · rw [roundedPower, if_pos hlow]
  · rw [roundedPower, if_neg hlow, if_pos hhigh]
  · rw [roundedPower, if_neg hlow, if_neg hhigh]
    obtain ⟨k, hk⟩ : ∃ k : ℤ, gridPoint Pmin stepSize (P - error) = Pmin + k * stepSize :=
      exists_gridPoint
    refine ⟨k, hk, ?_⟩
    rw [← hk]
    exact abs_gridPoint_sub_le hstep

/-- A device with the range from -5 to 8 and steps of 10. -/
theorem uniform_rounds_to_grid_sample :
    BelievesIn (fun _ c => ok c) (uniformRealDiscreteDeviceAdvertisement ⊤ ((-5 : ℝ) : EReal)
      ((8 : ℝ) : EReal) ((10 : ℝ) : EReal) ((2 : ℝ) : EReal) ((0 : ℝ) : EReal) ((0 : ℝ) : EReal)
      ((0 : ℝ) : EReal) ((0 : ℝ) : EReal)) fun P s =>
        (P ≤ -5 + 2 → s = -5) ∧
        (¬ P ≤ -5 + 2 → 8 + 2 ≤ P → s = 8) ∧
        (¬ P ≤ -5 + 2 → ¬ 8 + 2 ≤ P →
          ∃ k : ℤ, s = -5 + k * 10 ∧ |-5 + k * 10 - (P - 2)| ≤ 10 / 2) :=
  uniform_rounds_to_grid (-5) 8 (by norm_num) 2 0 0 0 0 fun _ c => ok c

/-- **Where the belief is in the advertised range.** -/
theorem uniform_in_range_iff {Pmin Pmax stepSize : ℝ} (hle : Pmin ≤ Pmax) (hstep : 0 < stepSize)
    (error alpha beta Pimp Qimp : ℝ) (lp : LpSolver EReal) :
    BelievesIn lp (uniformRealDiscreteDeviceAdvertisement ⊤ Pmin Pmax stepSize error alpha beta
      Pimp Qimp) fun P s =>
        (Pmin ≤ s ∧ s ≤ Pmax ↔
          Pmax ≤ P - error ∨ P - error < lastMiddle Pmin Pmax stepSize ∨
            (P - error = lastMiddle Pmin Pmax stepSize ∧
              lastMiddle Pmin Pmax stepSize < Double.fmod Pmin stepSize)) := by
  apply uniform_hull
  intro P
  rw [roundedPower]
  split
  · next hlow =>
    have hmiddle := lt_lastMiddle hle hstep
    exact iff_of_true ⟨le_rfl, hle⟩ (Or.inr (Or.inl (by linarith)))
  · next hlow =>
    split
    · next hhigh => exact iff_of_true ⟨hle, le_rfl⟩ (Or.inl (by linarith))
    · next hhigh =>
      -- only the upper end of the range can be passed
      have hbelow : ¬ Pmax ≤ P - error := by
        intro h
        apply hhigh
        linarith
      rw [and_iff_right (le_gridPoint hstep (by linarith)), gridPoint_le_iff hstep,
        or_iff_right hbelow]
      rfl

/-- A device with the range from 0 to 8 and steps of 10. -/
theorem uniform_in_range_iff_sample :
    BelievesIn (fun _ c => ok c) (uniformRealDiscreteDeviceAdvertisement ⊤ ((0 : ℝ) : EReal)
      ((8 : ℝ) : EReal) ((10 : ℝ) : EReal) ((0 : ℝ) : EReal) ((0 : ℝ) : EReal) ((0 : ℝ) : EReal)
      ((0 : ℝ) : EReal) ((0 : ℝ) : EReal)) fun P s =>
        (0 ≤ s ∧ s ≤ 8 ↔ 8 ≤ P - 0 ∨ P - 0 < lastMiddle 0 8 10 ∨
          (P - 0 = lastMiddle 0 8 10 ∧ lastMiddle 0 8 10 < Double.fmod (0 : ℝ) 10)) :=
  uniform_in_range_iff (by norm_num) (by norm_num) 0 0 0 0 0 fun _ c => ok c

/-- From the middle of its first step on, such a device rounds to 10. -/
theorem roundedPower_six : roundedPower 0 8 10 0 6 = 10 := by
  have hrem : truncatedRemainder 0 10 = 0 := by
    simp [truncatedRemainder]
  have hround : roundHalfAway (6 / 10) = 1 := by
    have hfloor : ⌊(6 / 10 + 1 / 2 : ℝ)⌋ = 1 := by
      rw [Int.floor_eq_iff]
      norm_num
    rw [roundHalfAway, if_pos (by norm_num), hfloor, Int.cast_one]
  rw [roundedPower, if_neg (by norm_num), if_neg (by norm_num), gridPoint, hrem, sub_zero, sub_zero,
    hround]
  norm_num

/-- **Rounding passes the upper boundary**: asked for 6, the device believes in a point above 8. -/
theorem uniform_out_of_range :
    BelievesIn (fun _ c => ok c) (uniformRealDiscreteDeviceAdvertisement ⊤ ((0 : ℝ) : EReal)
      ((8 : ℝ) : EReal) ((10 : ℝ) : EReal) ((0 : ℝ) : EReal) ((0 : ℝ) : EReal) ((0 : ℝ) : EReal)
      ((0 : ℝ) : EReal) ((0 : ℝ) : EReal)) fun P s => P = 6 → ¬ (0 ≤ s ∧ s ≤ 8) := by
  apply uniform_hull
  rintro P rfl
  rw [roundedPower_six]
  norm_num

end Commelec
