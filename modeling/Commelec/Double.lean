/-
Commelec/Double.lean

Scalars and vectors.  The interpreter computes with C++ `double`s; the model is
written over any type `R` with the operations of `Double R`, and its results are
about an instance that idealises the floating-point numbers:

* `ℝ` — exact real arithmetic (`x / 0`, `log 0` and the like have Mathlib's
  default values, so results that depend on them assume them away).

C++ does not say which argument of a call is evaluated first.  The compiler's choice is part
of `Double R` (`callOrder`), so a result about every `R` holds for every choice; the instances
leave it open (`CallOrder.unspecified`).

A `std::vector<double>` or `Eigen::VectorXd` is a `List R`: both have a length
that is known only at run time.
-/
import Mathlib.Analysis.SpecialFunctions.Pow.Real
import Mathlib.Analysis.SpecialFunctions.Trigonometric.Basic
import Mathlib.Analysis.Complex.Trigonometric
import Mathlib.Algebra.Order.Floor.Ring

namespace Commelec

/-- Whether the second argument is evaluated first, for each call whose arguments are. -/
structure CallOrder where
  min : Bool
  max : Bool
  pow : Bool

instance : Nonempty CallOrder := ⟨⟨true, true, true⟩⟩

/-- An order of which nothing is known. -/
noncomputable def CallOrder.unspecified : CallOrder := Classical.arbitrary CallOrder

/-- The operations on `double` that the sources use. -/
class Double (R : Type) extends Zero R, One R, Add R, Neg R, Sub R, Mul R, Div R where
  /-- literals, and the conversion from `int` -/
  lit : ℚ → R
  /-- `x < y`, false when an operand is not a number -/
  lt : R → R → Bool
  /-- `x <= y`, false when an operand is not a number -/
  le : R → R → Bool
  exp : R → R
  sin : R → R
  cos : R → R
  tan : R → R
  sqrt : R → R
  log10 : R → R
  /-- natural logarithm -/
  log : R → R
  /-- to the nearest integer, halves away from zero -/
  round : R → R
  floor : R → R
  ceil : R → R
  abs : R → R
  pow : R → R → R
  /-- the remainder of a division that truncates -/
  fmod : R → R → R
  /-- `M_LOG10E` -/
  log10e : R
  /-- `Eigen::NumTraits<double>::dummy_precision()` -/
  dummyPrecision : R
  /-- the order in which the arguments of `std::min`, `std::max` and `std::pow` are evaluated -/
  callOrder : CallOrder

/-! ### Scalars -/

section Scalar

variable {R : Type} [Double R]

open Double

/-- `std::min`. -/
def stdMin (a b : R) : R := if lt b a then b else a

/-- `std::max`. -/
def stdMax (a b : R) : R := if lt a b then b else a

/-- Signum function. -/
def sgn (val : R) : R :=
  lit ((if lt 0 val then 1 else 0) - (if lt val 0 then 1 else 0))

/-- The double that a comparison evaluates to. -/
def ofBool (b : Bool) : R := if b then 1 else 0

end Scalar

/-! ### Vectors -/

section Vector

variable {R : Type} [Double R]

open Double

/-- `x.transpose() * y`. -/
def dot (x y : List R) : R := (List.zipWith (· * ·) x y).sum

def squaredNorm (x : List R) : R := dot x x

def norm (x : List R) : R := sqrt (squaredNorm x)

def vecAdd (x y : List R) : List R := List.zipWith (· + ·) x y

def vecSub (x y : List R) : List R := List.zipWith (· - ·) x y

/-- A scalar times a vector. -/
def vecScale (c : R) (x : List R) : List R := x.map (c * ·)

/-- `v.normalized()`: the zero vector is left alone. -/
def normalized (x : List R) : List R :=
  if lt 0 (squaredNorm x) then x.map (· / norm x) else x

/-- `x.isApprox(y)`, relative to the smaller of the two vectors. -/
def isApprox (x y : List R) : Bool :=
  le (squaredNorm (vecSub x y))
    (dummyPrecision * dummyPrecision * stdMin (squaredNorm x) (squaredNorm y))

/-- `x <= y` in every coefficient. -/
def allLe (x y : List R) : Bool := (List.zipWith le x y).all id

end Vector

/-! ### Exact real arithmetic

The numerals of the code have instances of their own, so that one numeral is one term in every
module. -/

instance atLeastTwo_two : Nat.AtLeastTwo 2 := ⟨le_rfl⟩
instance atLeastTwo_five : Nat.AtLeastTwo 5 := ⟨by norm_num⟩
instance atLeastTwo_ten : Nat.AtLeastTwo 10 := ⟨by norm_num⟩

/-- Round half away from zero. -/
noncomputable def roundHalfAway (x : ℝ) : ℝ :=
  if 0 ≤ x then ⌊x + 1 / 2⌋ else -⌊-x + 1 / 2⌋

/-- The remainder of the division that rounds towards zero. -/
noncomputable def truncatedRemainder (x y : ℝ) : ℝ :=
  x - y * (if 0 ≤ x / y then ⌊x / y⌋ else ⌈x / y⌉)

noncomputable instance : Double ℝ where
  lit q := q
  lt x y := decide (x < y)
  le x y := decide (x ≤ y)
  exp := Real.exp
  sin := Real.sin
  cos := Real.cos
  tan := Real.tan
  sqrt := Real.sqrt
  log10 x := Real.log x / Real.log 10
  log := Real.log
  round := roundHalfAway
  floor x := ⌊x⌋
  ceil x := ⌈x⌉
  abs x := |x|
  pow x y := x ^ y
  fmod := truncatedRemainder
  log10e := 1 / Real.log 10
  dummyPrecision := 1 / 10 ^ 12
  callOrder := .unspecified

section Real

variable (x y : ℝ)

@[simp] theorem lit_real (q : ℚ) : (Double.lit q : ℝ) = q := rfl
@[simp] theorem lt_real : (Double.lt x y = true) = (x < y) := by simp [Double.lt]
@[simp] theorem le_real : (Double.le x y = true) = (x ≤ y) := by simp [Double.le]
@[simp] theorem exp_real : Double.exp x = Real.exp x := rfl
@[simp] theorem sin_real : Double.sin x = Real.sin x := rfl
@[simp] theorem cos_real : Double.cos x = Real.cos x := rfl
@[simp] theorem tan_real : Double.tan x = Real.tan x := rfl
@[simp] theorem sqrt_real : Double.sqrt x = Real.sqrt x := rfl
@[simp] theorem log10_real : Double.log10 x = Real.log x / Real.log 10 := rfl
@[simp] theorem log_real : Double.log x = Real.log x := rfl
@[simp] theorem abs_real : Double.abs x = |x| := rfl
@[simp] theorem pow_real : Double.pow x y = x ^ y := rfl
@[simp] theorem log10e_real : (Double.log10e : ℝ) = 1 / Real.log 10 := rfl

@[simp] theorem stdMin_real : stdMin x y = min x y := by
  simp only [stdMin, lt_real]
  split
  · exact (min_eq_right (le_of_lt ‹_›)).symm
  · exact (min_eq_left (not_lt.mp ‹_›)).symm

@[simp] theorem stdMax_real : stdMax x y = max x y := by
  simp only [stdMax, lt_real]
  split
  · exact (max_eq_right (le_of_lt ‹_›)).symm
  · exact (max_eq_left (not_lt.mp ‹_›)).symm

/-- The tests by which a loop over bounds rejects a coordinate. -/
theorem outOfBounds_real {x y z : ℝ} :
    (Double.lt z (stdMin x y) || Double.lt (stdMax x y) z) = true
      ↔ ¬ (min x y ≤ z ∧ z ≤ max x y) := by
  simp only [Bool.or_eq_true, lt_real, stdMin_real, stdMax_real, not_and_or, not_le]

/-- On the reals `sgn` is the sign. -/
theorem sgn_real : sgn x = SignType.sign x := by
  rcases lt_trichotomy x 0 with h | rfl | h
  · simp [sgn, h, h.not_gt, sign_neg h]
  · simp [sgn]
  · simp [sgn, h, h.not_gt, sign_pos h]

end Real

/-! ### Reals among the scalars -/

/-- `φ` puts the reals into `R` such that sums, products and powers with a natural
exponent are exact. -/
structure Exact {R : Type} [Double R] (φ : ℝ → R) : Prop where
  zero : φ 0 = 0
  one : φ 1 = 1
  add (x y : ℝ) : φ x + φ y = φ (x + y)
  mul (x y : ℝ) : φ x * φ y = φ (x * y)
  lit (q : ℚ) : Double.lit q = φ q
  pow (x : ℝ) (k : ℕ) : Double.pow (φ x) (φ k) = φ (x ^ k)

/-- The reals are exact. -/
theorem exact_id : Exact (id : ℝ → ℝ) where
  zero := rfl
  one := rfl
  add _ _ := rfl
  mul _ _ := rfl
  lit _ := rfl
  pow x k := Real.rpow_natCast x k

namespace Exact

variable {R : Type} [Double R] {φ : ℝ → R} (hφ : Exact φ)

include hφ

theorem foldl_add (xs : List ℝ) (x : ℝ) :
    (xs.map φ).foldl (· + ·) (φ x) = φ (x + xs.sum) := by
  induction xs generalizing x with
  | nil => simp
  | cons y xs ih => rw [List.map_cons, List.foldl_cons, hφ.add, ih, List.sum_cons, add_assoc]

/-- Adding up a list from zero. -/
theorem sum (xs : List ℝ) : (xs.map φ).foldl (· + ·) 0 = φ xs.sum := by
  rw [← hφ.zero, hφ.foldl_add, zero_add]

end Exact

end Commelec
