/-
Commelec/NanReal.lean

Reals with a result that is not a finite number.  `NanReal` idealises `double` a
little less than `ℝ` does: what has no finite real value (the logarithm of a
non-positive number, a division by zero, a root of a negative number) is `nan`, and
every sum or product with `nan` is `nan`.  Infinities are not told apart from `nan`.
-/
import Commelec.Double

namespace Commelec

/-- A finite number, or none. -/
inductive NanReal where
  | fin (x : ℝ)
  | nan

namespace NanReal

/-- Apply a function to a finite number. -/
def map (f : ℝ → ℝ) : NanReal → NanReal
  | fin x => fin (f x)
  | nan => nan

/-- Apply a function to two finite numbers. -/
def map₂ (f : ℝ → ℝ → ℝ) : NanReal → NanReal → NanReal
  | fin x, fin y => fin (f x y)
  | _, _ => nan

open Classical in
/-- `fin x` if there is such a number, that is, if `p` holds. -/
noncomputable def finIf (p : Prop) (x : ℝ) : NanReal := if p then fin x else nan

/-- A power is not finite if it divides by
zero, or if its base is negative and its exponent not an integer. -/
noncomputable def power : NanReal → NanReal → NanReal
  | fin x, fin y => finIf (¬ (x = 0 ∧ y < 0) ∧ (0 ≤ x ∨ ∃ n : ℤ, y = n)) (x ^ y)
  | nan, fin y => finIf (y = 0) 1
  | fin x, nan => finIf (x = 1) 1
  | nan, nan => nan

noncomputable instance : Double NanReal where
  zero := fin 0
  one := fin 1
  add := map₂ (· + ·)
  neg := map (-·)
  sub := map₂ (· - ·)
  mul := map₂ (· * ·)
  div
    | fin x, fin y => finIf (y ≠ 0) (x / y)
    | _, _ => nan
  lit q := fin q
  lt
    | fin x, fin y => decide (x < y)
    | _, _ => false
  le
    | fin x, fin y => decide (x ≤ y)
    | _, _ => false
  exp := map Real.exp
  sin := map Real.sin
  cos := map Real.cos
  tan := map Real.tan
  sqrt
    | fin x => finIf (0 ≤ x) (Real.sqrt x)
    | nan => nan
  log10
    | fin x => finIf (0 < x) (Real.log x / Real.log 10)
    | nan => nan
  log
    | fin x => finIf (0 < x) (Real.log x)
    | nan => nan
  round := map roundHalfAway
  floor := map fun x => ⌊x⌋
  ceil := map fun x => ⌈x⌉
  abs := map abs
  pow := power
  fmod
    | fin x, fin y => finIf (y ≠ 0) (truncatedRemainder x y)
    | _, _ => nan
  log10e := fin (1 / Real.log 10)
  dummyPrecision := fin (1 / 10 ^ 12)
  callOrder := .unspecified

variable {p q : Prop} {x y : ℝ}

theorem finIf_pos (hp : p) : finIf p x = fin x := if_pos hp

theorem finIf_neg (hp : ¬ p) : finIf p x = nan := if_neg hp

theorem finIf_true : finIf True x = fin x := finIf_pos trivial

theorem finIf_eq_fin_iff : finIf p x = fin y ↔ p ∧ x = y := by
  by_cases hp : p
  · rw [finIf_pos hp, fin.injEq]
    exact (and_iff_right hp).symm
  · rw [finIf_neg hp]
    exact iff_of_false (by simp) fun h => hp h.1

@[simp] theorem zero_eq : (0 : NanReal) = fin 0 := rfl
@[simp] theorem one_eq : (1 : NanReal) = fin 1 := rfl
@[simp] theorem fin_add : fin x + fin y = fin (x + y) := rfl
@[simp] theorem fin_mul : fin x * fin y = fin (x * y) := rfl
@[simp] theorem fin_sub : fin x - fin y = fin (x - y) := rfl
@[simp] theorem nan_add (a : NanReal) : nan + a = nan := by cases a <;> rfl
@[simp] theorem add_nan (a : NanReal) : a + nan = nan := by cases a <;> rfl
@[simp] theorem nan_mul (a : NanReal) : nan * a = nan := by cases a <;> rfl
@[simp] theorem mul_nan (a : NanReal) : a * nan = nan := by cases a <;> rfl
@[simp] theorem fin_log : Double.log (fin x) = finIf (0 < x) (Real.log x) := rfl

/-- A sum is finite where both parts are. -/
theorem finIf_add : finIf p x + finIf q y = finIf (p ∧ q) (x + y) := by
  by_cases hp : p <;> by_cases hq : q <;> simp [finIf, hp, hq]

theorem fin_mul_finIf : fin x * finIf p y = finIf p (x * y) := by
  by_cases hp : p <;> simp [finIf, hp]

/-- A power with an integer exponent is the usual one, unless it divides by zero. -/
theorem fin_pow_int (n : ℤ) (h : x ≠ 0 ∨ 0 ≤ n) :
    Double.pow (fin x) (fin n) = fin (x ^ (n : ℝ)) := by
  refine finIf_pos ⟨?_, Or.inr ⟨n, rfl⟩⟩
  rintro ⟨hx, hn⟩
  rcases h with h | h
  · exact h hx
  · exact absurd hn (not_lt.mpr (by exact_mod_cast h))

/-- Finite numbers are exact. -/
theorem exact_fin : Exact fin where
  zero := rfl
  one := rfl
  add _ _ := rfl
  mul _ _ := rfl
  lit _ := rfl
  pow x k := by
    have h := fin_pow_int (x := x) (k : ℤ) (Or.inr (Int.natCast_nonneg k))
    rw [Int.cast_natCast, Real.rpow_natCast] at h
    exact h

end NanReal

end Commelec
