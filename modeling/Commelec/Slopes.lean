/-
Commelec/Slopes.lean

The calculus behind `evalPartialDerivative`, one operation at a time.

For each operation, `unarySlope` and `binarySlope` are the derivatives that the chain
rule prescribes; on the open domain of the operation (`UnaryRegular`,
`BinaryRegular`) they are right, and the rule of the sources computes them.  There is
one exception: for `square` the sources leave out the value of the argument.

A polynomial message is a sum over its coefficients of products of powers, whose
exponents are decoded from the offset (`digit`).  An offset from `2 ^ 31` on is read as
a negative `int` and may give negative exponents; the loop that differentiates then
uses the factor one (`loopSlope`) instead of the derivative of the power.
-/
import Mathlib.Analysis.Calculus.Deriv.Abs
import Mathlib.Analysis.Calculus.Deriv.ZPow
import Mathlib.Analysis.SpecialFunctions.Log.Deriv
import Mathlib.Analysis.SpecialFunctions.Pow.Deriv
import Mathlib.Analysis.SpecialFunctions.Sqrt
import Mathlib.Analysis.SpecialFunctions.Trigonometric.ArctanDeriv
import Commelec.Derivative

namespace Commelec

open Effectful Outcome

/-! ### Unary operations -/

/-- The arguments at which the operation is differentiable; none for an operation that
is not smooth. -/
def UnaryRegular : UnaryOp → ℝ → Prop
  | .negate, _ | .square, _ | .exp, _ | .sin, _ | .cos, _ => True
  | .tan, x => Real.cos x ≠ 0
  | .multInv, x | .abs, x => x ≠ 0
  | .sqrt, x | .ln, x | .log10, x => 0 < x
  | .sign, _ | .round, _ | .floor, _ | .ceil, _ | .unknown _, _ => False

/-- The derivative of the operation. -/
noncomputable def unarySlope : UnaryOp → ℝ → ℝ
  | .negate, _ => -1
  | .square, x => 2 * x
  | .exp, x => Real.exp x
  | .sin, x => Real.cos x
  | .cos, x => -Real.sin x
  | .tan, x => 1 / (Real.cos x * Real.cos x)
  | .multInv, x => -1 / (x * x)
  | .abs, x => SignType.sign x
  | .sqrt, x => 1 / (2 * Real.sqrt x)
  | .ln, x => 1 / x
  | .log10, x => 1 / Real.log 10 / x
  | _, _ => 0

theorem hasDerivAt_unary {op : UnaryOp} {g : ℝ → ℝ} (hop : unaryFun op = some g) {x : ℝ}
    (hx : UnaryRegular op x) : HasDerivAt g (unarySlope op x) x := by
  cases op with
  | negate =>
    obtain rfl := Option.some.inj hop
    exact (hasDerivAt_id x).neg
  | square =>
    obtain rfl := Option.some.inj hop
    refine ((hasDerivAt_id x).mul (hasDerivAt_id x)).congr_deriv ?_
    simp only [unarySlope, id]
    ring
  | exp =>
    obtain rfl := Option.some.inj hop
    exact Real.hasDerivAt_exp x
  | sin =>
    obtain rfl := Option.some.inj hop
    exact Real.hasDerivAt_sin x
  | cos =>
    obtain rfl := Option.some.inj hop
    exact Real.hasDerivAt_cos x
  | tan =>
    obtain rfl := Option.some.inj hop
    refine (Real.hasDerivAt_tan hx).congr_deriv ?_
    rw [unarySlope, sq]
  | multInv =>
    obtain rfl := Option.some.inj hop
    have hx' : x ≠ 0 := hx
    have hinv : (fun y : ℝ => 1 / y) = fun y => y⁻¹ := funext fun y => one_div y
    rw [hinv]
    refine (hasDerivAt_inv hx').congr_deriv ?_
    rw [unarySlope, sq, neg_div, one_div]
  | abs =>
    obtain rfl := Option.some.inj hop
    exact hasDerivAt_abs hx
  | sqrt =>
    obtain rfl := Option.some.inj hop
    have hx' : 0 < x := hx
    exact Real.hasDerivAt_sqrt hx'.ne'
  | ln =>
    obtain rfl := Option.some.inj hop
    have hx' : 0 < x := hx
    refine (Real.hasDerivAt_log hx'.ne').congr_deriv ?_
    rw [unarySlope, one_div]
  | log10 =>
    obtain rfl := Option.some.inj hop
    have hx' : 0 < x := hx
    refine ((Real.hasDerivAt_log hx'.ne').div_const (Real.log 10)).congr_deriv ?_
    rw [unarySlope, one_div, div_eq_mul_inv, div_eq_mul_inv, mul_comm]
  | sign | round | floor | ceil | unknown => exact hx.elim

/-- The rule of the sources is the chain rule, except for `square`. -/
theorem derivUnary_eq {op : UnaryOp} (hop : op ≠ .square) {x : ℝ} (hx : UnaryRegular op x)
    (dx : ℝ) :
    (derivUnaryOperation op (ok x) (ok dx) : Outcome Err ℝ) = ok (unarySlope op x * dx) := by
  cases op with
  | negate =>
    show ok (-dx) = _
    rw [unarySlope, neg_one_mul]
  | square => exact absurd rfl hop
  | sqrt =>
    show ok (1 / (Double.lit 2 * Real.sqrt x) * dx) = _
    rw [lit_real, unarySlope]
    norm_num
  | abs =>
    show ok (sgn x * dx) = _
    rw [sgn_real, unarySlope]
  | exp | sin | cos | tan | multInv | ln | log10 => rfl
  | sign | round | floor | ceil | unknown => exact hx.elim

/-- The rule for `square` does not look at the argument. -/
theorem derivUnary_square (x dx : ℝ) :
    (derivUnaryOperation .square (ok x) (ok dx) : Outcome Err ℝ) = ok (2 * dx) := by
  show ok (Double.lit 2 * dx) = _
  rw [lit_real]
  norm_num

/-! ### Binary operations -/

def BinaryRegular : BinaryOp → ℝ → ℝ → Prop
  | .sum, _, _ | .prod, _, _ => True
  | .pow, x, _ => 0 < x
  | .min, x, y | .max, x, y => x ≠ y
  | .lessEqThan, _, _ | .greaterThan, _, _ | .unknown _, _, _ => False

/-- The derivative of the operation, given those of its arguments. -/
noncomputable def binarySlope : BinaryOp → ℝ → ℝ → ℝ → ℝ → ℝ
  | .sum, _, _, dx, dy => dx + dy
  | .prod, x, y, dx, dy => x * dy + y * dx
  | .pow, x, y, dx, dy => x ^ (y - 1) * (y * dx + x * Real.log x * dy)
  | .min, x, y, dx, dy => if x ≤ y then dx else dy
  | .max, x, y, dx, dy => if y < x then dx else dy
  | _, _, _, _, _ => 0

section Binary

variable {f g : ℝ → ℝ} {t dx dy : ℝ}

/-- Near a point where `f` is smaller, the minimum is `f`. -/
theorem hasDerivAt_min_left (hf : HasDerivAt f dx t) (hg : ContinuousAt g t) (h : f t < g t) :
    HasDerivAt (fun s => min (f s) (g s)) dx t := by
  have hnear : ∀ᶠ s in nhds t, f s < g s := hf.continuousAt.eventually_lt hg h
  refine hf.congr_of_eventuallyEq ?_
  filter_upwards [hnear] with s hs
  exact min_eq_left hs.le

theorem hasDerivAt_max_left (hf : HasDerivAt f dx t) (hg : ContinuousAt g t) (h : g t < f t) :
    HasDerivAt (fun s => max (f s) (g s)) dx t := by
  have hnear : ∀ᶠ s in nhds t, g s < f s := hg.eventually_lt hf.continuousAt h
  refine hf.congr_of_eventuallyEq ?_
  filter_upwards [hnear] with s hs
  exact max_eq_left hs.le

theorem hasDerivAt_binary {op : BinaryOp} {h : ℝ → ℝ → ℝ} (hop : binaryFun op = some h)
    (hreg : BinaryRegular op (f t) (g t)) (hf : HasDerivAt f dx t) (hg : HasDerivAt g dy t) :
    HasDerivAt (fun s => h (f s) (g s)) (binarySlope op (f t) (g t) dx dy) t := by
  cases op with
  | sum =>
    obtain rfl := Option.some.inj hop
    exact hf.add hg
  | prod =>
    obtain rfl := Option.some.inj hop
    refine (hf.mul hg).congr_deriv ?_
    rw [binarySlope]
    ring
  | pow =>
    obtain rfl := Option.some.inj hop
    have hpos : 0 < f t := hreg
    refine (hf.rpow hg hpos).congr_deriv ?_
    have hpow : f t ^ g t = f t ^ (g t - 1) * f t := by
      rw [Real.rpow_sub_one hpos.ne', div_mul_cancel₀ _ hpos.ne']
    rw [binarySlope, hpow]
    ring
  | min =>
    obtain rfl := Option.some.inj hop
    have hne : f t ≠ g t := hreg
    simp only [stdMin_real, binarySlope]
    split
    · next hle => exact hasDerivAt_min_left hf hg.continuousAt (lt_of_le_of_ne hle hne)
    · next hle =>
      simp only [min_comm (f _)]
      exact hasDerivAt_min_left hg hf.continuousAt (not_le.mp hle)
  | max =>
    obtain rfl := Option.some.inj hop
    have hne : f t ≠ g t := hreg
    simp only [stdMax_real, binarySlope]
    split
    · next hlt => exact hasDerivAt_max_left hf hg.continuousAt hlt
    · next hlt =>
      simp only [max_comm (f _)]
      exact hasDerivAt_max_left hg hf.continuousAt (lt_of_le_of_ne (not_lt.mp hlt) hne)
  | lessEqThan | greaterThan | unknown => exact hreg.elim

end Binary

/-! ### Products of a list -/

/-- The derivative of a product of numbers `vs` with derivatives `ds`. -/
def prodSlope : List ℝ → List ℝ → ℝ
  | v :: vs, d :: ds => d * vs.prod + v * prodSlope vs ds
  | _, _ => 0

/-- The inner loop multiplies by all numbers but the `i`-th; here it starts at number
`n`. -/
theorem foldl_multOthers (vs : List ℝ) (n i : ℕ) (mult : ℝ) :
    (vs.zipIdx n).foldl (fun mult v => if v.2 ≠ i then mult * v.1 else mult) mult
      = mult * if n ≤ i then (vs.eraseIdx (i - n)).prod else vs.prod := by
  induction vs generalizing n mult with
  | nil => simp
  | cons v vs ih =>
    rw [List.zipIdx_cons, List.foldl_cons, ih]
    rcases lt_trichotomy n i with h | rfl | h
    · obtain ⟨k, hk⟩ : ∃ k, i - n = k + 1 := ⟨i - n - 1, by omega⟩
      have hk' : i - (n + 1) = k := by omega
      rw [if_pos h.ne, if_pos (by omega), if_pos h.le, hk, hk', List.eraseIdx_cons_succ,
        List.prod_cons, mul_assoc]
    · rw [if_neg (by simp), if_neg (by omega), if_pos le_rfl, Nat.sub_self,
        List.eraseIdx_cons_zero]
    · rw [if_pos h.ne', if_neg (by omega), if_neg (by omega), List.prod_cons, mul_assoc]

theorem multOthers_eq (vs : List ℝ) (i : ℕ) (mult : ℝ) :
    multOthers vs i mult = mult * (vs.eraseIdx i).prod := by
  have h := foldl_multOthers vs 0 i mult
  rw [if_pos (Nat.zero_le i), Nat.sub_zero] at h
  exact h

/-- The outer loop, after the factors `pre`. -/
theorem foldl_prodSlope {vs ds : List ℝ} (hlen : ds.length = vs.length) (pre : List ℝ)
    (accum : ℝ) :
    (ds.zipIdx pre.length).foldl
        (fun accum d => accum + multOthers (pre ++ vs) d.2 d.1) accum
      = accum + pre.prod * prodSlope vs ds := by
  induction ds generalizing vs pre accum with
  | nil =>
    obtain rfl : vs = [] := List.length_eq_zero_iff.mp hlen.symm
    simp [prodSlope]
  | cons d ds ih =>
    obtain - | ⟨v, vs⟩ := vs
    · simp at hlen
    have herase : (pre ++ v :: vs).eraseIdx pre.length = pre ++ vs := by
      rw [List.eraseIdx_append_of_length_le le_rfl, Nat.sub_self, List.eraseIdx_cons_zero]
    have htail := ih (by simpa using hlen) (pre ++ [v])
      (accum + multOthers (pre ++ v :: vs) pre.length d)
    rw [List.length_append, List.length_singleton, List.append_assoc, List.singleton_append]
      at htail
    rw [List.zipIdx_cons, List.foldl_cons, htail, multOthers_eq, herase, List.prod_append,
      List.prod_append, List.prod_singleton, prodSlope]
    ring

/-- The rule for a product of a list. -/
theorem derivList_prod {evals derivs : List (Outcome Err ℝ)} {vs ds : List ℝ}
    (hv : collect evals = ok vs) (hd : collect derivs = ok ds) (hlen : ds.length = vs.length) :
    derivListOperation .prod evals derivs = ok (prodSlope vs ds) := by
  have h := foldl_prodSlope hlen [] 0
  rw [List.nil_append, List.length_nil, List.prod_nil, one_mul, zero_add] at h
  rw [derivListOperation, evalToVector, hv, ok_bind, hd, ok_bind, h]
  rfl

/-! ### Polynomials -/

/-- The exponent of variable number `i` that is decoded from an offset. -/
def digit (d : ℕ) (offset : ℤ) (i : ℕ) : ℤ := (offset.tdiv ((d ^ i : ℕ) : ℤ)).tmod d

/-- The product of powers that an offset stands for, over the variables from number `i`
on, with the factor of variable number `dVar` replaced by `φ`. -/
noncomputable def digitProduct (φ : ℝ → ℤ → ℝ) (dVar : ℤ) (d : ℕ) (offset : ℤ) :
    ℕ → List ℝ → ℝ
  | _, [] => 1
  | i, x :: pt =>
    (if dVar = i then φ x (digit d offset i) else x ^ digit d offset i)
      * digitProduct φ dVar d offset (i + 1) pt

/-- The sum over the coefficients of a polynomial. -/
noncomputable def Polynomial.sumDigits (p : Polynomial ℝ) (φ : ℝ → ℤ → ℝ) (dVar : ℤ)
    (pt : List ℝ) : ℝ :=
  (p.coefficients.map fun c =>
    c.value * digitProduct φ dVar (p.maxVarDegree.toNat + 1) c.offset.toInt32.toInt 0 pt).sum

/-- The derivative of a power. -/
noncomputable def powSlope (x : ℝ) (k : ℤ) : ℝ := k * x ^ (k - 1)

/-- The factor that the loop of the sources uses instead. -/
noncomputable def loopSlope (x : ℝ) (k : ℤ) : ℝ :=
  if k = 0 then 0 else if 1 < k then k * x ^ (k - 1) else 1

/-- By how much that factor is too large; nothing for a natural exponent. -/
noncomputable def slopeError (x : ℝ) (k : ℤ) : ℝ := if k < 0 then 1 - k * x ^ (k - 1) else 0

theorem loopSlope_eq (x : ℝ) (k : ℤ) : loopSlope x k = powSlope x k + slopeError x k := by
  rw [loopSlope, powSlope, slopeError]
  by_cases h0 : k = 0
  · simp [h0]
  rw [if_neg h0]
  by_cases h1 : 1 < k
  · rw [if_pos h1, if_neg (by omega), add_zero]
  · rw [if_neg h1]
    by_cases hneg : k < 0
    · rw [if_pos hneg]
      ring
    · obtain rfl : k = 1 := by omega
      simp

/-- The factor does not matter before the first variable. -/
theorem digitProduct_congr {φ ψ : ℝ → ℤ → ℝ} {d : ℕ} {offset dVar : ℤ} {pt : List ℝ} {i : ℕ}
    (h : dVar < i) :
    digitProduct φ dVar d offset i pt = digitProduct ψ dVar d offset i pt := by
  induction pt generalizing i with
  | nil => rfl
  | cons x pt ih =>
    rw [digitProduct, digitProduct, if_neg (by omega), if_neg (by omega),
      ih (by push_cast; omega)]

theorem digitProduct_dVar_congr {φ : ℝ → ℤ → ℝ} {d : ℕ} {offset dVar dVar' : ℤ} {pt : List ℝ}
    {i : ℕ} (h : dVar < i) (h' : dVar' < i) :
    digitProduct φ dVar d offset i pt = digitProduct φ dVar' d offset i pt := by
  induction pt generalizing i with
  | nil => rfl
  | cons x pt ih =>
    rw [digitProduct, digitProduct, if_neg (by omega), if_neg (by omega),
      ih (by push_cast; omega) (by push_cast; omega)]

/-- `digitProduct` is linear in the factor that is replaced. -/
theorem digitProduct_loopSlope (d : ℕ) (offset : ℤ) {dVar : ℤ} {pt : List ℝ} {i : ℕ}
    (hlo : (i : ℤ) ≤ dVar) (hhi : dVar < i + pt.length) :
    digitProduct loopSlope dVar d offset i pt
      = digitProduct powSlope dVar d offset i pt
        + digitProduct slopeError dVar d offset i pt := by
  induction pt generalizing i with
  | nil =>
    rw [List.length_nil] at hhi
    omega
  | cons x pt ih =>
    rw [List.length_cons] at hhi
    push_cast at hhi
    simp only [digitProduct]
    by_cases hi : dVar = i
    · -- the factors after the one replaced are the same powers in all three
      have htail : ∀ φ ψ : ℝ → ℤ → ℝ, digitProduct φ dVar d offset (i + 1) pt
          = digitProduct ψ dVar d offset (i + 1) pt := fun φ ψ =>
        digitProduct_congr (by push_cast; omega)
      rw [if_pos hi, if_pos hi, if_pos hi, loopSlope_eq, htail powSlope loopSlope,
        htail slopeError loopSlope]
      ring
    · rw [if_neg hi, if_neg hi, if_neg hi, ih (by push_cast; omega) (by push_cast; omega)]
      ring

/-- The loop over the variables, for any offset. -/
theorem evalMonomial_digitProduct {d : ℕ} {offset dVar : ℤ} {pt : List ℝ} {i : ℕ} {monom : ℝ}
    (hplace : ∀ j < i + pt.length, d ^ j < 2 ^ 31) :
    (evalMonomial d offset dVar i pt monom : Outcome Err ℝ)
      = ok (monom * digitProduct loopSlope dVar d offset i pt) := by
  induction pt generalizing i monom with
  | nil => simp [evalMonomial, digitProduct]
  | cons x pt ih =>
    have hint : (intPow d i : Outcome Err ℤ) = ok ((d ^ i : ℕ) : ℤ) := by
      rw [intPow, if_pos (hplace i (by simp))]
      rfl
    have htail : ∀ monom' : ℝ, (evalMonomial d offset dVar (i + 1) pt monom' : Outcome Err ℝ)
        = ok (monom' * digitProduct loopSlope dVar d offset (i + 1) pt) := fun monom' =>
      ih fun j hj => hplace j (by rw [List.length_cons]; omega)
    rw [evalMonomial, hint, ok_bind, digitProduct]
    show (if dVar = i then
        if digit d offset i = 0 then pure 0
        else if 1 < digit d offset i then _ else _
      else _) = _
    have hpow : ∀ k : ℤ, Double.pow x (Double.lit (k : ℚ)) = x ^ k := fun k => by
      rw [lit_real, pow_real, Rat.cast_intCast, Real.rpow_intCast]
    by_cases hi : dVar = i
    · rw [if_pos hi, if_pos hi, loopSlope]
      by_cases h0 : digit d offset i = 0
      · -- the monomial does not contain the variable
        rw [if_pos h0, if_pos h0, zero_mul, mul_zero]
        rfl
      rw [if_neg h0, if_neg h0]
      by_cases h1 : 1 < digit d offset i
      · have hpred : (((digit d offset i : ℤ) : ℚ) - 1) = ((digit d offset i - 1 : ℤ) : ℚ) := by
          push_cast
          rfl
        rw [if_pos h1, if_pos h1, htail]
        show ok (monom * (Double.lit ((digit d offset i : ℤ) : ℚ)
          * Double.pow x (Double.lit (((digit d offset i : ℤ) : ℚ) - 1))) * _) = _
        rw [hpred, hpow, lit_real, Rat.cast_intCast, mul_assoc]
      · rw [if_neg h1, if_neg h1, htail, one_mul]
    · rw [if_neg hi, if_neg hi, htail]
      show ok (monom * Double.pow x (Double.lit ((digit d offset i : ℤ) : ℚ)) * _) = _
      rw [hpow, mul_assoc]

/-- The place values of the offsets are `int`s, if there is an offset to decode. -/
def Polynomial.Placed {R : Type} (p : Polynomial R) : Prop :=
  p.coefficients ≠ [] → ∀ j < p.vars.length, (p.maxVarDegree.toNat + 1) ^ j < 2 ^ 31

theorem evalPolynomial_sumDigits {p : Polynomial ℝ} (hp : p.Placed) {bv : ValueMap ℝ}
    {ρ : String → ℝ} (hbv : ∀ v ∈ p.vars, bv v = some (ρ v)) (dVar : ℤ) :
    (evalPolynomial bv p dVar : Outcome Err ℝ)
      = ok (p.sumDigits loopSlope dVar (p.vars.map ρ)) := by
  have hpoint : (collect (p.vars.map (boundVarAt bv)) : Outcome Err (List ℝ))
      = ok (p.vars.map ρ) := by
    rw [← collect_map_ok]
    refine congrArg collect (List.map_congr_left fun v hv => ?_)
    rw [boundVarAt, hbv v hv]
    rfl
  have hterm : ∀ c ∈ p.coefficients,
      (do
        let monom ← evalMonomial (p.maxVarDegree.toNat + 1) c.offset.toInt32.toInt dVar 0
          (p.vars.map ρ) 1
        pure (c.value * monom) : Outcome Err ℝ)
      = ok (c.value * digitProduct loopSlope dVar (p.maxVarDegree.toNat + 1)
          c.offset.toInt32.toInt 0 (p.vars.map ρ)) := by
    intro c hc
    have hplace : ∀ j < 0 + (p.vars.map ρ).length, (p.maxVarDegree.toNat + 1) ^ j < 2 ^ 31 :=
      fun j hj => hp (List.ne_nil_of_mem hc) j (by simpa using hj)
    rw [evalMonomial_digitProduct hplace, ok_bind, one_mul]
    rfl
  rw [evalPolynomial, hpoint, ok_bind]
  dsimp only
  rw [List.map_congr_left hterm, collect_map_ok, ok_bind, pure_eq, Polynomial.sumDigits]
  have hsum := exact_id.sum (p.coefficients.map fun c => c.value * digitProduct loopSlope dVar
    (p.maxVarDegree.toNat + 1) c.offset.toInt32.toInt 0 (p.vars.map ρ))
  rw [List.map_id] at hsum
  exact congrArg ok hsum

/-- Where the variable `x` has the value `t`. -/
noncomputable def along (ρ : String → ℝ) (x : String) (t : ℝ) : String → ℝ :=
  fun v => if v = x then t else ρ v

theorem along_self (ρ : String → ℝ) (x : String) : along ρ x (ρ x) = ρ := by
  funext v
  rw [along]
  split
  · next h => rw [h]
  · rfl

theorem map_along_of_notMem {ρ : String → ℝ} {x : String} {vars : List String} (hx : x ∉ vars)
    (t : ℝ) : vars.map (along ρ x t) = vars.map ρ :=
  List.map_congr_left fun v hv => if_neg (by rintro rfl; exact hx hv)

/-- The derivative of a product of powers of distinct variables. -/
theorem hasDerivAt_digitProduct (φ : ℝ → ℤ → ℝ) (d : ℕ) (offset : ℤ) {ρ : String → ℝ}
    {x : String} {vars : List String} (hvars : vars.Nodup) (hx : x ∈ vars) {i : ℕ}
    (hreg : ρ x ≠ 0 ∨ 0 ≤ digit d offset (i + vars.idxOf x)) :
    HasDerivAt (fun t => digitProduct φ (-1) d offset i (vars.map (along ρ x t)))
      (digitProduct powSlope ((i + vars.idxOf x : ℕ) : ℤ) d offset i (vars.map ρ)) (ρ x) := by
  induction vars generalizing i with
  | nil => simp at hx
  | cons v vars ih =>
    rw [List.nodup_cons] at hvars
    have hneg : ¬ (-1 : ℤ) = i := by omega
    simp only [List.map_cons, digitProduct, if_neg hneg]
    by_cases hvx : v = x
    · -- the variable itself: the other factors do not depend on it
      subst hvx
      have hidx : i + (v :: vars).idxOf v = i := by rw [List.idxOf_cons_self]; rfl
      rw [hidx] at hreg ⊢
      have htail : ∀ t, digitProduct φ (-1) d offset (i + 1) (vars.map (along ρ v t))
          = digitProduct powSlope i d offset (i + 1) (vars.map ρ) := fun t => by
        rw [map_along_of_notMem hvars.1 t, digitProduct_congr (ψ := powSlope) (by omega)]
        exact digitProduct_dVar_congr (by push_cast; omega) (by push_cast; omega)
      simp only [htail, along, if_pos]
      exact (hasDerivAt_zpow _ (ρ v) hreg).mul_const _
    · have hmem : x ∈ vars := (List.mem_cons.mp hx).resolve_left (Ne.symm hvx)
      rw [List.idxOf_cons_ne _ hvx] at hreg ⊢
      have hshift : i + (vars.idxOf x + 1) = i + 1 + vars.idxOf x := by omega
      rw [Nat.succ_eq_add_one, hshift] at hreg ⊢
      have hne : ¬ ((i + 1 + vars.idxOf x : ℕ) : ℤ) = i := by push_cast; omega
      simp only [along, if_neg hvx, if_neg hne]
      exact (ih hvars.2 hmem hreg).const_mul _

theorem hasDerivAt_list_sum {α : Type} {l : List α} {f : α → ℝ → ℝ} {f' : α → ℝ} {t : ℝ}
    (h : ∀ c ∈ l, HasDerivAt (f c) (f' c) t) :
    HasDerivAt (fun s => (l.map fun c => f c s).sum) (l.map f').sum t := by
  induction l with
  | nil => exact hasDerivAt_const t 0
  | cons c l ih =>
    simp only [List.map_cons, List.sum_cons]
    exact (h c (by simp)).add (ih fun c hc => h c (by simp [hc]))

namespace Polynomial

variable {p : Polynomial ℝ} {ρ : String → ℝ} {x : String}

/-- No negative power of a variable that is zero. -/
def Regular (p : Polynomial ℝ) (ρ : String → ℝ) : Prop :=
  ∀ c ∈ p.coefficients, ∀ v ∈ p.vars, ρ v ≠ 0 ∨
    0 ≤ digit (p.maxVarDegree.toNat + 1) c.offset.toInt32.toInt (p.vars.idxOf v)

/-- **The derivative of a polynomial message** with respect to one of its variables. -/
theorem hasDerivAt_sumDigits (φ : ℝ → ℤ → ℝ) (hvars : p.vars.Nodup) (hreg : p.Regular ρ)
    (hx : x ∈ p.vars) :
    HasDerivAt (fun t => p.sumDigits φ (-1) (p.vars.map (along ρ x t)))
      (p.sumDigits powSlope (p.vars.idxOf x) (p.vars.map ρ)) (ρ x) := by
  refine hasDerivAt_list_sum fun c hc => ?_
  have h := hasDerivAt_digitProduct φ (p.maxVarDegree.toNat + 1) c.offset.toInt32.toInt hvars hx
    (i := 0) (by rw [Nat.zero_add]; exact hreg c hc x hx)
  rw [Nat.zero_add] at h
  exact h.const_mul c.value

/-- The loop computes the derivative, up to the negative powers. -/
theorem sumDigits_loopSlope (hx : x ∈ p.vars) (pt : List ℝ) (hpt : pt.length = p.vars.length) :
    p.sumDigits loopSlope (p.vars.idxOf x) pt
      = p.sumDigits powSlope (p.vars.idxOf x) pt
        + p.sumDigits slopeError (p.vars.idxOf x) pt := by
  have hlt : p.vars.idxOf x < pt.length := by
    rw [hpt]
    exact List.idxOf_lt_length_iff.mpr hx
  simp only [sumDigits, ← List.sum_map_add]
  refine congrArg List.sum (List.map_congr_left fun c _ => ?_)
  rw [digitProduct_loopSlope _ _ (by simp) (by simpa using hlt), mul_add]

end Polynomial

end Commelec
