/-
Commelec/TwoEncodings.lean

The two ways to encode a polynomial: the dedicated type `Polynomial`, written by
`buildPolynomial`, and a generic real expression, a sum of products of constants
and powers of variables.  Scalars are `NanReal`s, so that a logarithm of a number
that is not positive shows.

Both encodings have the same value.  Their derivatives differ where a variable of the
polynomial is not positive: the rule for a general power multiplies by the logarithm
of the base, also when the exponent is constant.
-/
import Commelec.BuilderMeaning
import Commelec.NanReal
import Commelec.PolynomialRoundTrip

namespace Commelec

open Effectful Outcome MvPolynomial NanReal

/-! ### The generic encoding -/

/-- `c * pow(X, k) * pow(Y, l) * ...` -/
def genericMonomial (t : Monomial ℝ) : Cv.Expr NanReal :=
  t.prodOfPowers.foldl
    (fun e p => Cv.mul e (Cv.pow (.var p.var.getName) (.real (fin p.pow))))
    (.real (fin t.coeff))

/-- The sum of the monomials. -/
def generic (s : MonomialSum ℝ) : Cv.Expr NanReal :=
  match s.monomials with
  | [] => .real (fin 0)
  | t :: ts => ts.foldl (fun e t => Cv.add e (genericMonomial t)) (genericMonomial t)

/-- The visits that differentiating a monomial with `L` powers takes. -/
def monomialVisits (L : ℕ) : ℕ := 1 + 8 * L + 2 * L ^ 2

/-- Evaluating it takes no more. -/
theorem monomialVisits_ge (L : ℕ) : 1 + 4 * L ≤ monomialVisits L := by
  simp only [monomialVisits]
  omega

/-- The visits that differentiating the generic encoding takes. -/
def genericVisits (s : MonomialSum ℝ) : ℕ :=
  match s.monomials with
  | [] => 1
  | t :: ts => monomialVisits t.prodOfPowers.length
      + (ts.map fun t => 1 + monomialVisits t.prodOfPowers.length).sum

/-! ### Building, evaluating and differentiating -/

section Derives

variable {R : Type} [Double R] {boundVars : ValueMap R} {realExprRefs : RealExprRefMap R}
  {diffVariable : String}

/-- The message `msg` is built for `e`; evaluating it takes `n` visits and gives `x`,
differentiating it takes `k` visits and gives `dx`. -/
structure DerivesTo (boundVars : ValueMap R) (realExprRefs : RealExprRefMap R)
    (diffVariable : String) (e : Cv.Expr R) (msg : RealExpr R) (n k : ℕ) (x dx : R) : Prop
    extends BuildsTo boundVars realExprRefs e msg n x where
  derives : ∀ fuel, n ≤ fuel →
    Metered k dx (evalPartialDerivative (methods boundVars realExprRefs) diffVariable fuel msg)

namespace DerivesTo

theorem real (x : R) :
    DerivesTo boundVars realExprRefs diffVariable (.real x) (.real none x) 1 1 x 0 where
  toBuildsTo := .real x
  derives := by
    intro fuel hfuel
    obtain ⟨k, rfl⟩ : ∃ k, fuel = k + 1 := ⟨fuel - 1, by omega⟩
    exact metered_derivReal x

theorem var {v : String} {x : R} (hv : boundVars v = some x) :
    DerivesTo boundVars realExprRefs diffVariable (.var v) (.var none v) 1 1 x
      (if v = diffVariable then 1 else 0) where
  toBuildsTo := .var hv
  derives := by
    intro fuel hfuel
    obtain ⟨k, rfl⟩ : ∃ k, fuel = k + 1 := ⟨fuel - 1, by omega⟩
    exact metered_derivVar hv

variable {a b : Cv.Expr R} {msgA msgB : RealExpr R} {n k i j : ℕ} {x y dx dy : R}

theorem add (ha : DerivesTo boundVars realExprRefs diffVariable a msgA n i x dx)
    (hb : DerivesTo boundVars realExprRefs diffVariable b msgB k j y dy) :
    DerivesTo boundVars realExprRefs diffVariable (Cv.add a b)
      (.binaryOperation none .sum msgA msgB) (1 + (n + k)) (1 + (i + j)) (x + y) (dx + dy) where
  toBuildsTo := .binaryOp rfl ha.toBuildsTo hb.toBuildsTo
  derives := by
    intro fuel hfuel
    obtain ⟨f, rfl⟩ : ∃ f, fuel = f + 1 := ⟨fuel - 1, by omega⟩
    exact metered_derivBinary (metered_sumRule (ha.derives f (by omega))
      (hb.derives f (by omega)))

theorem mul (ha : DerivesTo boundVars realExprRefs diffVariable a msgA n i x dx)
    (hb : DerivesTo boundVars realExprRefs diffVariable b msgB k j y dy) :
    DerivesTo boundVars realExprRefs diffVariable (Cv.mul a b)
      (.binaryOperation none .prod msgA msgB) (1 + (n + k)) (1 + (n + (j + (k + i))))
      (x * y) (x * dy + y * dx) where
  toBuildsTo := .binaryOp rfl ha.toBuildsTo hb.toBuildsTo
  derives := by
    intro fuel hfuel
    obtain ⟨f, rfl⟩ : ∃ f, fuel = f + 1 := ⟨fuel - 1, by omega⟩
    exact metered_derivBinary (metered_prodRule (ha.metered f (by omega))
      (hb.metered f (by omega)) (ha.derives f (by omega)) (hb.derives f (by omega)))

theorem pow (ha : DerivesTo boundVars realExprRefs diffVariable a msgA n i x dx)
    (hb : DerivesTo boundVars realExprRefs diffVariable b msgB k j y dy) :
    DerivesTo boundVars realExprRefs diffVariable (Cv.pow a b)
      (.binaryOperation none .pow msgA msgB) (1 + (n + k)) (1 + (n + (k + (i + j))))
      (Double.pow x y) (Double.pow x (y - 1) * (y * dx + x * Double.log x * dy)) where
  toBuildsTo := .binaryOp rfl ha.toBuildsTo hb.toBuildsTo
  derives := by
    intro fuel hfuel
    obtain ⟨f, rfl⟩ : ∃ f, fuel = f + 1 := ⟨fuel - 1, by omega⟩
    exact metered_derivBinary (metered_powRule (ha.metered f (by omega))
      (hb.metered f (by omega)) (ha.derives f (by omega)) (hb.derives f (by omega)))

end DerivesTo

end Derives

/-! ### Powers, monomials and sums -/

section Generic

variable {boundVars : ValueMap NanReal} {realExprRefs : RealExprRefMap NanReal}
  {diffVariable : String} {ρ : String → ℝ}

/-- The general power rule at a constant natural exponent: right for a positive base,
not a number for any other. -/
theorem powRule_natural (r : ℝ) (k : ℕ) (δ : ℝ) :
    Double.pow (fin r) (fin k - 1)
        * (fin k * fin δ + fin r * Double.log (fin r) * fin 0)
      = finIf (0 < r) (k * r ^ (k - 1) * δ) := by
  rw [fin_log]
  by_cases hr : 0 < r
  · rw [finIf_pos hr, finIf_pos hr]
    have hpow : Double.pow (fin r) (fin k - 1) = fin (r ^ ((k : ℝ) - 1)) := by
      have h := fin_pow_int ((k : ℤ) - 1) (Or.inl hr.ne')
      push_cast at h
      exact h
    rw [hpow]
    simp only [fin_mul, fin_add]
    congr 1
    obtain - | k := k
    · simp
    · push_cast
      rw [add_sub_cancel_right, Real.rpow_natCast]
      ring
  · rw [finIf_neg hr, finIf_neg hr]
    simp

/-- The generic encoding of the polynomial `P`, whose derivative is a number if `pos`
holds. -/
def Encodes (boundVars : ValueMap NanReal) (realExprRefs : RealExprRefMap NanReal)
    (diffVariable : String) (ρ : String → ℝ) (e : Cv.Expr NanReal) (n k : ℕ)
    (P : MvPolynomial String ℝ) (pos : Prop) : Prop :=
  ∃ msg, DerivesTo boundVars realExprRefs diffVariable e msg n k (fin (eval ρ P))
    (finIf pos (eval ρ (pderiv diffVariable P)))

namespace Encodes

variable {e e' : Cv.Expr NanReal} {n n' k k' : ℕ} {P Q : MvPolynomial String ℝ} {p q : Prop}

theorem const (c : ℝ) :
    Encodes boundVars realExprRefs diffVariable ρ (.real (fin c)) 1 1 (C c) True := by
  refine ⟨.real none (fin c), ?_⟩
  rw [eval_C, pderiv_C, map_zero, finIf_true]
  exact .real (fin c)

/-- `pow(X, k)`. -/
theorem power {v : String} (hv : boundVars v = some (fin (ρ v))) (k : ℕ) :
    Encodes boundVars realExprRefs diffVariable ρ (Cv.pow (.var v) (.real (fin k))) 3 5
      (X v ^ k) (0 < ρ v) := by
  have hδ : (if v = diffVariable then (1 : NanReal) else 0)
      = fin (if v = diffVariable then 1 else 0) := by
    split <;> rfl
  have hderiv : eval ρ (pderiv diffVariable ((X v : MvPolynomial String ℝ) ^ k))
      = k * ρ v ^ (k - 1) * if v = diffVariable then 1 else 0 := by
    rw [pderiv_pow]
    by_cases hvx : v = diffVariable
    · subst hvx
      simp
    · rw [pderiv_X_of_ne hvx]
      simp [hvx]
  have hvar : DerivesTo boundVars realExprRefs diffVariable (.var v) (.var none v) 1 1
      (fin (ρ v)) (if v = diffVariable then 1 else 0) := .var hv
  have h := hvar.pow (.real (fin (k : ℝ)))
  rw [hδ, zero_eq, powRule_natural, exact_fin.pow] at h
  rw [Encodes, hderiv, map_pow, eval_X]
  exact ⟨_, h⟩

theorem mul (h : Encodes boundVars realExprRefs diffVariable ρ e n k P p)
    (h' : Encodes boundVars realExprRefs diffVariable ρ e' n' k' Q q) :
    Encodes boundVars realExprRefs diffVariable ρ (Cv.mul e e') (1 + (n + n'))
      (1 + (n + (k' + (n' + k)))) (P * Q) (q ∧ p) := by
  obtain ⟨msg, h⟩ := h
  obtain ⟨msg', h'⟩ := h'
  have hmul := h.mul h'
  rw [fin_mul_finIf, fin_mul_finIf, finIf_add, fin_mul] at hmul
  refine ⟨.binaryOperation none .prod msg msg', ?_⟩
  have hderiv : eval ρ (pderiv diffVariable (P * Q))
      = eval ρ P * eval ρ (pderiv diffVariable Q)
        + eval ρ Q * eval ρ (pderiv diffVariable P) := by
    rw [pderiv_mul, map_add, map_mul, map_mul]
    ring
  rw [map_mul, hderiv]
  exact hmul

theorem add (h : Encodes boundVars realExprRefs diffVariable ρ e n k P p)
    (h' : Encodes boundVars realExprRefs diffVariable ρ e' n' k' Q q) :
    Encodes boundVars realExprRefs diffVariable ρ (Cv.add e e') (1 + (n + n'))
      (1 + (k + k')) (P + Q) (p ∧ q) := by
  obtain ⟨msg, h⟩ := h
  obtain ⟨msg', h'⟩ := h'
  have hadd := h.add h'
  rw [finIf_add, fin_add] at hadd
  refine ⟨.binaryOperation none .sum msg msg', ?_⟩
  rw [map_add, map_add, map_add]
  exact hadd

/-- The loop over the powers of a monomial. -/
theorem powers (powers : List Power) (hpow : ∀ r ∈ powers, 0 ≤ r.pow)
    (hbv : ∀ r ∈ powers, boundVars r.var.getName = some (fin (ρ r.var.getName)))
    (h : Encodes boundVars realExprRefs diffVariable ρ e n k P p) :
    Encodes boundVars realExprRefs diffVariable ρ
      (powers.foldl (fun e p => Cv.mul e (Cv.pow (.var p.var.getName) (.real (fin p.pow)))) e)
      (n + 4 * powers.length) (k + powers.length * (7 + n) + 2 * powers.length ^ 2)
      (P * (powers.map fun r => X r.var.getName ^ r.pow.toNat).prod)
      ((∀ r ∈ powers, 0 < ρ r.var.getName) ∧ p) := by
  induction powers generalizing e n k P p with
  | nil => simpa using h
  | cons r powers ih =>
    obtain ⟨i, hi⟩ : ∃ i : ℕ, r.pow = i := Int.eq_ofNat_of_zero_le (hpow r (by simp))
    have hr : Encodes boundVars realExprRefs diffVariable ρ
        (Cv.pow (.var r.var.getName) (.real (fin r.pow))) 3 5
        (X r.var.getName ^ r.pow.toNat) (0 < ρ r.var.getName) := by
      rw [hi, Int.toNat_natCast, Int.cast_natCast]
      exact power (hbv r (by simp)) i
    have htail := ih (fun q hq => hpow q (by simp [hq])) (fun q hq => hbv q (by simp [hq]))
      (h.mul hr)
    have hn : n + 4 * (powers.length + 1) = 1 + (n + 3) + 4 * powers.length := by omega
    have hk : k + (powers.length + 1) * (7 + n) + 2 * (powers.length + 1) ^ 2
        = 1 + (n + (5 + (3 + k))) + powers.length * (7 + (1 + (n + 3)))
          + 2 * powers.length ^ 2 := by ring
    have hpos : ((∀ q ∈ r :: powers, 0 < ρ q.var.getName) ∧ p)
        ↔ (∀ q ∈ powers, 0 < ρ q.var.getName) ∧ 0 < ρ r.var.getName ∧ p := by
      rw [List.forall_mem_cons]
      tauto
    rw [hpos, List.foldl_cons, List.map_cons, List.prod_cons, ← mul_assoc, List.length_cons,
      hn, hk]
    exact htail

theorem monomial {t : Monomial ℝ} (hpow : ∀ r ∈ t.prodOfPowers, 0 ≤ r.pow)
    (hbv : ∀ r ∈ t.prodOfPowers, boundVars r.var.getName = some (fin (ρ r.var.getName))) :
    Encodes boundVars realExprRefs diffVariable ρ (genericMonomial t)
      (1 + 4 * t.prodOfPowers.length) (monomialVisits t.prodOfPowers.length)
      (C t.coeff * (t.prodOfPowers.map fun r => X r.var.getName ^ r.pow.toNat).prod)
      (∀ r ∈ t.prodOfPowers, 0 < ρ r.var.getName) := by
  have hconst : Encodes boundVars realExprRefs diffVariable ρ (.real (fin t.coeff)) 1 1
      (C t.coeff) True := const t.coeff
  have hvisits : monomialVisits t.prodOfPowers.length
      = 1 + t.prodOfPowers.length * (7 + 1) + 2 * t.prodOfPowers.length ^ 2 := by
    simp only [monomialVisits]
    ring
  rw [hvisits, ← and_true (∀ r ∈ t.prodOfPowers, 0 < ρ r.var.getName)]
  exact powers t.prodOfPowers hpow hbv hconst

/-- The loop over the monomials. -/
theorem monomials (ts : List (Monomial ℝ))
    (hpow : ∀ t ∈ ts, ∀ r ∈ t.prodOfPowers, 0 ≤ r.pow)
    (hbv : ∀ t ∈ ts, ∀ r ∈ t.prodOfPowers,
      boundVars r.var.getName = some (fin (ρ r.var.getName)))
    (hnk : n ≤ k) (h : Encodes boundVars realExprRefs diffVariable ρ e n k P p) :
    ∃ n' ≤ k + (ts.map fun t => 1 + monomialVisits t.prodOfPowers.length).sum,
      Encodes boundVars realExprRefs diffVariable ρ
      (ts.foldl (fun e t => Cv.add e (genericMonomial t)) e) n'
      (k + (ts.map fun t => 1 + monomialVisits t.prodOfPowers.length).sum)
      (P + (ts.map fun t =>
        C t.coeff * (t.prodOfPowers.map fun r => X r.var.getName ^ r.pow.toNat).prod).sum)
      (p ∧ ∀ t ∈ ts, ∀ r ∈ t.prodOfPowers, 0 < ρ r.var.getName) := by
  induction ts generalizing e n k P p with
  | nil => exact ⟨n, by simpa using hnk, by simpa using h⟩
  | cons t ts ih =>
    have ht := h.add (monomial (hpow t (by simp)) (hbv t (by simp)))
    have hle := monomialVisits_ge t.prodOfPowers.length
    obtain ⟨n', hn', htail⟩ := ih (fun u hu => hpow u (by simp [hu]))
      (fun u hu => hbv u (by simp [hu])) (by omega) ht
    have hk : ∀ i j : ℕ, k + (1 + i + j) = 1 + (k + i) + j := fun i j => by omega
    refine ⟨n', by rwa [List.map_cons, List.sum_cons, hk], ?_⟩
    rw [List.foldl_cons, List.map_cons, List.sum_cons, List.map_cons, List.sum_cons,
      List.forall_mem_cons, ← and_assoc, hk, ← add_assoc P]
    exact htail

/-- **The generic encoding** has the value of the polynomial, and the value of its
formal derivative if all variables are positive. -/
theorem generic (s : MonomialSum ℝ) (hpow : ∀ t ∈ s.monomials, ∀ r ∈ t.prodOfPowers, 0 ≤ r.pow)
    (hbv : ∀ v ∈ s.vars, boundVars v = some (fin (ρ v))) :
    ∃ n ≤ genericVisits s, Encodes boundVars realExprRefs diffVariable ρ (Commelec.generic s) n
      (genericVisits s) s.toMvPolynomial (∀ v ∈ s.vars, 0 < ρ v) := by
  have hvars : ∀ t ∈ s.monomials, ∀ r ∈ t.prodOfPowers, r.var.getName ∈ s.vars :=
    fun t ht r hr => s.mem_vars.mpr ⟨t, ht, r, hr, rfl⟩
  have hbv' := fun t ht r hr => hbv _ (hvars t ht r hr)
  have hpos : (∀ v ∈ s.vars, 0 < ρ v)
      ↔ ∀ t ∈ s.monomials, ∀ r ∈ t.prodOfPowers, 0 < ρ r.var.getName := by
    constructor
    · exact fun h t ht r hr => h _ (hvars t ht r hr)
    · intro h v hv
      obtain ⟨t, ht, r, hr, rfl⟩ := s.mem_vars.mp hv
      exact h t ht r hr
  rw [hpos]
  rw [Commelec.generic, genericVisits, MonomialSum.toMvPolynomial]
  rcases hs : s.monomials with - | ⟨t, ts⟩
  · refine ⟨1, le_rfl, ?_⟩
    have h : Encodes boundVars realExprRefs diffVariable ρ (.real (fin 0)) 1 1 (C 0) True :=
      const 0
    simpa using h
  · rw [hs] at hpow hbv'
    obtain ⟨n, hn, h⟩ := monomials ts (fun u hu => hpow u (by simp [hu]))
      (fun u hu => hbv' u (by simp [hu])) (monomialVisits_ge _)
      (monomial (hpow t (by simp)) (hbv' t (by simp)))
    refine ⟨n, hn, ?_⟩
    rw [List.map_cons, List.sum_cons, List.forall_mem_cons]
    exact h

end Encodes

end Generic

/-! ### Agreement -/

/-- A value map of finite numbers. -/
def finite (bv : ValueMap ℝ) : ValueMap NanReal := fun v => (bv v).map fin

/-- Both encodings can be built, and give the same outcome when they are evaluated and
when they are differentiated with respect to `x`. -/
def EncodingsAgree (s : MonomialSum ℝ) (af : AdvFunc NanReal) (bv : ValueMap ℝ) (x : String) :
    Prop :=
  ∃ poly msg, (buildPolynomial (s.map fin) : Outcome Err (Polynomial NanReal)) = ok poly ∧
    (Cv.buildRealExpr (generic s) : Outcome Err (RealExpr NanReal)) = ok msg ∧
    (∃ o, AdvFunc.Ends (fun n => AdvFunc.evaluate n (.polynomial none poly) (finite bv)) af o ∧
      AdvFunc.Ends (fun n => AdvFunc.evaluate n msg (finite bv)) af o) ∧
    ∃ o, AdvFunc.Ends
        (fun n => AdvFunc.evalPartialDerivative n (.polynomial none poly) x (finite bv)) af o ∧
      AdvFunc.Ends (fun n => AdvFunc.evalPartialDerivative n msg x (finite bv)) af o

namespace MonomialSum.Legible

variable {s : MonomialSum ℝ} (h : s.Legible) {af : AdvFunc NanReal} (hv : af.advValid = true)
  {bv : ValueMap ℝ} (hbv : ∀ v ∈ s.vars, (bv v).isSome) (x : String)

include h in
omit hv hbv in
theorem map_fin : (s.map fin).Legible := by
  have hbase : (s.map fin).base = s.base := by rw [base, maxVarDegree_map, base]
  refine { nonneg := ?_, degree := ?_, place := ?_, offset := ?_, exponent_lt := ?_ }
  · exact List.forall_mem_map.mpr h.nonneg
  · rw [maxVarDegree_map]
    exact h.degree
  · rw [vars_map, hbase]
    exact h.place
  · rw [vars_map, hbase]
    exact List.forall_mem_map.mpr h.offset
  · rw [hbase]
    exact List.forall_mem_map.mpr h.exponent_lt

include hbv in
theorem finite_eq : ∀ v ∈ s.vars, finite bv v = some (fin ((bv v).getD 0)) := by
  intro v hv
  obtain ⟨r, hr⟩ := Option.isSome_iff_exists.mp (hbv v hv)
  rw [finite, hr]
  rfl

include h hv hbv

/-- The outcomes of the dedicated encoding. -/
theorem ends_dedicated :
    AdvFunc.Ends (fun n => AdvFunc.evaluate n (.polynomial none (s.map fin).encoded) (finite bv))
        af (ok (fin (eval (fun v => (bv v).getD 0) s.toMvPolynomial))) ∧
      AdvFunc.Ends (fun n => AdvFunc.evalPartialDerivative n
          (.polynomial none (s.map fin).encoded) x (finite bv)) af
        (ok (fin (eval (fun v => (bv v).getD 0) (pderiv x s.toMvPolynomial)))) := by
  have heval := h.evalPolynomial_eq exact_fin (finite_eq hbv)
  have hderiv := h.derivPolynomial_eq exact_fin (finite_eq hbv) x
  rw [← s.eval_toMvPolynomial] at heval
  constructor
  · refine ⟨1, fun n hn => ?_⟩
    obtain ⟨k, rfl⟩ : ∃ k, n = k + 1 := ⟨n - 1, by omega⟩
    exact ((metered_polynomial heval).query hv).trans (if_pos (by decide))
  · refine ⟨1, fun n hn => ?_⟩
    obtain ⟨k, rfl⟩ : ∃ k, n = k + 1 := ⟨n - 1, by omega⟩
    exact ((metered_derivPolynomial hderiv).query hv).trans (if_pos (by decide))

/-- The outcomes of the generic encoding. -/
theorem ends_generic : ∃ msg n, n ≤ genericVisits s ∧
    (Cv.buildRealExpr (generic s) : Outcome Err (RealExpr NanReal)) = ok msg ∧
    AdvFunc.Ends (fun n => AdvFunc.evaluate n msg (finite bv)) af
      (if n ≤ MAX_NESTING_DEPTH then
        ok (fin (eval (fun v => (bv v).getD 0) s.toMvPolynomial)) else .throw maxNesting) ∧
    AdvFunc.Ends (fun n => AdvFunc.evalPartialDerivative n msg x (finite bv)) af
      (if genericVisits s ≤ MAX_NESTING_DEPTH then
        ok (finIf (∀ v ∈ s.vars, 0 < (bv v).getD 0)
          (eval (fun v => (bv v).getD 0) (pderiv x s.toMvPolynomial)))
      else .throw maxNesting) := by
  obtain ⟨n, hn, msg, hmsg⟩ : ∃ n ≤ genericVisits s, Encodes (finite bv) af.realExprRefs x
      (fun v => (bv v).getD 0) (generic s) n (genericVisits s) s.toMvPolynomial
      (∀ v ∈ s.vars, 0 < (bv v).getD 0) := Encodes.generic s h.nonneg (finite_eq hbv)
  exact ⟨msg, n, hn, hmsg.built, ⟨n, fun fuel hfuel => (hmsg.metered fuel hfuel).query hv⟩,
    n, fun fuel hfuel => (hmsg.derives fuel hfuel).query hv⟩

/-- Where the encodings agree, the derivative of the generic one is a number. -/
theorem pos_of_agree (hagree : EncodingsAgree s af bv x) :
    genericVisits s ≤ MAX_NESTING_DEPTH ∧ ∀ v ∈ s.vars, 0 < (bv v).getD 0 := by
  obtain ⟨-, hderivD⟩ := h.ends_dedicated hv hbv x
  obtain ⟨msg, n, -, hmsg, -, hderivG⟩ := h.ends_generic hv hbv x
  obtain ⟨poly, msg', hpoly, hmsg', -, o, hoD, hoG⟩ := hagree
  obtain rfl : msg = msg' := Outcome.ok.inj (hmsg.symm.trans hmsg')
  obtain rfl : (s.map fin).encoded = poly :=
    Outcome.ok.inj (h.map_fin.buildPolynomial_eq.symm.trans hpoly)
  have heq := (hderivG.unique hoG).trans (hoD.unique hderivD)
  split at heq
  · next hvisits => exact ⟨hvisits, (finIf_eq_fin_iff.mp (Outcome.ok.inj heq)).1⟩
  · cases heq

end MonomialSum.Legible

/-- **When the two encodings agree.**  For a polynomial that the message can hold, they agree
exactly when the visits do not run over and all its variables are positive. -/
theorem encodingsAgree_iff {s : MonomialSum ℝ} (h : s.Legible) {af : AdvFunc NanReal}
    (hv : af.advValid = true) {bv : ValueMap ℝ} (hbv : ∀ v ∈ s.vars, (bv v).isSome)
    (x : String) :
    EncodingsAgree s af bv x ↔
      genericVisits s ≤ MAX_NESTING_DEPTH ∧ ∀ v ∈ s.vars, 0 < (bv v).getD 0 := by
  constructor
  · exact h.pos_of_agree hv hbv x
  · rintro ⟨hvisits, hpos⟩
    obtain ⟨hevalD, hderivD⟩ := h.ends_dedicated hv hbv x
    obtain ⟨msg, n, hn, hmsg, hevalG, hderivG⟩ := h.ends_generic hv hbv x
    rw [if_pos (hn.trans hvisits)] at hevalG
    rw [if_pos hvisits, finIf_pos hpos] at hderivG
    exact ⟨_, msg, h.map_fin.buildPolynomial_eq, hmsg, ⟨_, hevalD, hevalG⟩,
      _, hderivD, hderivG⟩

/-- At a positive point, for the polynomial `P^2 + 3*P*Q^3`. -/
theorem encodingsAgree_iff_sample :
    EncodingsAgree samplePolynomial (AdvFunc.new ⟨none, none, none, []⟩).2 (bindPQ 3 5) "P" := by
  have hvars : samplePolynomial.vars = ["P", "Q"] := by decide
  have hv : ((AdvFunc.new ⟨none, none, none, []⟩).2 : AdvFunc NanReal).advValid = true := rfl
  refine (encodingsAgree_iff samplePolynomial_fits.legible hv ?_ "P").mpr ⟨by decide, ?_⟩
  · simp [hvars]
  · simp [hvars]

/-- At the negative active powers that a load advertises: `P^2 + 3*P*Q^3`, `P = -1`. -/
theorem encodings_differ :
    ¬ EncodingsAgree samplePolynomial (AdvFunc.new ⟨none, none, none, []⟩).2
      (bindPQ (-1) 5) "P" := by
  have hvars : samplePolynomial.vars = ["P", "Q"] := by decide
  have hv : ((AdvFunc.new ⟨none, none, none, []⟩).2 : AdvFunc NanReal).advValid = true := rfl
  have hbv : ∀ v ∈ samplePolynomial.vars, (bindPQ (-1 : ℝ) 5 v).isSome := by simp [hvars]
  intro hagree
  have hpos := (samplePolynomial_fits.legible.pos_of_agree hv hbv "P" hagree).2 "P"
    (by simp [hvars])
  norm_num at hpos

end Commelec
