/-
Commelec/FatalTasks.lean

Which tasks lose the process?

A method fails to return in three ways that no handler can deal with: a failed assertion, a
`throw;` without an exception, and behaviour that C++ leaves undefined.  Each comes from a few
kinds of nodes:

* an operation that the schema does not know, or a polynomial with a power that is no `int`
  (`RealExpr.EvalUndefined`, `RealExpr.DerivUndefined`);
* a matrix without rows or with rows of different lengths, and the derivative of an expression of
  an unknown kind (`Task.BareThrow`);
* sizes that do not fit (`Task.Misfit`), or that an assertion compares (`Task.asserted`).

A task is lost exactly if it comes to a node of these kinds (`exists_raises_iff`).
-/
import Commelec.Builds
import Commelec.OutsideAccess

namespace Commelec

open Effectful Outcome Double

variable {R : Type}

/-! ### Evaluation without a defined result -/

/-- The variables have values, and one of the monomials needs a power of `d` that is no `int`.
The derivative of a monomial may be found to be zero before. -/
def Polynomial.TooLarge (bv : ValueMap R) (dVar : ℤ) (poly : Polynomial R) : Prop :=
  let d := poly.maxVarDegree.toNat + 1
  (∀ v ∈ poly.vars, bv v ≠ none) ∧
    ∃ coeff ∈ poly.coefficients, ∃ j < poly.vars.length, 2 ^ 31 ≤ d ^ j ∧
      ∀ i < j, dVar = i → (coeff.offset.toInt32.toInt.tdiv ((d ^ i : ℕ) : ℤ)).tmod d ≠ 0

/-- The evaluation of the expression has no defined result. -/
def RealExpr.EvalUndefined (bv : ValueMap R) : RealExpr R → Prop
  | .unaryOperation _ (.unknown _) _ | .binaryOperation _ (.unknown _) _ _
  | .listOperation _ (.unknown _) _ | .unknown _ _ => True
  | .polynomial _ poly => poly.TooLarge bv (-1)
  | _ => False

/-- The derivative has none. -/
def RealExpr.DerivUndefined (bv : ValueMap R) (x : String) : RealExpr R → Prop
  | .unaryOperation _ (.unknown _) _ | .binaryOperation _ (.unknown _) _ _
  | .listOperation _ (.unknown _) _ => True
  | .polynomial _ poly => x ∈ poly.vars ∧ poly.TooLarge bv (poly.vars.idxOf x)
  | _ => False

variable [Double R]

/-- The loop over the variables of one monomial computes a power of `d` that is no `int`. -/
theorem evalMonomial_undefined (d : ℕ) (offset dVar : ℤ) (var : ℕ) (pt : List R) (monom : R) :
    (evalMonomial d offset dVar var pt monom : Outcome Err R) = .throw .undefined ↔
      ∃ j, var ≤ j ∧ j < var + pt.length ∧ 2 ^ 31 ≤ d ^ j ∧
        ∀ i, var ≤ i → i < j → dVar = i → (offset.tdiv ((d ^ i : ℕ) : ℤ)).tmod d ≠ 0 := by
  -- on the variables that are left, the first of which has the number `var`
  induction pt generalizing var monom with
  | nil =>
    refine iff_of_false (by simp [evalMonomial]) ?_
    rintro ⟨j, hj, hlt, -⟩
    exact absurd hj (by simpa using hlt)
  | cons x pt ih =>
    rw [evalMonomial, intPow]
    by_cases hpow : d ^ var < 2 ^ 31
    · -- the next variable, unless the derivative is found to be zero
      have hnext : (∃ j, var + 1 ≤ j ∧ j < var + 1 + pt.length ∧ 2 ^ 31 ≤ d ^ j ∧
            ∀ i, var + 1 ≤ i → i < j → dVar = i → (offset.tdiv ((d ^ i : ℕ) : ℤ)).tmod d ≠ 0) ∧
          (dVar = var → (offset.tdiv ((d ^ var : ℕ) : ℤ)).tmod d ≠ 0) ↔
          ∃ j, var ≤ j ∧ j < var + (x :: pt).length ∧ 2 ^ 31 ≤ d ^ j ∧
            ∀ i, var ≤ i → i < j → dVar = i → (offset.tdiv ((d ^ i : ℕ) : ℤ)).tmod d ≠ 0 := by
        constructor
        · rintro ⟨⟨j, hj, hlt, hlarge, hall⟩, hvar⟩
          refine ⟨j, by omega, by rw [List.length_cons]; omega, hlarge, fun i hi hij => ?_⟩
          rcases hi.eq_or_lt with rfl | hi
          · exact hvar
          · exact hall i hi hij
        · rintro ⟨j, hj, hlt, hlarge, hall⟩
          have hne : var ≠ j := by
            rintro rfl
            exact absurd hlarge (not_le.mpr hpow)
          rw [List.length_cons] at hlt
          exact ⟨⟨j, by omega, by omega, hlarge, fun i hi => hall i (by omega)⟩,
            hall var le_rfl (by omega)⟩
      rw [if_pos hpow, pure_eq, ok_bind, ← hnext]
      dsimp only
      by_cases hvar : dVar = var
      · rw [if_pos hvar]
        by_cases hrem : (offset.tdiv ((d ^ var : ℕ) : ℤ)).tmod d = 0
        · rw [if_pos hrem]
          exact iff_of_false (by simp) fun h => h.2 hvar hrem
        · rw [if_neg hrem, and_iff_left fun _ => hrem]
          split
          · exact ih _ _
          · exact ih _ _
      · rw [if_neg hvar, and_iff_left fun h => absurd h hvar]
        exact ih _ _
    · rw [if_neg hpow]
      refine iff_of_true rfl ⟨var, le_rfl, ?_, not_lt.mp hpow, fun i hi hij => ?_⟩
      · rw [List.length_cons]
        omega
      · omega

/-- The loop over the variables of one monomial returns, unless a power is no `int`. -/
theorem evalMonomial_cases (d : ℕ) (offset dVar : ℤ) (var : ℕ) (pt : List R) (monom : R) :
    (∃ x, (evalMonomial d offset dVar var pt monom : Outcome Err R) = ok x) ∨
      (evalMonomial d offset dVar var pt monom : Outcome Err R) = .throw .undefined := by
  induction pt generalizing var monom with
  | nil => exact .inl ⟨monom, rfl⟩
  | cons x pt ih =>
    rw [evalMonomial, intPow]
    by_cases hpow : d ^ var < 2 ^ 31
    · rw [if_pos hpow, pure_eq, ok_bind]
      dsimp only
      split
      · split
        · exact .inl ⟨0, rfl⟩
        · split
          · exact ih _ _
          · exact ih _ _
      · exact ih _ _
    · rw [if_neg hpow]
      exact .inr rfl

theorem evalPolynomial_undefined (bv : ValueMap R) (poly : Polynomial R) (dVar : ℤ) :
    (evalPolynomial bv poly dVar : Outcome Err R) = .throw .undefined ↔ poly.TooLarge bv dVar := by
  -- a variable without value ends the evaluation with an exception
  have hvar : ∀ v, Spares .undefined (boundVarAt bv v : Outcome Err R) := by
    intro v
    rw [boundVarAt]
    split
    · exact .pure _
    · exact .raise (by simp)
  have hvars : Spares .undefined (collect (poly.vars.map (boundVarAt bv)) : Outcome Err (List R)) :=
    spares_map hvar poly.vars
  rw [Polynomial.TooLarge, evalPolynomial, hvars.bind_eq_throw_iff fun pt hpt => ?_]
  · refine and_congr_left fun _ => exists_collect_map_iff.trans (forall₂_congr fun v _ => ?_)
    rw [boundVarAt]
    cases bv v with
    | none => simp
    | some x => simp
  · have hlen : pt.length = poly.vars.length := by simpa using collect_length hpt
    dsimp only
    rw [bind_eq_throw, or_iff_left (by simp), collect_eq_throw ?_, List.mem_map]
    · refine exists_congr fun coeff => and_congr_right fun _ => ?_
      rw [bind_eq_throw, or_iff_left (by simp), evalMonomial_undefined, hlen]
      simp only [Nat.zero_le, true_and, Nat.zero_add, forall_const]
    · intro x hx
      obtain ⟨coeff, -, rfl⟩ := List.mem_map.mp hx
      -- a monomial has a value, or is the one that is not defined
      rcases evalMonomial_cases (poly.maxVarDegree.toNat + 1) coeff.offset.toInt32.toInt dVar 0 pt 1
        with ⟨v, hv⟩ | hthrow
      · exact .inl ⟨coeff.value * v, by rw [hv]; rfl⟩
      · exact .inr (by rw [hthrow]; rfl)

section Evaluation

variable {c : Calls R (Outcome Err)} (hc : SparingCalls .undefined c) (env : Env R)

omit [Double R] in
theorem notFromLookups_undefined : NotFromLookups .undefined := by
  constructor <;> simp

include hc

theorem evalRealExpr_undefined (e : RealExpr R) :
    evalRealExpr env.self c e = .throw .undefined ↔ e.EvalUndefined env.boundVars := by
  cases e with
  | real n v => exact iff_of_false (Spares.pure v) id
  | unaryOperation n op a =>
    cases op with
    | unknown w => exact iff_of_true rfl trivial
    | _ => exact iff_of_false ((hc.1 a).map _) id
  | binaryOperation n op a b =>
    have hbinary : ∀ f : R → R → R, binaryFun op = some f →
        Spares .undefined (evalBinaryOperation op (c.eval a) (c.eval b)) := by
      intro f hf
      rw [evalBinaryOperation_eq hf]
      exact ((hc.1 b).bind fun _ => (hc.1 a).map _).ite ((hc.1 a).bind fun _ => (hc.1 b).map _)
    cases op with
    | unknown w => exact iff_of_true rfl trivial
    | _ => exact iff_of_false (hbinary _ rfl) id
  | listOperation n op as =>
    cases op with
    | unknown w => exact iff_of_true rfl trivial
    | _ => exact iff_of_false ((spares_map hc.1 as).map _) id
  | polynomial n p => exact evalPolynomial_undefined _ p (-1)
  | caseDistinction n vars cs =>
    refine iff_of_false (spares_caseDistinction notFromLookups_undefined _ _ fun x hx => ?_) id
    obtain ⟨c', -, rfl⟩ := List.mem_map.mp hx
    exact ⟨hc.2 _, hc.1 _⟩
  | reference n ref =>
    exact iff_of_false (spares_derefReal notFromLookups_undefined _ _ _ hc.1) id
  | var n v =>
    refine iff_of_false ?_ id
    show Spares _ (evalVar env.self v)
    rw [evalVar]
    split
    · exact .pure _
    · exact .raise (by simp)
  | unknown n w => exact iff_of_true rfl trivial

theorem derivRealExpr_undefined {pd : RealExpr R → Outcome Err R}
    (hpd : ∀ e, Spares .undefined (pd e)) (x : String) (e : RealExpr R) :
    derivRealExpr env.self c pd x e = .throw .undefined ↔ e.DerivUndefined env.boundVars x := by
  cases e with
  | real n v => exact iff_of_false (Spares.pure _) id
  | unaryOperation n op a =>
    have houter : ∀ g : R → R, Spares .undefined (outerTimesInner (c.eval a) (pd a) g) :=
      fun g => (hc.1 a).bind fun _ => (hpd a).map _
    cases op with
    | unknown w => exact iff_of_true rfl trivial
    | negate | square => exact iff_of_false ((hpd a).map _) id
    | round | floor | ceil => exact iff_of_false (hpd a) id
    | sign => exact iff_of_false (Spares.pure _) id
    | _ => exact iff_of_false (houter _) id
  | binaryOperation n op a b =>
    cases op with
    | unknown w => exact iff_of_true rfl trivial
    | sum => exact iff_of_false ((hpd a).bind fun _ => (hpd b).map _) id
    | prod =>
      refine iff_of_false ?_ id
      exact (hc.1 a).bind fun _ => (hpd b).bind fun _ => (hc.1 b).bind fun _ => (hpd a).map _
    | pow =>
      refine iff_of_false ?_ id
      exact (hc.1 a).bind fun _ => (hc.1 b).bind fun _ => (hpd a).bind fun _ => (hpd b).map _
    | min | max =>
      refine iff_of_false ?_ id
      exact (hc.1 a).bind fun _ => (hc.1 b).bind fun _ => .ite (hpd a) (hpd b)
    | lessEqThan | greaterThan => exact iff_of_false (Spares.pure _) id
  | listOperation n op as =>
    cases op with
    | unknown w => exact iff_of_true rfl trivial
    | sum => exact iff_of_false ((spares_map hpd as).map _) id
    | prod =>
      exact iff_of_false ((spares_map hc.1 as).bind fun _ => (spares_map hpd as).map _) id
  | polynomial n p =>
    show derivPolynomial env.boundVars p x = _ ↔ x ∈ p.vars ∧ p.TooLarge env.boundVars _
    rw [derivPolynomial, ← evalPolynomial_undefined, ← List.idxOf_lt_length_iff]
    split
    · next h => exact (and_iff_right h).symm
    · next h => exact iff_of_false (by simp) fun hx => h hx.1
  | caseDistinction n vars cs =>
    refine iff_of_false (spares_caseDistinction notFromLookups_undefined _ _ fun y hy => ?_) id
    obtain ⟨c', -, rfl⟩ := List.mem_map.mp hy
    exact ⟨hc.2 _, hpd _⟩
  | reference n ref =>
    exact iff_of_false (spares_derefReal notFromLookups_undefined _ _ _ hpd) id
  | var n v =>
    refine iff_of_false ?_ id
    show Spares _ (derivVar env.self x v)
    rw [derivVar]
    split
    · exact .ite (.pure _) (.pure _)
    · exact .raise (by simp)
  | unknown n w =>
    have hterminate : Spares .undefined (raise .terminate : Outcome Err R) := .raise (by simp)
    exact iff_of_false hterminate id

end Evaluation

/-! ### What the operations on sets do not throw by themselves -/

omit [Double R] in
/-- Not among the exceptions of the operations on sets, but for malformed matrices and what a
solver throws. -/
structure NotFromSets (e : Err) : Prop where
  outside : e ≠ outside
  noConvergence (msg : String) : e ≠ .noConvergence msg
  which {R : Type} (what : String) (s : SetExpr R) : e ≠ whichError what s

omit [Double R] in
theorem notFromSets_terminate : NotFromSets .terminate := by
  constructor <;> simp [outside, whichError]

omit [Double R] in
theorem notFromSets_undefined : NotFromSets .undefined := by
  constructor <;> simp [outside, whichError]

namespace Release

section Spares

variable {e : Err} (he : NotFromSets e)

include he

theorem spares_perform {α : Type} (op : EigenOp R α) :
    Spares e (op.perform .worst : Outcome Err α) := by
  rw [perform_worst]
  exact .ite (.pure _) (.raise he.outside)

omit [Double R] in
theorem spares_position (v : List R) (i : ℕ) : Spares e (position v i : Outcome Err R) := by
  rw [position]
  split
  · exact .pure _
  · exact .raise he.outside

variable {ev : RealExpr R → Outcome Err R} (hev : ∀ e', Spares e (ev e'))

include hev

theorem spares_membershipRectangle (bs : List (RealExpr R × RealExpr R)) (pt : List R) :
    Spares e (membershipRectangle (bs.map fun b => (ev b.1, ev b.2)) pt) := by
  induction bs generalizing pt with
  | nil => exact .pure _
  | cons b bs ih =>
    refine (hev _).bind fun v => (hev _).bind fun w => ?_
    cases pt with
    | nil => exact .raise he.outside
    | cons x pt => exact .ite (.pure _) (ih pt)

theorem spares_membershipBall (center : List (RealExpr R)) (r : RealExpr R) (pt : List R) :
    Spares e (membershipBall .worst (center.map ev) (ev r) pt) :=
  (spares_map hev center).bind fun _ => (hev r).bind fun _ => (spares_perform he _).map _

theorem spares_membershipConvexPolytope {a : List (List (RealExpr R))}
    (h : Spares e (evalToMatrix (a.map (List.map ev)))) (b : List (RealExpr R)) (pt : List R) :
    Spares e (membershipConvexPolytope .worst (a.map (List.map ev)) (b.map ev) pt) :=
  h.bind fun _ => (spares_map hev b).bind fun _ =>
    (spares_perform he _).bind fun _ => spares_perform he _

theorem spares_projBall (center : List (RealExpr R)) (r : RealExpr R) (pt : List R) :
    Spares e (projBall .worst (center.map ev) (ev r) pt) :=
  (spares_membershipBall he hev center r pt).bind fun _ => .ite (.pure _)
    ((spares_map hev center).bind fun _ => (hev r).bind fun _ =>
      (spares_perform he _).bind fun _ => spares_perform he _)

theorem spares_projRectangle (bs : List (RealExpr R × RealExpr R)) (pt : List R) :
    Spares e (projRectangle (bs.map fun b => (ev b.1, ev b.2)) pt) := by
  induction bs generalizing pt with
  | nil =>
    cases pt with
    | nil => exact .pure _
    | cons x pt => exact .raise he.outside
  | cons b bs ih =>
    refine (hev _).bind fun v => (hev _).bind fun w => ?_
    cases pt with
    | nil => exact .raise he.outside
    | cons x pt => exact (ih pt).map _

omit hev in
theorem spares_dykstra {ps : List (List R → Outcome Err (List R))}
    (hps : ∀ p ∈ ps, ∀ pt, Spares e (p pt)) (pt : List R) :
    Spares e (dykstraProjectionAlgorithm .worst ps pt >>= convergedOr) := by
  -- the projections of one sweep, and then one sweep after the other
  have hsweep : ∀ ps : List (List R → Outcome Err (List R)), (∀ p ∈ ps, ∀ pt, Spares e (p pt)) →
      ∀ ys x, Spares e (dykstraSweep .worst ps ys x) := by
    intro ps
    induction ps with
    | nil => exact fun _ _ _ => .pure _
    | cons p ps ih =>
      intro hps ys x
      cases ys with
      | nil => exact .pure _
      | cons y ys =>
        exact (spares_perform he _).bind fun _ => (hps p (by simp) _).bind fun _ =>
          (spares_perform he _).bind fun _ => (ih (fun p hp => hps p (by simp [hp])) _ _).map _
  have hloop : ∀ iter ys x, Spares e (dykstraLoop .worst ps iter ys x) := by
    intro iter
    induction iter with
    | zero => exact fun _ _ => .pure _
    | succ iter ih =>
      exact fun ys x => (hsweep ps hps ys x).bind fun _ =>
        (spares_perform he _).bind fun _ => .ite (.pure _) (ih _ _)
  refine (hloop _ _ _).bind fun result => ?_
  cases result with
  | some x => exact .pure x
  | none => exact .raise (he.noConvergence _)

theorem spares_projConvexPolytope {a : List (List (RealExpr R))}
    (h : Spares e (evalToMatrix (a.map (List.map ev)))) (b : List (RealExpr R)) (pt : List R) :
    Spares e (projConvexPolytope .worst (a.map (List.map ev)) (b.map ev) pt) := by
  have hhalves : ∀ (a : List (List (RealExpr R))) (b : List (RealExpr R)),
      Spares e (halfSpaces (a.map (List.map ev)) (b.map ev)) := by
    intro a
    induction a with
    | nil => exact fun _ => .pure _
    | cons row a ih =>
      intro b
      refine (spares_map hev row).bind fun _ => ?_
      cases b with
      | nil => exact .raise he.outside
      | cons bi b => exact (hev bi).bind fun _ => (ih b).map _
  refine (spares_membershipConvexPolytope he hev h b pt).bind fun _ => .ite (.pure _)
    ((hhalves a b).bind fun hss => spares_dykstra he (fun p hp pt => ?_) pt)
  obtain ⟨hs, -, rfl⟩ := List.mem_map.mp hp
  exact (spares_perform he _).bind fun _ => .ite (.pure _) (spares_perform he _)

omit hev in
theorem spares_computeAABB_of_lp {lp : LpSolver R} {A : Matrix R} {b : List R}
    (hlp : (EigenOp.halves A b).fits = true →
      ∀ c, Spares e (lp ((EigenOp.halves A b).value.map normalized).flatten c)) :
    Spares e (computeAABBConvexPolytope .worst lp A b : Outcome Err (AlignedBox R)) := by
  -- one of the four questions to the solver, and what follows it
  have hsolve : (EigenOp.halves A b).fits = true → ∀ {α : Type} (c : List R) (i : ℕ)
      {f : R → Outcome Err α}, (∀ x, Spares e (f x)) →
      Spares e ((lp ((EigenOp.halves A b).value.map normalized).flatten c).lift >>= fun sol =>
        position sol i >>= f) := by
    intro hfits α c i f hf
    rw [lift_self]
    exact (hlp hfits c).bind fun sol => (spares_position he sol i).bind hf
  rw [computeAABBConvexPolytope, perform_bind]
  split
  · next hfits =>
    exact hsolve hfits _ _ fun _ => hsolve hfits _ _ fun _ => hsolve hfits _ _ fun _ =>
      hsolve hfits _ _ fun _ => .pure _
  · exact .raise he.outside

end Spares

/-! ### Membership and projection -/

section Methods

variable {e : Err} {c : Calls R (Outcome Err)} (hc : SparingCalls e c) (env : Env R)

include hc

theorem spares_membershipSetExpr (he : NotFromSets e) {s : SetExpr R}
    (h : e = .terminate → s.WellShaped) (pt : List R) :
    Spares e (membershipSetExpr .worst env.self c s pt) := by
  refine (Spares.pure ()).bind fun _ => ?_
  cases s with
  | singleton n as => exact (spares_map hc.1 as).bind fun _ => spares_perform he _
  | ball n center r => exact spares_membershipBall he hc.1 center r pt
  | rectangle n bs => exact spares_membershipRectangle he hc.1 bs pt
  | convexPolytope n a b =>
    exact spares_membershipConvexPolytope he hc.1 (spares_evalToMatrix hc.1 h) b pt
  | intersection n ss => exact spares_membershipIntersection (fun s => hc.2 s pt) ss
  | reference n ref => exact (Spares.pure _).bind fun s => hc.2 s pt
  | caseDistinction n vars cs => exact .raise (he.which _ _)
  | unknown n w => exact .raise (he.which _ _)

theorem spares_projSetExpr (he : NotFromSets e) {pr : SetExpr R → List R → Outcome Err (List R)}
    (hpr : ∀ s pt, Spares e (pr s pt)) {s : SetExpr R} (h : e = .terminate → s.WellShaped)
    (pt : List R) : Spares e (checked (projSetExpr .worst env.self c pr s) pt) := by
  refine Spares.bind ((Spares.pure ()).bind fun _ => ?_) fun _ => spares_perform he _
  cases s with
  | singleton n as => exact spares_map hc.1 as
  | ball n center r => exact spares_projBall he hc.1 center r pt
  | rectangle n bs => exact spares_projRectangle he hc.1 bs pt
  | convexPolytope n a b =>
    exact spares_projConvexPolytope he hc.1 (spares_evalToMatrix hc.1 h) b pt
  | intersection n ss =>
    refine (spares_membershipIntersection (fun s => hc.2 s pt) ss).bind fun _ =>
      .ite (.pure _) (spares_dykstra he (fun p hp => ?_) pt)
    obtain ⟨s, -, rfl⟩ := List.mem_map.mp hp
    exact hpr s
  | caseDistinction n vars cs => exact .raise (he.which _ _)
  | reference n ref => exact .raise (he.which _ _)
  | unknown n w => exact .raise (he.which _ _)

end Methods

section BareThrow

variable {e : Err} (he : NotFromSets e) {c : Calls R (Outcome Err)} (hc : SparingCalls e c)
  (env : Env R)

omit [Double R] in
/-- A malformed matrix. -/
theorem evalToMatrix_of_malformed {ev : RealExpr R → Outcome Err R} {a : List (List (RealExpr R))}
    (h : (checkCapnpMatrix a).1 = true) :
    evalToMatrix (a.map (List.map ev)) = .throw .terminate := by
  rw [evalToMatrix, checkCapnpMatrix_map, if_pos h]
  rfl

include he hc

/-- **`throw;` in a membership test.** -/
theorem membershipSetExpr_throw (s : SetExpr R) (pt : List R) :
    membershipSetExpr .worst env.self c s pt = .throw e ↔ e = .terminate ∧ ¬ s.WellShaped := by
  constructor
  · intro hthrow
    -- only a malformed matrix is left
    by_contra hnot
    exact spares_membershipSetExpr hc env he (fun heq => not_not.mp fun hs => hnot ⟨heq, hs⟩) pt
      hthrow
  · rintro ⟨rfl, hshape⟩
    cases s with
    | convexPolytope n a b =>
      show membershipConvexPolytope .worst (a.map (List.map c.eval)) (b.map c.eval) pt = _
      rw [membershipConvexPolytope, evalToMatrix_of_malformed (eq_true_of_ne_false hshape)]
      rfl
    | _ => exact absurd trivial hshape

/-- In a projection. -/
theorem projSetExpr_throw {pr : SetExpr R → List R → Outcome Err (List R)}
    (hpr : ∀ s pt, Spares e (pr s pt)) (s : SetExpr R) (pt : List R) :
    checked (projSetExpr .worst env.self c pr s) pt = .throw e ↔
      e = .terminate ∧ ¬ s.WellShaped := by
  constructor
  · intro hthrow
    by_contra hnot
    exact spares_projSetExpr hc env he hpr (fun heq => not_not.mp fun hs => hnot ⟨heq, hs⟩) pt
      hthrow
  · rintro ⟨rfl, hshape⟩
    cases s with
    | convexPolytope n a b =>
      have hmem : membershipConvexPolytope .worst (a.map (List.map c.eval)) (b.map c.eval) pt
          = .throw .terminate := by
        rw [membershipConvexPolytope, evalToMatrix_of_malformed (eq_true_of_ne_false hshape)]
        rfl
      show (projConvexPolytope .worst (a.map (List.map c.eval)) (b.map c.eval) pt >>= _) = _
      rw [projConvexPolytope, hmem]
      rfl
    | _ => exact absurd trivial hshape

end BareThrow

/-! ### Bounding boxes -/

section Merge

variable (val : RealExpr R → R → Prop) (box : SetExpr R → AlignedBox R → Prop)

omit [Double R] in
/-- A polytope whose matrix is malformed, and whose bounds have values; these are evaluated
before. -/
def MemberBareThrow : SetExpr R → Prop
  | .convexPolytope _ a b => (checkCapnpMatrix a).1 = true ∧ ∀ e ∈ b, HasValue val e
  | _ => False

/-- The loop over the members of an intersection comes to such a polytope. -/
def MergeBareThrow : Sizes → List (SetExpr R) → Prop
  | _, [] => False
  | z, s :: ss => MemberBareThrow val s ∨
      Valued val box s ∧ ∃ z', z.add s = some z' ∧ MergeBareThrow z' ss

end Merge

section Hull

variable {e : Err} (he : NotFromSets e) {ev : RealExpr R → Outcome Err R}
  {mem : SetExpr R → List R → Outcome Err Bool} {rh : SetExpr R → Outcome Err (AlignedBox R)}

omit [Double R] in
/-- What follows a merged member throws something else than `outside`. -/
theorem Leads.bind_eq_throw {x : Outcome Err (Merged R)} {o : Option Sizes} (h : Leads x o)
    (he : e ≠ outside) {α : Type} {f : Merged R → Outcome Err α} {q : Sizes → Prop}
    (hf : ∀ st z, st.HasSizes z → (f st = .throw e ↔ q z)) :
    (x >>= f) = .throw e ↔ ∃ z, o = some z ∧ q z := by
  cases o with
  | none =>
    obtain rfl : x = .throw outside := h
    exact iff_of_false (by simpa using he.symm) (by simp)
  | some z =>
    obtain ⟨st, rfl, hst⟩ := h
    rw [ok_bind, hf st z hst]
    simp

include he

/-- A polytope whose bounds have been evaluated, and what follows it. -/
theorem mergePolytope_bind_throw (hev : ∀ e', Spares e (ev e')) {st : Merged R} {z : Sizes}
    (h : st.HasSizes z) (n : Option String) {a : List (List (RealExpr R))} {b : List (RealExpr R)}
    {bs : List R} (hbs : bs.length = b.length) {α : Type} {f : Merged R → Outcome Err α}
    {q : Sizes → Prop} (hf : ∀ st z, st.HasSizes z → (f st = .throw e ↔ q z)) :
    ((evalToMatrix (a.map (List.map ev)) >>= fun A => mergePolytope st (Matrix.ofRows A) bs)
        >>= f) = .throw e ↔
      (e = .terminate ∧ (checkCapnpMatrix a).1 = true) ∨
        HasValues (Yields ev) a ∧ ∃ z', z.add (.convexPolytope n a b) = some z' ∧ q z' := by
  cases hshape : (checkCapnpMatrix a).1 with
  | true =>
    -- nothing of the matrix is evaluated
    have hnone : ¬ HasValues (Yields ev) a := by
      rw [← exists_evalToMatrix_iff, evalToMatrix_of_malformed hshape]
      simp
    rw [evalToMatrix_of_malformed hshape, or_iff_left fun h => hnone h.1, and_iff_left rfl]
    exact ⟨fun h => (Outcome.throw.inj h).symm, fun h => h ▸ rfl⟩
  | false =>
    have hspares : Spares e (evalToMatrix (a.map (List.map ev))) :=
      spares_evalToMatrix hev fun _ => hshape
    rw [or_iff_right fun h => Bool.false_ne_true h.2, Outcome.bind_assoc,
      ← exists_evalToMatrix_iff]
    refine hspares.bind_eq_throw_iff fun A hA => ?_
    obtain ⟨hlen, hpos, hrows⟩ := shape_of_evalToMatrix hA
    have hcols := cols_ofRows hlen hpos hrows
    have hrect : (Matrix.ofRows A).IsRect :=
      Matrix.isRect_ofRows fun row hrow => (hrows row hrow).trans hcols.symm
    exact (leads_mergePolytope h n hpos hlen hcols hrect hbs).bind_eq_throw he.outside hf

/-- One iteration, and what follows it. -/
theorem mergeMember_bind_throw (hev : ∀ e', Spares e (ev e')) (hrh : ∀ s, Spares e (rh s))
    {s : SetExpr R} (hdims : HullDims rh s) {st : Merged R} {z : Sizes} (h : st.HasSizes z)
    {α : Type} {f : Merged R → Outcome Err α} {q : Sizes → Prop}
    (hf : ∀ st z, st.HasSizes z → (f st = .throw e ↔ q z)) :
    (mergeMember .worst st (member ⟨ev, mem⟩ rh s) >>= f) = .throw e ↔
      (e = .terminate ∧ MemberBareThrow (Yields ev) s) ∨
        Valued (Yields ev) (Yields rh) s ∧ ∃ z', z.add s = some z' ∧ q z' := by
  cases hs : s.isPolytope with
  | true =>
    cases s with
    | convexPolytope n a b =>
      -- the bounds are evaluated before the matrix
      have hbounds : Spares e (evalToVector (b.map ev)) := spares_map hev b
      have hvalues : (∃ bs, evalToVector (b.map ev) = ok bs) ↔ ∀ e ∈ b, HasValue (Yields ev) e :=
        exists_collect_map_iff
      rw [mergeMember_polytope, Outcome.bind_assoc, MemberBareThrow, Valued,
        hbounds.bind_eq_throw_iff fun bs hbs => mergePolytope_bind_throw he hev h n
          (by simpa using collect_length hbs) hf,
        hvalues]
      tauto
    | _ => exact absurd hs (by simp [SetExpr.isPolytope])
  | false =>
    -- every other member contributes its bounding box
    have hvalued : Valued (Yields ev) (Yields rh) s ↔ ∃ box, rh s = ok box := by
      cases s <;> first | rfl | exact absurd hs (by simp [SetExpr.isPolytope])
    have hnot : ¬ MemberBareThrow (Yields ev) s := by
      cases s <;> first | exact id | exact absurd hs (by simp [SetExpr.isPolytope])
    rw [mergeMember_box st hs, Outcome.bind_assoc, hvalued, or_iff_right fun h => hnot h.2]
    refine (hrh s).bind_eq_throw_iff fun box hbox => ?_
    exact (leads_mergeBox h hs (hdims box hbox).1 (hdims box hbox).2).bind_eq_throw he.outside hf

/-- **`throw;` in the loop** over the members of an intersection. -/
theorem mergeMembers_bind_throw (hev : ∀ e', Spares e (ev e')) (hrh : ∀ s, Spares e (rh s))
    (hdims : ∀ s, HullDims rh s) (ss : List (SetExpr R)) {st : Merged R} {z : Sizes}
    (h : st.HasSizes z) {α : Type} {f : Merged R → Outcome Err α}
    (hf : ∀ st z, st.HasSizes z → Spares e (f st)) :
    (mergeMembers .worst st (ss.map (member ⟨ev, mem⟩ rh)) >>= f) = .throw e ↔
      e = .terminate ∧ MergeBareThrow (Yields ev) (Yields rh) z ss := by
  induction ss generalizing st z with
  | nil => exact iff_of_false (hf st z h) And.right
  | cons s ss ih =>
    rw [List.map_cons, mergeMembers, Outcome.bind_assoc,
      mergeMember_bind_throw he hev hrh (hdims s) h fun st z hst => ih hst, MergeBareThrow,
      and_or_left]
    refine or_congr_right ?_
    constructor
    · rintro ⟨hvalued, z', hz', heq, hrest⟩
      exact ⟨heq, hvalued, z', hz', hrest⟩
    · rintro ⟨heq, hvalued, z', hz', hrest⟩
      exact ⟨hvalued, z', hz', heq, hrest⟩

end Hull

end Release

/-- Given a half-space, the solver does not lose the process itself. -/
structure LpSolver.Catches (lp : LpSolver R) : Prop extends lp.Sound where
  catches {halves : List R} (h : 3 ≤ halves.length) (c : List R) : Catchable (lp halves c)

omit [Double R] in
/-- The search of a bounding box comes to a malformed matrix. -/
def SetExpr.HullBareThrow (val : RealExpr R → R → Prop)
    (box : SetExpr R → AlignedBox R → Prop) : SetExpr R → Prop
  | .convexPolytope _ a _ => (checkCapnpMatrix a).1 = true
  | .intersection _ ss => Release.MergeBareThrow val box ⟨none, none⟩ ss
  | _ => False

namespace Release

section Solver

variable {lp : LpSolver R} (hlp : lp.Catches) {e : Err} (he : NotFromSets e)
  (hfatal : ¬ IsException e)

/-- The solver gets a half-space, if there is a row. -/
theorem le_length_halves {A : Matrix R} {b : List R} (hrect : A.IsRect) (hpos : 0 < A.rows.length)
    (hfits : (EigenOp.halves A b).fits = true) :
    3 ≤ ((EigenOp.halves A b).value.map normalized).flatten.length := by
  obtain ⟨hcols, hrows⟩ : A.cols = 2 ∧ A.rows.length = b.length := of_decide_eq_true hfits
  -- the first row alone gives three numbers
  obtain ⟨row, rows, hA⟩ := List.exists_cons_of_length_pos hpos
  obtain ⟨bi, b, rfl⟩ := List.exists_cons_of_length_pos (hrows ▸ hpos)
  have hrow : row.length = 2 := (hrect row (by simp [hA])).trans hcols
  have hvalue : (EigenOp.halves A (bi :: b)).value
      = List.zipWith (fun row bi => row ++ [bi]) A.rows (bi :: b) := rfl
  rw [hvalue, hA, List.zipWith_cons_cons, List.map_cons, List.flatten_cons, List.length_append,
    length_normalized, List.length_append, hrow]
  exact Nat.le_add_right 3 _

include hlp he hfatal

theorem spares_computeAABB_fatal {A : Matrix R} (b : List R) (hrect : A.IsRect)
    (hpos : 0 < A.rows.length) :
    Spares e (computeAABBConvexPolytope .worst lp A b : Outcome Err (AlignedBox R)) :=
  spares_computeAABB_of_lp he fun hfits c hthrow =>
    hfatal (hlp.catches (le_length_halves hrect hpos hfits) c e hthrow)

theorem spares_boundMerged {st : Merged R} {z : Sizes} (h : st.HasSizes z) :
    Spares e (boundMerged .worst lp st : Outcome Err (AlignedBox R)) := by
  rw [boundMerged]
  cases hst : st.poly with
  | none => exact .pure _
  | some p =>
    obtain ⟨M, mb⟩ := p
    dsimp only
    have hpos : 0 < M.rows.length := h.rows _ hst
    rw [perform_bind]
    split
    · next hfits =>
      refine (spares_perform he _).bind fun finalB => ?_
      refine spares_computeAABB_fatal hlp he hfatal finalB ?_ ?_
      · refine EigenOp.isRect_comma_value hfits ?_
        simpa using ⟨h.rect _ hst, Matrix.isRect_identity _, (Matrix.isRect_identity _).neg⟩
      · rw [EigenOp.comma_value_rows hfits]
        exact Nat.add_pos_left hpos _
    · exact .raise he.outside

/-- **`throw;` in the search of a bounding box.** -/
theorem hullSetExpr_throw {c : Calls R (Outcome Err)} (hc : SparingCalls e c) (env : Env R)
    {rh : SetExpr R → Outcome Err (AlignedBox R)} (hrh : ∀ s, Spares e (rh s))
    (hdims : ∀ s, HullDims rh s) (s : SetExpr R) :
    hullSetExpr .worst env.self lp c rh s = .throw e ↔
      e = .terminate ∧ s.HullBareThrow (Yields c.eval) (Yields rh) := by
  cases s with
  | singleton n as => exact iff_of_false (spares_hullSingleton hc.1 as) And.right
  | ball n center r => exact iff_of_false (spares_hullBall hc.1 center r) And.right
  | rectangle n rect => exact iff_of_false (spares_hullRectangle hc.1 rect) And.right
  | convexPolytope n a b =>
    show hullConvexPolytope .worst lp (a.map (List.map c.eval)) (b.map c.eval) = _ ↔
      e = .terminate ∧ (checkCapnpMatrix a).1 = true
    rw [hullConvexPolytope]
    cases hshape : (checkCapnpMatrix a).1 with
    | true =>
      rw [evalToMatrix_of_malformed hshape, and_iff_left rfl]
      exact ⟨fun h => (Outcome.throw.inj h).symm, fun h => h ▸ rfl⟩
    | false =>
      have hspares : Ensures e (fun A => (Matrix.ofRows A).IsRect ∧ 0 < A.length)
          (evalToMatrix (a.map (List.map c.eval))) :=
        ⟨spares_evalToMatrix hc.1 fun _ => hshape, fun A hA =>
          ⟨rows_of_evalToMatrix hA, List.length_pos_of_ne_nil (ne_nil_of_evalToMatrix hA)⟩⟩
      refine iff_of_false ?_ fun h => Bool.false_ne_true h.2
      exact (hspares.bind fun A hA => ((spares_map hc.1 b).bind fun bs =>
        spares_computeAABB_fatal hlp he hfatal bs hA.1 hA.2).ensures).1
  | intersection n ss =>
    exact mergeMembers_bind_throw he hc.1 hrh hdims ss ⟨rfl, by simp, by simp, rfl, by simp⟩
      fun st z hst => spares_boundMerged hlp he hfatal hst
  | reference n ref => exact iff_of_false (Spares.raise (he.which _ _)) And.right
  | caseDistinction n vars cs => exact iff_of_false (Spares.raise (he.which _ _)) And.right
  | unknown n which => exact iff_of_false (Spares.raise (he.which _ _)) And.right

end Solver

end Release

/-! ### Tasks -/

namespace Task

variable (val : RealExpr R → R → Prop) (box : LpSolver R → SetExpr R → AlignedBox R → Prop)

omit [Double R] in
/-- The task executes `throw;`. -/
def BareThrow : Task R → Prop
  | .eval _ => False
  | .evalPartialDerivative _ e => ∃ n w, e = .unknown n w
  | .membership s _ | .proj s _ => ¬ s.WellShaped
  | .rectHull lp s => s.HullBareThrow val (box lp)

omit [Double R] in
/-- The task has no defined result. -/
def Undefined (bv : ValueMap R) : Task R → Prop
  | .eval e => e.EvalUndefined bv
  | .evalPartialDerivative x e => e.DerivUndefined bv x
  | _ => False

end Task

namespace Env

variable (env : Env R)

/-! ### Bodies -/

omit [Double R] in
theorem rareInEval_terminate : RareInEval .terminate := by
  refine ⟨⟨?_, ?_, ?_, ?_⟩, ?_⟩ <;> simp

section Body

variable {call : (t : Task R) → Outcome Err t.Result}

/-- **Where a body executes `throw;`**, if its calls do not. -/
theorem releaseBody_terminate (hspares : ∀ t, Spares .terminate (call t))
    (hdims : ∀ lp s, Release.HullDims (fun s => call (.rectHull lp s)) s) {t : Task R}
    (ht : t.SolvesBy LpSolver.Catches) :
    env.releaseBody call t = .throw .terminate ↔
      t.BareThrow (fun e x => call (.eval e) = ok x)
        fun lp s box => call (.rectHull lp s) = ok box := by
  have hc : SparingCalls .terminate (callsOf call) :=
    ⟨fun e => hspares (.eval e), fun s pt => hspares (.membership s pt)⟩
  have he := notFromSets_terminate
  have hclear : ∀ e : RealExpr R, (∀ n w, e ≠ .unknown n w) →
      e.Clear env.boundVars .terminate := by
    intro e hknown
    cases e with
    | var n v => exact fun heq => by simp at heq
    | unknown n w => exact absurd rfl (hknown n w)
    | _ => trivial
  cases t with
  | eval e =>
    -- an evaluation of an unknown kind ends in another way
    refine iff_of_false ?_ id
    by_cases hknown : ∃ n w, e = .unknown n w
    · obtain ⟨n, w, rfl⟩ := hknown
      have hundefined : Spares .terminate (raise .undefined : Outcome Err R) := .raise (by simp)
      exact hundefined
    · exact spares_evalRealExpr rareInEval_terminate env hc
        (hclear e fun n w heq => hknown ⟨n, w, heq⟩)
  | evalPartialDerivative x e =>
    constructor
    · intro hthrow
      by_contra hknown
      exact spares_derivRealExpr rareInEval_terminate env hc
        (fun e => hspares (.evalPartialDerivative x e)) x
        (hclear e fun n w heq => hknown ⟨n, w, heq⟩) hthrow
    · rintro ⟨n, w, rfl⟩
      rfl
  | membership s pt =>
    exact (Release.membershipSetExpr_throw he hc env s pt).trans (and_iff_right rfl)
  | proj s pt =>
    exact (Release.projSetExpr_throw he hc env (fun s pt => hspares (.proj s pt)) s pt).trans
      (and_iff_right rfl)
  | rectHull lp s =>
    exact (Release.hullSetExpr_throw ht he (fun h => h.1 rfl) hc env
      (fun s => hspares (.rectHull lp s)) (hdims lp) s).trans (and_iff_right rfl)

/-- **Where a body has no defined result**, if its calls do. -/
theorem releaseBody_undefined (hspares : ∀ t, Spares .undefined (call t))
    (hdims : ∀ lp s, Release.HullDims (fun s => call (.rectHull lp s)) s) {t : Task R}
    (ht : t.SolvesBy LpSolver.Catches) :
    env.releaseBody call t = .throw .undefined ↔ t.Undefined env.boundVars := by
  have hc : SparingCalls .undefined (callsOf call) :=
    ⟨fun e => hspares (.eval e), fun s pt => hspares (.membership s pt)⟩
  have he := notFromSets_undefined
  have hne : Err.undefined ≠ .terminate := by simp
  cases t with
  | eval e => exact evalRealExpr_undefined hc env e
  | evalPartialDerivative x e =>
    exact derivRealExpr_undefined hc env (fun e => hspares (.evalPartialDerivative x e)) x e
  | membership s pt =>
    refine iff_of_false (fun hthrow => hne ?_) id
    exact ((Release.membershipSetExpr_throw he hc env s pt).mp hthrow).1
  | proj s pt =>
    refine iff_of_false (fun hthrow => hne ?_) id
    exact ((Release.projSetExpr_throw he hc env (fun s pt => hspares (.proj s pt)) s pt).mp
      hthrow).1
  | rectHull lp s =>
    refine iff_of_false (fun hthrow => hne ?_) id
    exact ((Release.hullSetExpr_throw ht he (fun h => h.2.2 rfl) hc env
      (fun s => hspares (.rectHull lp s)) (hdims lp) s).mp hthrow).1

end Body

/-! ### The tasks of a build -/

section Build

variable (asserts : Bool)

/-- `x` is the value of the expression. -/
def ValueIn (e : RealExpr R) (x : R) : Prop := (env.build asserts).sem (.eval e) = ok x

/-- The bounding box of the set that is found. -/
def HullIn (lp : LpSolver R) (s : SetExpr R) (box : AlignedBox R) : Prop :=
  (env.build asserts).sem (.rectHull lp s) = ok box

/-- The task, by itself, does not return and throws no exception. -/
def Fatal (t : Task R) : Prop :=
  (asserts = true ∧ t.asserted = false) ∨ t.Misfit (env.ValueIn asserts) (env.HullIn asserts) ∨
    t.BareThrow (env.ValueIn asserts) (env.HullIn asserts) ∨ t.Undefined env.boundVars

/-- No task that the task gets to is lost. -/
def Safe (t : Task R) : Prop := ∀ t', (env.build asserts).Reaches t t' → ¬ env.Fatal asserts t'

/-- The boxes that are found have the dimensions that are known beforehand. -/
theorem hullDims_build (lp : LpSolver R) (s : SetExpr R) :
    Release.HullDims (fun s => (env.build asserts).sem (.rectHull lp s)) s := by
  -- for the runs, by induction on the depth; a box that is found is found by one of them
  have hrun : ∀ n s box, ((env.build asserts).run n (.rectHull lp s) :
      Outcome Err (AlignedBox R)) = ok box →
      box.min.length = s.hullDim ∧ box.max.length = s.hullDim := by
    intro n
    induction n with
    | zero => exact fun s box h => absurd h (by simp [Procedures.run])
    | succ n ih =>
      intro s box h
      have hbody : ((env.build asserts).run (n + 1) (.rectHull lp s) : Outcome Err (AlignedBox R))
          = Release.hullSetExpr .worst env.self lp (callsOf ((env.build asserts).run n))
            (fun s => (env.build asserts).run n (.rectHull lp s)) s :=
        if_neg (by simp [Task.asserted])
      rw [hbody] at h
      exact Release.hullDims_hullSetExpr env ih s box h
  intro box hbox
  have hsem : (env.build asserts).sem (.rectHull lp s) = ok box := hbox
  obtain ⟨n, hn⟩ := (env.build asserts).exists_run_eq_sem (t := .rectHull lp s)
    fun hstop => absurd (hsem.symm.trans hstop) (by simp)
  exact hrun n s box (hn.trans hsem)

/-- A result of a projection has been compared with the point. -/
theorem length_of_sem_proj {s : SetExpr R} {z res : List R}
    (h : (env.build asserts).sem (.proj s z) = ok res) : res.length = z.length := by
  rw [Procedures.sem_eq] at h
  by_cases hasserted : (asserts && !(Task.proj s z).asserted) = true
  · exact nomatch (if_pos hasserted).symm.trans h
  · exact (Release.of_checked ((if_neg hasserted).symm.trans h)).2

variable {asserts}

/-- **A task is lost** exactly if it comes to a node of the kinds above. -/
theorem exists_raises_iff {t : Task R} (ht : t.SolvesBy LpSolver.Catches) :
    (∃ e, ¬ IsException e ∧ (env.build asserts).Raises t e) ↔ env.Fatal asserts t := by
  let P := env.build asserts
  by_cases hasserted : asserts = true ∧ t.asserted = false
  · -- the assertion fails
    refine iff_of_true ⟨.assertion, not_isException_outside, ?_⟩ (Or.inl hasserted)
    rw [Procedures.raises_iff]
    exact if_pos (by simp [hasserted.1, hasserted.2])
  · have hbody : ∀ e, P.Raises t e ↔ env.releaseBody (P.sparing e) t = .throw e := by
      intro e
      have hnot : ¬ (asserts && !t.asserted) = true := by simpa using hasserted
      rw [Procedures.raises_iff]
      exact Eq.congr_left (if_neg hnot)
    have hvalue : ∀ err, (fun (e : RealExpr R) (x : R) => P.sparing err (.eval e) = ok x)
        = env.ValueIn asserts :=
      fun err => funext fun e => funext fun x => propext P.sparing_eq_ok
    have hhull : ∀ err, (fun (lp : LpSolver R) (s : SetExpr R) (box : AlignedBox R) =>
        P.sparing err (.rectHull lp s) = ok box) = env.HullIn asserts :=
      fun err => funext fun lp => funext fun s => funext fun box => propext P.sparing_eq_ok
    have hdims : ∀ err lp s, Release.HullDims (fun s => P.sparing err (.rectHull lp s)) s :=
      fun err lp s box hbox => env.hullDims_build asserts lp s box (P.sparing_eq_ok.mp hbox)
    -- what a body raises itself, if its calls raise nothing of the kind
    have houtside := env.releaseBody_outside (P.spares_sparing outside)
      (fun s z res hres => env.length_of_sem_proj asserts (P.sparing_eq_ok.mp hres))
      (hdims outside) (ht.mono fun lp hlp => hlp.toSound)
    have hterminate := env.releaseBody_terminate (P.spares_sparing .terminate)
      (hdims .terminate) ht
    have hundefined := env.releaseBody_undefined (P.spares_sparing .undefined)
      (hdims .undefined) ht
    rw [hvalue, hhull] at houtside hterminate
    rw [Fatal, or_iff_right hasserted, ← houtside, ← hterminate, ← hundefined, ← hbody, ← hbody,
      ← hbody]
    constructor
    · rintro ⟨e, he, hraises⟩
      -- each way to be lost belongs to one kind of nodes
      simp only [IsException, not_and_or, not_not] at he
      rcases he with rfl | rfl | rfl
      · exact Or.inr (Or.inl hraises)
      · exact Or.inl hraises
      · exact Or.inr (Or.inr hraises)
    · rintro (hraises | hraises | hraises)
      · exact ⟨_, not_isException_outside, hraises⟩
      · exact ⟨_, fun h => h.1 rfl, hraises⟩
      · exact ⟨_, fun h => h.2.2 rfl, hraises⟩

theorem catches_of_reaches {t t' : Task R} (h : t.SolvesBy LpSolver.Catches)
    (hreach : (env.build asserts).Reaches t t') : t'.SolvesBy LpSolver.Catches := by
  induction hreach with
  | refl => exact h
  | tail _ hcall ih => exact ih.of_mayCall (env.build_invokes asserts hcall)

/-- **When a task returns or throws an exception**, if it ends. -/
theorem catchable_sem_iff {t : Task R} (ht : t.SolvesBy LpSolver.Catches) :
    Catchable ((env.build asserts).sem t) ↔ env.Safe asserts t := by
  constructor
  · intro h t' hreach hfatal
    obtain ⟨e, he, hraises⟩ := (env.exists_raises_iff (env.catches_of_reaches ht hreach)).mpr hfatal
    exact he (h e ((env.build asserts).sem_eq_throw_iff.mpr ⟨t', hreach, hraises⟩))
  · intro h e hthrow
    by_contra he
    obtain ⟨t', hreach, hraises⟩ := (env.build asserts).sem_eq_throw_iff.mp hthrow
    exact h t' hreach ((env.exists_raises_iff (env.catches_of_reaches ht hreach)).mp
      ⟨e, he, hraises⟩)

theorem catchable_run_iff {t : Task R} (ht : t.SolvesBy LpSolver.Catches) :
    (∀ n, Catchable ((env.build asserts).run n t : Outcome Err t.Result)) ↔
      env.Safe asserts t := by
  rw [← env.catchable_sem_iff ht]
  constructor
  · intro h e hsem
    obtain ⟨n, hn⟩ := (env.build asserts).exists_run_eq_sem (t := t) (by rw [hsem]; simp)
    exact h n e (hn.trans hsem)
  · intro h n e hrun
    have hsem := (env.build asserts).sem_of_run (n := n) (t := t) (by rw [hrun]; simp)
    exact h e (hsem.trans hrun)

end Build

end Env

end Commelec
