/-
Commelec/Exceptions.lean

Which exceptions come out of the abstract interpreter?

Some exceptions come from a few kinds of nodes only (`Rare e`): an unbound variable, a
polytope whose matrix is malformed, an expression of an unknown kind.  A method whose
recursive calls do not throw such an exception does not throw it either, unless the node is of
that kind (`RealExpr.Clear`, `SetExpr.Clear`).

An exception that no line of the methods throws (`Foreign e`) is not thrown by `eval`,
`membership` and `evalPartialDerivative`, and by `proj` and `rectHull` only where a set has a
kind they do not know.  "max nesting depth reached" is such an exception: it comes from the
visit counter alone (`foreign_maxNesting`).
-/
import Commelec.Semantics

namespace Commelec

open Effectful Outcome

/-- Not among the exceptions of the evaluation methods. -/
structure Foreign (e : Err) : Prop where
  undefined : e ≠ .undefined
  assertion : e ≠ .assertion
  kjException : e ≠ .kjException
  terminate : e ≠ .terminate
  outOfRange : e ≠ .outOfRange
  unboundCase : e ≠ .evaluationError
    "Variable specified in CaseDistinction not found in VariableMap bound_vars."
  unhandledCase : e ≠ .evaluationError "Unhandled case in CaseDistinction"
  unknownReference (ref msg : String) : e ≠ .unknownReference ref msg
  unknownVariable (ref msg : String) : e ≠ .unknownVariable ref msg
  noConvergence (msg : String) : e ≠ .noConvergence msg
  membership {R : Type} (s : SetExpr R) :
    e ≠ whichError "AdvFunc::membership in msgfunction.cpp" s

theorem foreign_maxNesting : Foreign maxNesting := by
  constructor <;> simp [maxNesting, whichError]

/-- Not among the exceptions of case distinctions, polynomials and references. -/
structure NotFromLookups (e : Err) : Prop where
  outOfRange : e ≠ .outOfRange
  unboundCase : e ≠ .evaluationError
    "Variable specified in CaseDistinction not found in VariableMap bound_vars."
  unhandledCase : e ≠ .evaluationError "Unhandled case in CaseDistinction"
  unknownReference (ref msg : String) : e ≠ .unknownReference ref msg

/-- Not among the exceptions of `eval` and `evalPartialDerivative`, but for unbound variables
and unknown kinds of expressions. -/
structure RareInEval (e : Err) : Prop extends NotFromLookups e where
  undefined : e ≠ .undefined

/-- Not among the exceptions of the methods, but for unbound variables, malformed matrices
and unknown kinds of expressions. -/
structure Rare (e : Err) : Prop extends RareInEval e where
  assertion : e ≠ .assertion
  kjException : e ≠ .kjException
  noConvergence (msg : String) : e ≠ .noConvergence msg
  membership {R : Type} (s : SetExpr R) :
    e ≠ whichError "AdvFunc::membership in msgfunction.cpp" s

theorem Foreign.rare {e : Err} (he : Foreign e) : Rare e :=
  ⟨⟨⟨he.outOfRange, he.unboundCase, he.unhandledCase, he.unknownReference⟩, he.undefined⟩,
    he.assertion, he.kjException, he.noConvergence, he.membership⟩

section Clear

variable {R : Type}

/-- The kinds of sets that `proj` and `rectHull` know. -/
def SetExpr.supported : SetExpr R → Bool
  | .singleton .. | .ball .. | .rectangle .. | .convexPolytope .. | .intersection .. => true
  | .caseDistinction .. | .reference .. | .unknown .. => false

/-- The sets that are intersected. -/
def SetExpr.members : SetExpr R → List (SetExpr R)
  | .intersection _ sets => sets
  | _ => []

/-- The matrix is not rejected by `evalToMatrix`. -/
def SetExpr.WellShaped : SetExpr R → Prop
  | .convexPolytope _ a _ => (checkCapnpMatrix a).1 = false
  | _ => True

/-- Of the rare exceptions, the expression does not throw `e` by itself. -/
def RealExpr.Clear (bv : ValueMap R) (e : Err) : RealExpr R → Prop
  | .var _ v => (∃ ref msg, e = .unknownVariable ref msg) → bv v ≠ none
  | .unknown _ _ => e ≠ .terminate
  | _ => True

/-- Of the rare exceptions, the set does not throw `e` by itself.  `rectHull` evaluates the
matrices of polytopes in an intersection. -/
def SetExpr.Clear (e : Err) (set : SetExpr R) : Prop :=
  e = .terminate → set.WellShaped ∧ ∀ s ∈ set.members, s.WellShaped

theorem Foreign.clearReal {e : Err} (he : Foreign e) (bv : ValueMap R) (expr : RealExpr R) :
    expr.Clear bv e := by
  cases expr with
  | var n v =>
    rintro ⟨ref, msg, h⟩
    exact absurd h (he.unknownVariable ref msg)
  | unknown n w => exact he.terminate
  | _ => trivial

theorem Foreign.clearSet {e : Err} (he : Foreign e) (set : SetExpr R) : set.Clear e :=
  fun h => absurd h he.terminate

end Clear

/-! ### Evaluation -/

section Evaluation

variable {R : Type} [Double R] {e : Err} (he : RareInEval e)

include he

theorem spares_unary {op : UnaryOp} {x : Outcome Err R} (hx : Spares e x) :
    Spares e (evalUnaryOperation op x) := by
  unfold evalUnaryOperation
  split
  · exact hx.map _
  · exact .raise he.undefined

theorem spares_binary {op : BinaryOp} {x y : Outcome Err R} (hx : Spares e x)
    (hy : Spares e y) : Spares e (evalBinaryOperation op x y) := by
  unfold evalBinaryOperation
  split
  · exact (hy.bind fun _ => hx.map _).ite (hx.bind fun _ => hy.map _)
  · exact .raise he.undefined

theorem spares_list {op : ListOp} {xs : List (Outcome Err R)} (h : ∀ x ∈ xs, Spares e x) :
    Spares e (evalListOperation op xs) := by
  unfold evalListOperation
  split
  · exact (collect_spares h).map _
  · exact (collect_spares h).map _
  · exact .raise he.undefined

theorem spares_evalMonomial (d : ℕ) (offset dVar : ℤ) (var : ℕ) (pt : List R) (monom : R) :
    Spares e (evalMonomial d offset dVar var pt monom : Outcome Err R) := by
  induction pt generalizing var monom with
  | nil => exact .pure _
  | cons x pt ih =>
    have hpow : Spares e (intPow d var : Outcome Err ℤ) := by
      unfold intPow
      exact .ite (.pure _) (.raise he.undefined)
    simp only [evalMonomial]
    exact hpow.bind fun k => .ite (.ite (.pure _) (.ite (ih _ _) (ih _ _))) (ih _ _)

theorem spares_evalPolynomial (bv : ValueMap R) (poly : Polynomial R) (dVar : ℤ) :
    Spares e (evalPolynomial bv poly dVar : Outcome Err R) := by
  unfold evalPolynomial
  have hvars : Spares e (collect (poly.vars.map (boundVarAt bv)) : Outcome Err (List R)) := by
    apply collect_spares
    intro x hx
    obtain ⟨v, -, rfl⟩ := List.mem_map.mp hx
    unfold boundVarAt
    split
    · exact .pure _
    · exact .raise he.outOfRange
  refine hvars.bind fun pt => (collect_spares fun x hx => ?_).map _
  obtain ⟨coeff, -, rfl⟩ := List.mem_map.mp hx
  exact (spares_evalMonomial he _ _ _ _ _ _).map _

omit [Double R] he in
theorem spares_caseDistinction (he : NotFromLookups e) (bv : ValueMap R) (vars : List String)
    {cs : List ((List R → Outcome Err Bool) × Outcome Err R)}
    (h : ∀ c ∈ cs, (∀ pt, Spares e (c.1 pt)) ∧ Spares e c.2) :
    Spares e (caseDistinction bv vars cs) := by
  have hpoint : Spares e (casePoint bv vars : Outcome Err (List R)) := by
    apply collect_spares
    intro x hx
    obtain ⟨v, -, rfl⟩ := List.mem_map.mp hx
    split
    · exact .pure _
    · exact .raise he.unboundCase
  refine hpoint.bind fun pt => ?_
  induction cs with
  | nil => exact .raise he.unhandledCase
  | cons c cs ih =>
    obtain ⟨hset, hexpr⟩ := h c (by simp)
    exact (hset pt).bind fun _ => .ite hexpr (ih fun c hc => h c (by simp [hc]))

omit [Double R] he in
theorem spares_derefReal (he : NotFromLookups e) (self : Self R (Outcome Err)) (what ref : String)
    {k : RealExpr R → Outcome Err R} (hk : ∀ e', Spares e (k e')) :
    Spares e (derefReal self what ref k) := by
  unfold derefReal
  split
  · exact hk _
  · exact .raise (he.unknownReference _ _)

omit [Double R] he in
theorem spares_evalVar (self : Self R (Outcome Err)) {n : Option String} {v : String}
    (h : (RealExpr.var n v).Clear self.boundVars e) : Spares e (evalVar self v) := by
  unfold evalVar
  split
  · exact .pure _
  · next hnone => exact .raise fun heq => h ⟨_, _, heq⟩ hnone

omit [Double R] he in
theorem spares_map {α β : Type} {f : α → Outcome Err β} (hf : ∀ a, Spares e (f a))
    (as : List α) : Spares e (collect (as.map f)) := by
  apply collect_spares
  intro x hx
  obtain ⟨a, -, rfl⟩ := List.mem_map.mp hx
  exact hf a

/-- Recursive calls that do not throw `e`. -/
def SparingCalls (e : Err) (c : Calls R (Outcome Err)) : Prop :=
  (∀ expr, Spares e (c.eval expr)) ∧ ∀ s pt, Spares e (c.membership s pt)

variable (env : Env R)

theorem spares_evalRealExpr {c : Calls R (Outcome Err)} (hc : SparingCalls e c)
    {expr : RealExpr R} (h : expr.Clear env.boundVars e) :
    Spares e (evalRealExpr env.self c expr) := by
  refine (Spares.pure ()).bind fun _ => ?_
  cases expr with
  | real n v => exact .pure v
  | polynomial n p => exact spares_evalPolynomial he _ _ _
  | unaryOperation n op a => exact spares_unary he (hc.1 a)
  | binaryOperation n op a b => exact spares_binary he (hc.1 a) (hc.1 b)
  | listOperation n op as =>
    refine spares_list he fun x hx => ?_
    obtain ⟨a, -, rfl⟩ := List.mem_map.mp hx
    exact hc.1 a
  | caseDistinction n vars cs =>
    refine spares_caseDistinction he.toNotFromLookups _ _ fun x hx => ?_
    obtain ⟨c', -, rfl⟩ := List.mem_map.mp hx
    exact ⟨hc.2 _, hc.1 _⟩
  | reference n ref => exact spares_derefReal he.toNotFromLookups _ _ _ hc.1
  | var n v => exact spares_evalVar _ h
  | unknown n w => exact .raise he.undefined

theorem spares_derivUnary {op : UnaryOp} {x dx : Outcome Err R} (hx : Spares e x)
    (hdx : Spares e dx) : Spares e (derivUnaryOperation op x dx) := by
  have houter : ∀ g : R → R, Spares e (outerTimesInner x dx g) :=
    fun g => hx.bind fun _ => hdx.map _
  cases op with
  | negate | square => exact hdx.map _
  | round | floor | ceil => exact hdx
  | sign => exact .pure _
  | unknown => exact .raise he.undefined
  | _ => exact houter _

theorem spares_derivBinary {op : BinaryOp} {x y dx dy : Outcome Err R} (hx : Spares e x)
    (hy : Spares e y) (hdx : Spares e dx) (hdy : Spares e dy) :
    Spares e (derivBinaryOperation op x y dx dy) := by
  cases op with
  | sum => exact hdx.bind fun _ => hdy.map _
  | prod => exact hx.bind fun _ => hdy.bind fun _ => hy.bind fun _ => hdx.map _
  | pow => exact hx.bind fun _ => hy.bind fun _ => hdx.bind fun _ => hdy.map _
  | min | max => exact hx.bind fun _ => hy.bind fun _ => .ite hdx hdy
  | lessEqThan | greaterThan => exact .pure _
  | unknown => exact .raise he.undefined

theorem spares_derivList {op : ListOp} {xs dxs : List (Outcome Err R)}
    (h : ∀ x ∈ xs, Spares e x) (hd : ∀ x ∈ dxs, Spares e x) :
    Spares e (derivListOperation op xs dxs) := by
  cases op with
  | sum => exact (collect_spares hd).map _
  | prod => exact (collect_spares h).bind fun _ => (collect_spares hd).map _
  | unknown => exact .raise he.undefined

theorem spares_derivRealExpr {c : Calls R (Outcome Err)} (hc : SparingCalls e c)
    {pd : RealExpr R → Outcome Err R} (hpd : ∀ expr, Spares e (pd expr)) (x : String)
    {expr : RealExpr R} (h : expr.Clear env.boundVars e) :
    Spares e (derivRealExpr env.self c pd x expr) := by
  refine (Spares.pure ()).bind fun _ => ?_
  cases expr with
  | real n v => exact .pure _
  | polynomial n p =>
    show Spares e (derivPolynomial env.boundVars p x)
    unfold derivPolynomial
    exact .ite (spares_evalPolynomial he _ _ _) (.pure _)
  | unaryOperation n op a => exact spares_derivUnary he (hc.1 a) (hpd a)
  | binaryOperation n op a b => exact spares_derivBinary he (hc.1 a) (hc.1 b) (hpd a) (hpd b)
  | listOperation n op as =>
    refine spares_derivList he (fun x hx => ?_) fun x hx => ?_
    · obtain ⟨a, -, rfl⟩ := List.mem_map.mp hx
      exact hc.1 a
    · obtain ⟨a, -, rfl⟩ := List.mem_map.mp hx
      exact hpd a
  | caseDistinction n vars cs =>
    refine spares_caseDistinction he.toNotFromLookups _ _ fun y hy => ?_
    obtain ⟨c', -, rfl⟩ := List.mem_map.mp hy
    exact ⟨hc.2 _, hpd _⟩
  | reference n ref => exact spares_derefReal he.toNotFromLookups _ _ _ hpd
  | var n v =>
    show Spares e (derivVar env.self x v)
    unfold derivVar
    split
    · exact .ite (.pure _) (.pure _)
    · next hnone => exact .raise fun heq => h ⟨_, _, heq⟩ hnone
  | unknown n w => exact .raise h

end Evaluation

section Methods

variable {R : Type} [Double R] {e : Err} (he : Rare e)

include he

/-! ### Membership -/

omit [Double R] in
theorem spares_assert (b : Bool) : Spares e (assert b : Outcome Err Unit) := by
  unfold assert
  exact .ite (.pure _) (.raise he.assertion)

omit [Double R] he in
/-- The shape of a matrix is that of its expressions. -/
theorem checkCapnpMatrix_map {α β : Type} (f : α → β) (a : List (List α)) :
    checkCapnpMatrix (a.map (List.map f)) = checkCapnpMatrix a := by
  have hlength : List.length ∘ List.map f = List.length := by
    funext row
    exact List.length_map f
  simp only [checkCapnpMatrix, List.map_map, hlength, List.length_map]

omit [Double R] he in
theorem spares_evalToMatrix {ev : RealExpr R → Outcome Err R} (hev : ∀ e', Spares e (ev e'))
    {a : List (List (RealExpr R))} (h : e = .terminate → (checkCapnpMatrix a).1 = false) :
    Spares e (evalToMatrix (a.map (List.map ev))) := by
  rw [evalToMatrix, checkCapnpMatrix_map, List.map_map]
  split
  · next hbad => exact .raise fun heq => absurd (h heq) (by simp [hbad])
  · exact spares_map (spares_map hev) a

theorem spares_insideBounds {ev : RealExpr R → Outcome Err R} (hev : ∀ e', Spares e (ev e'))
    (bs : List (RealExpr R × RealExpr R)) (pt : List R) :
    Spares e (insideBounds (bs.map fun b => (ev b.1, ev b.2)) pt) := by
  induction bs generalizing pt with
  | nil => exact .pure _
  | cons b bs ih =>
    cases pt with
    | nil => exact .raise he.assertion
    | cons x pt =>
      simp only [List.map_cons, insideBounds]
      exact (hev _).bind fun _ => (hev _).bind fun _ => .ite (.pure _) (ih pt)

theorem spares_membershipBall {ev : RealExpr R → Outcome Err R} (hev : ∀ e', Spares e (ev e'))
    (center : List (RealExpr R)) (r : RealExpr R) (pt : List R) :
    Spares e (membershipBall (center.map ev) (ev r) pt) :=
  (spares_assert he _).bind fun _ => (spares_map hev center).bind fun _ => (hev r).map _

theorem spares_membershipConvexPolytope {ev : RealExpr R → Outcome Err R}
    (hev : ∀ e', Spares e (ev e')) {a : List (List (RealExpr R))}
    (h : e = .terminate → (checkCapnpMatrix a).1 = false) (b : List (RealExpr R))
    (pt : List R) :
    Spares e (membershipConvexPolytope (a.map (List.map ev)) (b.map ev) pt) :=
  (spares_evalToMatrix hev h).bind fun _ => (spares_map hev b).bind fun _ =>
    (spares_assert he _).bind fun _ => (spares_assert he _).map _

omit [Double R] he in
theorem spares_membershipIntersection {mem : SetExpr R → Outcome Err Bool}
    (hmem : ∀ s, Spares e (mem s)) (ss : List (SetExpr R)) :
    Spares e (membershipIntersection (ss.map mem)) := by
  induction ss with
  | nil => exact .pure _
  | cons s ss ih => exact (hmem s).bind fun _ => .ite ih (.pure _)

variable (env : Env R)

theorem spares_membershipSetExpr {c : Calls R (Outcome Err)} (hc : SparingCalls e c)
    {s : SetExpr R} (h : s.Clear e) (pt : List R) :
    Spares e (membershipSetExpr env.self c s pt) := by
  refine (Spares.pure ()).bind fun _ => ?_
  cases s with
  | singleton n as =>
    exact (spares_assert he _).bind fun _ => (spares_map hc.1 as).map _
  | ball n center r => exact spares_membershipBall he hc.1 center r pt
  | rectangle n bs =>
    exact (spares_assert he _).bind fun _ => spares_insideBounds he hc.1 bs pt
  | convexPolytope n a b =>
    exact spares_membershipConvexPolytope he hc.1 (fun heq => (h heq).1) b pt
  | intersection n ss => exact spares_membershipIntersection (fun s => hc.2 s pt) ss
  | reference n ref => exact (Spares.pure _).bind fun s => hc.2 s pt
  | caseDistinction n vars cs => exact .raise (he.membership _)
  | unknown n w => exact .raise (he.membership _)

omit he in
/-- **Evaluation and membership do not throw foreign exceptions.** -/
theorem spares_callsAt (he : Foreign e) (fuel : ℕ) : SparingCalls e (env.callsAt fuel) := by
  induction fuel with
  | zero => exact ⟨fun _ => .stop, fun _ _ => .stop⟩
  | succ fuel ih =>
    exact ⟨fun expr => spares_evalRealExpr he.rare.toRareInEval env ih (he.clearReal _ expr),
      fun s pt => spares_membershipSetExpr he.rare env ih (he.clearSet s) pt⟩

omit [Double R] he in
/-- What no outcome of a chain throws, its limit does not throw. -/
theorem spares_limit {α : Type} {c : Chain Err α} (h : ∀ n, Spares e (c n)) :
    Spares e c.limit := by
  by_cases hlim : c.limit = outOfFuel
  · rw [hlim]
    exact .stop
  · obtain ⟨n, hn⟩ := Chain.exists_eq_limit hlim
    rw [← hn]
    exact h n

omit he in
/-- **Derivatives do not throw foreign exceptions.** -/
theorem spares_deriv (he : Foreign e) (x : String) (fuel : ℕ) (expr : RealExpr R) :
    Spares e (evalPartialDerivative (env.self (m := Outcome Err)) x fuel expr) := by
  induction fuel generalizing expr with
  | zero => exact .stop
  | succ fuel ih =>
    exact spares_derivRealExpr he.rare.toRareInEval env (spares_callsAt env he fuel) ih x
      (he.clearReal _ expr)

/-! ### Projections -/

theorem spares_projBall {ev : RealExpr R → Outcome Err R} (hev : ∀ e', Spares e (ev e'))
    (center : List (RealExpr R)) (r : RealExpr R) (pt : List R) :
    Spares e (projBall (center.map ev) (ev r) pt) :=
  (spares_membershipBall he hev center r pt).bind fun _ => .ite (.pure _)
    ((spares_map hev center).bind fun _ => (hev r).map _)

theorem spares_clampBounds {ev : RealExpr R → Outcome Err R} (hev : ∀ e', Spares e (ev e'))
    (bs : List (RealExpr R × RealExpr R)) (pt : List R) :
    Spares e (clampBounds (bs.map fun b => (ev b.1, ev b.2)) pt) := by
  induction bs generalizing pt with
  | nil =>
    cases pt with
    | nil => exact .pure _
    | cons x pt => exact .raise he.undefined
  | cons b bs ih =>
    cases pt with
    | nil => exact (hev _).bind fun _ => (hev _).bind fun _ => .raise he.assertion
    | cons x pt => exact (hev _).bind fun _ => (hev _).bind fun _ => (ih pt).map _

theorem spares_projHalfSpace (hs : HalfSpace R) (pt : List R) :
    Spares e (projHalfSpace hs pt : Outcome Err (List R)) :=
  ((spares_assert he _).map _).bind fun _ => .ite (.pure _) (.pure _)

theorem spares_dykstra {projs : List (List R → Outcome Err (List R))}
    (h : ∀ p ∈ projs, ∀ pt, Spares e (p pt)) (pt : List R) :
    Spares e (dykstraProjectionAlgorithm projs pt >>= convergedOr) := by
  have hsweep : ∀ ps : List (List R → Outcome Err (List R)), (∀ p ∈ ps, ∀ pt, Spares e (p pt)) →
      ∀ ys x, Spares e (dykstraSweep ps ys x) := by
    intro ps
    induction ps with
    | nil => exact fun _ _ _ => .pure _
    | cons p ps ih =>
      intro hps ys x
      cases ys with
      | nil => exact .pure _
      | cons y ys =>
        exact (spares_assert he _).bind fun _ => (hps p (by simp) _).bind fun _ =>
          (spares_assert he _).bind fun _ => (ih (fun p hp => hps p (by simp [hp])) _ _).map _
  have hloop : ∀ iter ys x, Spares e (dykstraLoop projs iter ys x) := by
    intro iter
    induction iter with
    | zero => exact fun _ _ => .pure _
    | succ iter ih => exact fun ys x => (hsweep projs h ys x).bind fun _ => .ite (.pure _) (ih _ _)
  refine (hloop _ _ _).bind fun result => ?_
  cases result with
  | some x => exact .pure x
  | none => exact .raise (he.noConvergence _)

omit [Double R] in
theorem spares_halfSpaces {ev : RealExpr R → Outcome Err R} (hev : ∀ e', Spares e (ev e'))
    (a : List (List (RealExpr R))) (b : List (RealExpr R)) :
    Spares e (halfSpaces (a.map (List.map ev)) (b.map ev)) := by
  induction a generalizing b with
  | nil => exact .pure _
  | cons row a ih =>
    cases b with
    | nil => exact (spares_map hev row).bind fun _ => .raise he.kjException
    | cons bi b => exact (spares_map hev row).bind fun _ => (hev bi).bind fun _ => (ih b).map _

/-- A projection whose recursive calls do not throw `e`. -/
theorem spares_projSetExpr {c : Calls R (Outcome Err)} (hc : SparingCalls e c)
    {pr : SetExpr R → List R → Outcome Err (List R)} {s : SetExpr R}
    (hpr : ∀ s' ∈ s.members, ∀ pt, Spares e (pr s' pt)) (h : s.Clear e)
    (hdef : s.supported = false → e ≠ whichError "AdvFunc::proj" s) (pt : List R) :
    Spares e (projSetExpr env.self c pr s pt) := by
  refine (Spares.pure ()).bind fun _ => ?_
  cases s with
  | singleton n as => exact spares_map hc.1 as
  | ball n center r => exact spares_projBall he hc.1 center r pt
  | rectangle n bs => exact spares_clampBounds he hc.1 bs pt
  | convexPolytope n a b =>
    refine (spares_membershipConvexPolytope he hc.1 (fun heq => (h heq).1) b pt).bind fun _ =>
      .ite (.pure _) ((spares_halfSpaces he hc.1 a b).bind fun hss =>
        spares_dykstra he (fun p hp => ?_) pt)
    obtain ⟨hs, -, rfl⟩ := List.mem_map.mp hp
    exact spares_projHalfSpace he hs
  | intersection n ss =>
    refine (spares_membershipIntersection (fun s => hc.2 s pt) ss).bind fun _ =>
      .ite (.pure _) (spares_dykstra he (fun p hp => ?_) pt)
    obtain ⟨s, hin, rfl⟩ := List.mem_map.mp hp
    exact hpr s hin
  | caseDistinction n vars cs => exact .raise (hdef rfl)
  | reference n ref => exact .raise (hdef rfl)
  | unknown n w => exact .raise (hdef rfl)

variable {PS : SetExpr R → Prop}
  (hcl : ∀ n ss, PS (.intersection n ss) → ∀ s ∈ ss, PS s)

omit [Double R] he in
include hcl in
theorem members_closed {s : SetExpr R} (hs : PS s) : ∀ s' ∈ s.members, PS s' := by
  cases s with
  | intersection n ss => exact hcl n ss hs
  | _ => exact fun s' hin => absurd hin List.not_mem_nil

omit he

include hcl

/-- **Projections do not throw foreign exceptions**, but for kinds they do not know. -/
theorem spares_proj (he : Foreign e)
    (hdef : ∀ s, PS s → s.supported = false → e ≠ whichError "AdvFunc::proj" s)
    (fuel : ℕ) {s : SetExpr R} (hs : PS s) (pt : List R) :
    Spares e (proj env.self fuel s pt) := by
  induction fuel generalizing s pt with
  | zero => exact .stop
  | succ fuel ih =>
    exact spares_projSetExpr he.rare env (spares_callsAt env he fuel)
      (fun s' hin pt => ih (members_closed hcl hs s' hin) pt) (he.clearSet s) (hdef s hs) pt

theorem spares_projPoint (he : Foreign e)
    (hdef : ∀ s, PS s → s.supported = false → e ≠ whichError "AdvFunc::proj" s) (fuel : ℕ)
    {s : SetExpr R} (hs : PS s) (pt : List R) :
    Spares e (projPoint (env.self (m := Outcome Err)) fuel s pt) :=
  (spares_proj env hcl he hdef fuel hs pt).bind fun _ => (spares_assert he.rare _).map _

theorem spares_projPointSem (he : Foreign e)
    (hdef : ∀ s, PS s → s.supported = false → e ≠ whichError "AdvFunc::proj" s)
    {s : SetExpr R} (hs : PS s) (pt : List R) :
    Spares e (env.projSem s pt) ∧ Spares e (env.projPointSem s pt) := by
  have hproj : Spares e (env.projSem s pt) :=
    spares_limit fun n => spares_proj env hcl he hdef n hs pt
  exact ⟨hproj, hproj.bind fun _ => (spares_assert he.rare _).map _⟩

/-! ### Bounding boxes -/

omit hcl

omit [Double R] in
/-- The boxes of singletons, balls and rectangles. -/
theorem spares_hullSingleton {ev : RealExpr R → Outcome Err R} (hev : ∀ e', Spares e (ev e'))
    (as : List (RealExpr R)) : Spares e (hullSingleton (as.map ev)) :=
  (spares_map hev as).map _

theorem spares_hullBall {ev : RealExpr R → Outcome Err R} (hev : ∀ e', Spares e (ev e'))
    (center : List (RealExpr R)) (r : RealExpr R) :
    Spares e (hullBall (center.map ev) (ev r)) :=
  (spares_map hev center).bind fun _ => (hev r).map _

theorem spares_hullRectangle {ev : RealExpr R → Outcome Err R} (hev : ∀ e', Spares e (ev e'))
    (rect : List (RealExpr R × RealExpr R)) :
    Spares e (hullRectangle (rect.map fun b => (ev b.1, ev b.2))) := by
  rw [hullRectangle, List.map_map]
  exact (spares_map (fun b => (hev b.1).bind fun _ => (hev b.2).map _) rect).map _

include he

theorem spares_computeAABB {lp : LpSolver R} (hlp : ∀ halves c, Spares e (lp halves c))
    (A : Matrix R) (b : List R) :
    Spares e (computeAABBConvexPolytope lp A b : Outcome Err (AlignedBox R)) := by
  have hlift : ∀ halves c, Spares e ((lp halves c).lift : Outcome Err (List R)) := by
    intro halves c
    rw [Outcome.lift_self]
    exact hlp halves c
  exact (spares_assert he _).bind fun _ => (spares_assert he _).bind fun _ =>
    (hlift _ _).bind fun _ => (hlift _ _).bind fun _ => (hlift _ _).bind fun _ =>
      (hlift _ _).map _

/-- A member of an intersection that does not throw `e`. -/
def SparingMember (e : Err) : Member R (Outcome Err) → Prop
  | .convexPolytope a b => Spares e (evalToMatrix a) ∧ Spares e (evalToVector b)
  | .other rectHull => Spares e rectHull

theorem spares_mergeMember (st : Merged R) {x : Member R (Outcome Err)}
    (hx : SparingMember e x) : Spares e (mergeMember st x) := by
  cases x with
  | convexPolytope a b =>
    refine hx.2.bind fun bs => hx.1.bind fun A => ?_
    dsimp only
    split
    · exact .pure _
    · exact ((spares_assert he _).bind fun _ => (spares_assert he _).map _).bind fun _ =>
        ((spares_assert he _).map _).map _
  | other hull =>
    refine Spares.bind hx fun box => ?_
    split
    · exact .pure _
    · exact ((spares_assert he _).bind fun _ => (spares_assert he _).map _).map _

theorem spares_hullIntersection {lp : LpSolver R} (hlp : ∀ halves c, Spares e (lp halves c))
    {xs : List (Member R (Outcome Err))} (h : ∀ x ∈ xs, SparingMember e x) :
    Spares e (hullIntersection lp xs) := by
  have hmerge : ∀ st, Spares e (mergeMembers st xs) := by
    induction xs with
    | nil => exact fun st => .pure st
    | cons x xs ih =>
      exact fun st => (spares_mergeMember he st (h x (by simp))).bind fun st =>
        ih (fun x hx => h x (by simp [hx])) st
  refine Spares.bind ((hmerge _).bind fun st => ?_) fun system => ?_
  · dsimp only
    split
    · exact .pure _
    · exact ((spares_assert he _).bind fun _ => (spares_assert he _).map _).bind fun _ =>
        ((spares_assert he _).map _).map _
  · cases system with
    | inl box => exact .pure box
    | inr s => exact spares_computeAABB he hlp s.1 s.2

/-- A bounding box whose recursive calls do not throw `e`. -/
theorem spares_hullSetExpr {lp : LpSolver R} (hlp : ∀ halves c, Spares e (lp halves c))
    {c : Calls R (Outcome Err)} (hc : SparingCalls e c)
    {rh : SetExpr R → Outcome Err (AlignedBox R)} {s : SetExpr R}
    (hrh : ∀ s' ∈ s.members, Spares e (rh s')) (h : s.Clear e)
    (hdef : s.supported = false → e ≠ whichError "AdvFunc::rectangularHull" s) :
    Spares e (hullSetExpr env.self lp c rh s) := by
  refine (Spares.pure ()).bind fun _ => ?_
  cases s with
  | singleton n as => exact spares_hullSingleton hc.1 as
  | ball n center r => exact spares_hullBall hc.1 center r
  | rectangle n bs => exact spares_hullRectangle hc.1 bs
  | convexPolytope n a b =>
    exact (spares_evalToMatrix hc.1 fun heq => (h heq).1).bind fun _ =>
      (spares_map hc.1 b).bind fun _ => spares_computeAABB he hlp _ _
  | intersection n ss =>
    refine spares_hullIntersection he hlp fun x hx => ?_
    obtain ⟨s, hin, rfl⟩ := List.mem_map.mp hx
    have hs := hrh s hin
    have hshape : e = .terminate → s.WellShaped := fun heq => (h heq).2 s hin
    cases s with
    | convexPolytope n a b => exact ⟨spares_evalToMatrix hc.1 hshape, spares_map hc.1 b⟩
    | _ => exact hs
  | caseDistinction n vars cs => exact .raise (hdef rfl)
  | reference n ref => exact .raise (hdef rfl)
  | unknown n w => exact .raise (hdef rfl)

omit he

include hcl

/-- **Bounding boxes do not throw foreign exceptions**, but for kinds they do not know. -/
theorem spares_rectHull (he : Foreign e)
    (hdef : ∀ s, PS s → s.supported = false → e ≠ whichError "AdvFunc::rectangularHull" s)
    {lp : LpSolver R} (hlp : ∀ halves c, Spares e (lp halves c)) (fuel : ℕ) {s : SetExpr R}
    (hs : PS s) : Spares e (rectHull (env.self (m := Outcome Err)) lp fuel s) := by
  induction fuel generalizing s with
  | zero => exact .stop
  | succ fuel ih =>
    exact spares_hullSetExpr he.rare env hlp (spares_callsAt env he fuel)
      (fun s' hin => ih (members_closed hcl hs s' hin)) (he.clearSet s) (hdef s hs)

theorem spares_hullSem (he : Foreign e)
    (hdef : ∀ s, PS s → s.supported = false → e ≠ whichError "AdvFunc::rectangularHull" s)
    {lp : LpSolver R} (hlp : ∀ halves c, Spares e (lp halves c)) {s : SetExpr R} (hs : PS s) :
    Spares e (env.hullSem lp s) :=
  spares_limit fun fuel => spares_rectHull env hcl he hdef hlp fuel hs

end Methods

end Commelec
