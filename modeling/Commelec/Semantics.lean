/-
Commelec/Semantics.lean

The abstract interpreter: what the queries compute when no visit counter
interferes.  `Env` holds what an expression is interpreted in (the bound
variables and the two maps of named expressions); `evalSem`, `memberSem`,
`derivSem`, `projSem` and `hullSem` give the outcome of each operation, where
`outOfFuel` means that the recursion does not end.

Two results connect it to the object:

* the recursion equations `evalSem_eq`, ..., `hullSem_eq`: the abstract
  operations are the methods of the sources, calling each other;
* the refinement theorems `query_refines`, `query_terminates`: a query of an
  `AdvFunc` ends with "max nesting depth reached", or has the abstract outcome.
-/
import Commelec.Lib.Limit
import Commelec.AdvFunc
import Commelec.Parametric

namespace Commelec

open Effectful Outcome

variable {R : Type} [Double R]

/-- What an expression is interpreted in. -/
structure Env (R : Type) where
  boundVars : ValueMap R
  realExprRefs : RealExprRefMap R
  setExprRefs : SetExprRefMap R

/-- A lookup with `operator[]`. -/
def SetExprRefMap.get (refs : SetExprRefMap R) (ref : String) : SetExpr R :=
  (refs ref).getD .default

namespace Env

variable (env : Env R)

/-- An object whose visits have no effect, in any monad with effects. -/
def self {m : Type → Type} [Effects Err m] : Self R m where
  boundVars := env.boundVars
  realExprRefs := env.realExprRefs
  visit := pure ()
  visitSet := pure ()
  findSet ref := pure (env.setExprRefs.get ref)

/-! ### The abstract operations -/

/-- The recursive calls with a bound on the depth, and no other guard. -/
abbrev callsAt (fuel : ℕ) : Calls R (Outcome Err) := calls env.self fuel

noncomputable def evalSem (e : RealExpr R) : Outcome Err R :=
  Chain.limit fun n => (env.callsAt n).eval e

noncomputable def memberSem (s : SetExpr R) (pt : List R) : Outcome Err Bool :=
  Chain.limit fun n => (env.callsAt n).membership s pt

noncomputable def derivSem (x : String) (e : RealExpr R) : Outcome Err R :=
  Chain.limit fun n => evalPartialDerivative env.self x n e

noncomputable def projSem (s : SetExpr R) (pt : List R) : Outcome Err (List R) :=
  Chain.limit fun n => proj env.self n s pt

noncomputable def hullSem (lp : LpSolver R) (s : SetExpr R) : Outcome Err (AlignedBox R) :=
  Chain.limit fun n => rectHull env.self lp n s

/-- The abstract evaluation and membership as recursive calls. -/
noncomputable def sem : Calls R (Outcome Err) := ⟨env.evalSem, env.memberSem⟩

/-! ### An object in two monads -/

omit [Double R] in
/-- The unguarded object is related to itself under every relation. -/
theorem related {m m' : Type → Type} [Effects Err m] [Effects Err m']
    (S : EffectRel Err m m') :
    Related S (fun _ => True) (fun _ => True) (env.self (m := m)) (env.self (m := m')) where
  boundVars := rfl
  visit := S.rel_pure ()
  visitSet _ := S.rel_pure ()
  real _ := ⟨rfl, fun _ _ => trivial⟩
  set := by
    intro _ _ _ _ _ _ hk
    exact S.rel_bind (S.rel_pure _) fun s => hk s trivial

/-! ### More fuel -/

theorem eval_mono (e : RealExpr R) : Chain.Mono fun n => (env.callsAt n).eval e :=
  Chain.mono_of_succ fun n => (rel_calls_succ .all (env.related defined) .bot n).eval trivial

theorem membership_mono (s : SetExpr R) (pt : List R) :
    Chain.Mono fun n => (env.callsAt n).membership s pt :=
  Chain.mono_of_succ fun n =>
    (rel_calls_succ .all (env.related defined) .bot n).membership pt trivial

theorem deriv_mono (x : String) (e : RealExpr R) :
    Chain.Mono fun n => evalPartialDerivative (env.self (m := Outcome Err)) x n e :=
  Chain.mono_of_succ fun n =>
    rel_evalPartialDerivative_succ .all (env.related defined) .bot x n trivial

theorem proj_mono (s : SetExpr R) (pt : List R) :
    Chain.Mono fun n => proj (env.self (m := Outcome Err)) n s pt :=
  Chain.mono_of_succ fun n => rel_proj_succ .all (env.related defined) .bot n trivial pt

theorem hull_mono (lp : LpSolver R) (s : SetExpr R) :
    Chain.Mono fun n => rectHull (env.self (m := Outcome Err)) lp n s :=
  Chain.mono_of_succ fun n => rel_rectHull_succ .all (env.related defined) .bot lp n trivial

/-! ### The recursion equations

The recursive calls for all fuels at once form calls in the monad of chains.
Run on them, a method is related to its run at each fuel by `atFuel`, and to its
run on the limits by `settles`. -/

/-- The recursive calls, as chains. -/
def chainCalls : Calls R (Chain Err) :=
  ⟨fun e n => (env.callsAt n).eval e, fun s pt n => (env.callsAt n).membership s pt⟩

theorem chainCalls_atFuel (n : ℕ) : RelCalls (atFuel n) (fun _ => True) (fun _ => True)
    env.chainCalls (env.callsAt n) :=
  ⟨fun _ => rfl, fun _ _ => rfl⟩

theorem chainCalls_settle : RelCalls settles (fun _ => True) (fun _ => True)
    env.chainCalls env.sem :=
  ⟨fun {e} _ => ⟨env.eval_mono e, rfl⟩, fun {s} pt _ => ⟨env.membership_mono s pt, rfl⟩⟩

/-- The outcomes of a derivative, one per fuel. -/
def derivChain (x : String) (e : RealExpr R) : Chain Err R :=
  fun n => evalPartialDerivative env.self x n e

def projChain (s : SetExpr R) (pt : List R) : Chain Err (List R) :=
  fun n => proj env.self n s pt

def hullChain (lp : LpSolver R) (s : SetExpr R) : Chain Err (AlignedBox R) :=
  fun n => rectHull env.self lp n s

theorem derivChain_atFuel (x : String) (e : RealExpr R) (n : ℕ) :
    (atFuel n).rel (env.derivChain x e) (evalPartialDerivative env.self x n e) := rfl

theorem projChain_atFuel (s : SetExpr R) (pt : List R) (n : ℕ) :
    (atFuel n).rel (env.projChain s pt) (proj env.self n s pt) := rfl

theorem hullChain_atFuel (lp : LpSolver R) (s : SetExpr R) (n : ℕ) :
    (atFuel n).rel (env.hullChain lp s) (rectHull env.self lp n s) := rfl

/-- A chain whose next outcome is computed by a settling chain has its limit. -/
theorem limit_eq_of_step {α : Type} {c d : Chain Err α} {y : Outcome Err α}
    (hc : c.Mono) (hstep : ∀ n, d n = c (n + 1)) (hd : settles.rel d y) : c.limit = y := by
  have hshift : (fun n => c (n + 1)) = d := funext fun n => (hstep n).symm
  rw [← Chain.limit_succ hc, hshift]
  exact hd.2

/-- **Evaluation, without fuel**: the method `eval` calling itself. -/
theorem evalSem_eq (e : RealExpr R) :
    env.evalSem e = evalRealExpr env.self env.sem e :=
  limit_eq_of_step (env.eval_mono e)
    (fun n => rel_evalRealExpr .all (env.related (atFuel n)) (env.chainCalls_atFuel n) trivial)
    (rel_evalRealExpr .all (env.related settles) env.chainCalls_settle trivial)

/-- **Membership, without fuel.** -/
theorem memberSem_eq (s : SetExpr R) (pt : List R) :
    env.memberSem s pt = membershipSetExpr env.self env.sem s pt :=
  limit_eq_of_step (env.membership_mono s pt)
    (fun n => rel_membershipSetExpr .all (env.related (atFuel n)) (env.chainCalls_atFuel n)
      trivial pt)
    (rel_membershipSetExpr .all (env.related settles) env.chainCalls_settle trivial pt)

/-- **Derivatives, without fuel.** -/
theorem derivSem_eq (x : String) (e : RealExpr R) :
    env.derivSem x e = derivRealExpr env.self env.sem (env.derivSem x) x e :=
  limit_eq_of_step (env.deriv_mono x e)
    (fun n => rel_derivRealExpr .all (env.related (atFuel n)) (env.chainCalls_atFuel n)
      (fun e _ => env.derivChain_atFuel x e n) x trivial)
    (rel_derivRealExpr .all (env.related settles) env.chainCalls_settle
      (fun e _ => ⟨env.deriv_mono x e, rfl⟩) x trivial)

/-- **Projection, without fuel.** -/
theorem projSem_eq (s : SetExpr R) (pt : List R) :
    env.projSem s pt = projSetExpr env.self env.sem env.projSem s pt :=
  limit_eq_of_step (env.proj_mono s pt)
    (fun n => rel_projSetExpr .all (env.related (atFuel n)) (env.chainCalls_atFuel n)
      (fun s pt _ => env.projChain_atFuel s pt n) trivial pt)
    (rel_projSetExpr .all (env.related settles) env.chainCalls_settle
      (fun s pt _ => ⟨env.proj_mono s pt, rfl⟩) trivial pt)

/-- **Bounding boxes, without fuel.** -/
theorem hullSem_eq (lp : LpSolver R) (s : SetExpr R) :
    env.hullSem lp s = hullSetExpr env.self lp env.sem (env.hullSem lp) s :=
  limit_eq_of_step (env.hull_mono lp s)
    (fun n => rel_hullSetExpr .all (env.related (atFuel n)) rfl lp (env.chainCalls_atFuel n)
      (fun s _ => env.hullChain_atFuel lp s n) trivial)
    (rel_hullSetExpr .all (env.related settles)
      ⟨Chain.mono_const _, Chain.limit_const _⟩ lp env.chainCalls_settle
      (fun s _ => ⟨env.hull_mono lp s, rfl⟩) trivial)

/-! ### One equation for each kind of expression -/

section Equations

variable (n : Option String) (x : String)

theorem evalSem_real (v : R) : env.evalSem (.real n v) = ok v := env.evalSem_eq _

theorem evalSem_var (v : String) : env.evalSem (.var n v) = evalVar env.self v :=
  env.evalSem_eq _

theorem evalSem_polynomial (p : Polynomial R) :
    env.evalSem (.polynomial n p) = evalPolynomial env.boundVars p (-1) := env.evalSem_eq _

theorem evalSem_unary (op : UnaryOp) (a : RealExpr R) :
    env.evalSem (.unaryOperation n op a) = evalUnaryOperation op (env.evalSem a) :=
  env.evalSem_eq _

theorem evalSem_binary (op : BinaryOp) (a b : RealExpr R) :
    env.evalSem (.binaryOperation n op a b)
      = evalBinaryOperation op (env.evalSem a) (env.evalSem b) := env.evalSem_eq _

theorem evalSem_list (op : ListOp) (as : List (RealExpr R)) :
    env.evalSem (.listOperation n op as) = evalListOperation op (as.map env.evalSem) :=
  env.evalSem_eq _

theorem evalSem_case (vars : List String) (cs : List (SetExpr R × RealExpr R)) :
    env.evalSem (.caseDistinction n vars cs)
      = caseDistinction env.boundVars vars
        (cs.map fun c => (env.memberSem c.1, env.evalSem c.2)) := env.evalSem_eq _

theorem evalSem_reference {ref : String} {e : RealExpr R} (h : env.realExprRefs ref = some e) :
    env.evalSem (.reference n ref) = env.evalSem e := by
  have hself : (env.self (m := Outcome Err)).realExprRefs ref = some e := h
  rw [env.evalSem_eq]
  show evalRef env.self env.sem ref = _
  simp only [evalRef, derefReal, hself]
  rfl

theorem derivSem_real (v : R) : env.derivSem x (.real n v) = ok 0 := env.derivSem_eq x _

theorem derivSem_var (v : String) : env.derivSem x (.var n v) = derivVar env.self x v :=
  env.derivSem_eq x _

theorem derivSem_polynomial (p : Polynomial R) :
    env.derivSem x (.polynomial n p) = derivPolynomial env.boundVars p x := env.derivSem_eq x _

theorem derivSem_unary (op : UnaryOp) (a : RealExpr R) :
    env.derivSem x (.unaryOperation n op a)
      = derivUnaryOperation op (env.evalSem a) (env.derivSem x a) := env.derivSem_eq x _

theorem derivSem_binary (op : BinaryOp) (a b : RealExpr R) :
    env.derivSem x (.binaryOperation n op a b)
      = derivBinaryOperation op (env.evalSem a) (env.evalSem b) (env.derivSem x a)
        (env.derivSem x b) := env.derivSem_eq x _

theorem derivSem_list (op : ListOp) (as : List (RealExpr R)) :
    env.derivSem x (.listOperation n op as)
      = derivListOperation op (as.map env.evalSem) (as.map (env.derivSem x)) :=
  env.derivSem_eq x _

theorem derivSem_case (vars : List String) (cs : List (SetExpr R × RealExpr R)) :
    env.derivSem x (.caseDistinction n vars cs)
      = caseDistinction env.boundVars vars
        (cs.map fun c => (env.memberSem c.1, env.derivSem x c.2)) := env.derivSem_eq x _

theorem derivSem_reference {ref : String} {e : RealExpr R} (h : env.realExprRefs ref = some e) :
    env.derivSem x (.reference n ref) = env.derivSem x e := by
  have hself : (env.self (m := Outcome Err)).realExprRefs ref = some e := h
  rw [env.derivSem_eq]
  show derivRef env.self (env.derivSem x) ref = _
  simp only [derivRef, derefReal, hself]

end Equations

end Env

/-! ### The object refines the abstract interpreter -/

/-- Two maps of named sets give the same sets. -/
def SameSets (refs refs' : SetExprRefMap R) : Prop := ∀ ref, refs.get ref = refs'.get ref

/-- A run that keeps the named sets, and ends with "max nesting depth reached" or
with the given outcome. -/
def guarded (refs : SetExprRefMap R) : EffectRel Err (Method R) (Outcome Err) where
  rel x y := ∀ s, SameSets s.setExprRefs refs →
    ((x s).1 = .throw maxNesting ∨ (x s).1 = y) ∧ SameSets (x s).2.setExprRefs refs
  rel_pure _ _ hs := ⟨Or.inr rfl, hs⟩
  rel_raise _ _ hs := ⟨Or.inr rfl, hs⟩
  rel_bind := by
    intro α β x y f g hx hf s hs
    obtain ⟨hout, hsets⟩ := hx s hs
    rcases hxs : x s with ⟨o, s'⟩
    rw [hxs] at hout hsets
    cases o with
    | ok a =>
      obtain rfl : ok a = y := by simpa using hout
      rw [Run.bind_ok hxs]
      exact hf a s' hsets
    | throw e =>
      rw [Run.bind_throw hxs]
      refine ⟨hout.imp (fun h => by simpa using h) fun h => ?_, hsets⟩
      rw [← h]
      rfl
    | outOfFuel =>
      rw [Run.bind_outOfFuel hxs]
      obtain rfl : outOfFuel = y := by simpa using hout
      exact ⟨Or.inr rfl, hsets⟩

omit [Double R] in
/-- The state after a lookup gives the same sets. -/
theorem sameSets_findSet (ref : String) (s : AdvState R) :
    (findSet ref s).1 = .ok (s.setExprRefs.get ref) ∧
      SameSets (findSet ref s).2.setExprRefs s.setExprRefs := by
  unfold findSet SetExprRefMap.get
  split
  · next set h => exact ⟨by simp [h], fun _ => rfl⟩
  · next h =>
    refine ⟨by simp [h], fun ref' => ?_⟩
    by_cases hr : ref' = ref
    · subst hr; simp [SetExprRefMap.get, h]
    · simp [SetExprRefMap.get, Function.update_of_ne hr]

omit [Double R] in
theorem nestingDepth_findSet (ref : String) (s : AdvState R) :
    (findSet ref s).2.nestingDepth = s.nestingDepth := by
  rw [findSet]
  split <;> rfl

omit [Double R] in
/-- The methods of an object are guarded versions of the abstract ones. -/
theorem related_methods (env : Env R) :
    Related (guarded env.setExprRefs) (fun _ => True) (fun _ => True)
      (methods env.boundVars env.realExprRefs) env.self where
  boundVars := rfl
  visit := by
    intro s hs
    simp only [methods, visit]
    split
    · exact ⟨Or.inl rfl, hs⟩
    · exact ⟨Or.inr rfl, hs⟩
  visitSet := by
    intro _ _ s hs
    simp only [methods, visitSet]
    split
    · exact ⟨Or.inr rfl, hs⟩
    · exact ⟨Or.inr rfl, hs⟩
  real _ := ⟨rfl, fun _ _ => trivial⟩
  set := by
    intro n ref _ α k k' hk s hs
    obtain ⟨hok, hsame⟩ := sameSets_findSet ref s
    have hfind : findSet ref s = (.ok (env.setExprRefs.get ref), (findSet ref s).2) :=
      Prod.ext (by rw [hok, hs ref]) rfl
    have hbind := Run.bind_ok (f := k) hfind
    simp only [methods]
    rw [hbind]
    exact hk _ trivial _ fun ref' => (hsame ref').trans (hs ref')

/-- What the sets and expressions of an object are interpreted in. -/
def AdvFunc.env (af : AdvFunc R) (boundVars : ValueMap R) : Env R :=
  ⟨boundVars, af.realExprRefs, af.setExprRefs⟩

/-- An abstract operation that a method with a fuel argument is a guarded version of. -/
structure Refines {α : Type} (env : Env R)
    (method : ℕ → Self R (Method R) → Method R α) (sem : Outcome Err α) : Prop where
  exists_chain : ∃ c : Chain Err α, c.Mono ∧ c.limit = sem ∧
    ∀ n, (guarded env.setExprRefs).rel (method n (methods env.boundVars env.realExprRefs)) (c n)

omit [Double R] in
theorem guarded_stop (refs : SetExprRefMap R) {α : Type} :
    (guarded refs).rel (stop : Method R α) stop :=
  fun _ hs => ⟨Or.inr rfl, hs⟩

theorem refines_eval (env : Env R) (e : RealExpr R) :
    Refines env (fun n self => (calls self n).eval e) (env.evalSem e) :=
  ⟨_, env.eval_mono e, rfl, fun n =>
    (rel_calls .all (related_methods env) (guarded_stop _) n).eval trivial⟩

theorem refines_membership (env : Env R) (s : SetExpr R) (pt : List R) :
    Refines env (fun n self => (calls self n).membership s pt) (env.memberSem s pt) :=
  ⟨_, env.membership_mono s pt, rfl, fun n =>
    (rel_calls .all (related_methods env) (guarded_stop _) n).membership pt trivial⟩

theorem refines_deriv (env : Env R) (x : String) (e : RealExpr R) :
    Refines env (fun n self => evalPartialDerivative self x n e) (env.derivSem x e) :=
  ⟨_, env.deriv_mono x e, rfl, fun n =>
    rel_evalPartialDerivative .all (related_methods env) (guarded_stop _) x n trivial⟩

/-- The projection of a point in a `std::vector`. -/
noncomputable def Env.projPointSem (env : Env R) (s : SetExpr R) (pt : List R) :
    Outcome Err (List R) := do
  let res ← env.projSem s pt
  assert (res.length = pt.length)
  pure res

theorem refines_projPoint (env : Env R) (s : SetExpr R) (pt : List R) :
    Refines env (fun n self => projPoint self n s pt) (env.projPointSem s pt) := by
  let c : Chain Err (List R) := do
    let res ← (env.projChain s pt : Chain Err (List R))
    assert (res.length = pt.length)
    pure res
  have hsettle : settles.rel c (env.projPointSem s pt) :=
    settles.rel_bind ⟨env.proj_mono s pt, rfl⟩ fun res =>
      settles.rel_bind (rel_assert settles _) fun _ => settles.rel_pure res
  refine ⟨c, hsettle.1, hsettle.2, fun n => ?_⟩
  have hn : (atFuel n).rel c (projPoint env.self n s pt) :=
    (atFuel n).rel_bind (env.projChain_atFuel s pt n) fun res =>
      (atFuel n).rel_bind (rel_assert (atFuel n) _) fun _ => (atFuel n).rel_pure res
  rw [show c n = projPoint env.self n s pt from hn]
  exact rel_projPoint .all (related_methods env) (guarded_stop _) n trivial pt

theorem refines_hull (env : Env R) (lp : LpSolver R) (s : SetExpr R) :
    Refines env (fun n self => rectHull self lp n s) (env.hullSem lp s) :=
  ⟨_, env.hull_mono lp s, rfl, fun n =>
    rel_rectHull .all (related_methods env) (guarded_stop _) lp n trivial⟩

section Query

variable {α : Type} {af : AdvFunc R} {boundVars : ValueMap R} {sem : Outcome Err α}
  {method : ℕ → Self R (Method R) → Method R α}

omit [Double R] in
/-- The outcome of a query, before the object is updated. -/
theorem AdvFunc.query_fst (h : af.advValid = true) (f : Self R (Method R) → Method R α) :
    (AdvFunc.query boundVars f af).1 =
      (f (methods boundVars af.realExprRefs) { af.toAdvState with nestingDepth := 0 }).1 := by
  simp [AdvFunc.query, h]

omit [Double R] in
/-- **The object refines the abstract interpreter**: a query ends with "max nesting
depth reached", is cut off, or has the abstract outcome. -/
theorem query_refines (h : af.advValid = true) (href : Refines (af.env boundVars) method sem)
    (n : ℕ) :
    (AdvFunc.query boundVars (method n) af).1 = .throw maxNesting ∨
      (AdvFunc.query boundVars (method n) af).1.Le sem := by
  obtain ⟨c, hmono, rfl, hrel⟩ := href.exists_chain
  rw [AdvFunc.query_fst h]
  have hg := (hrel n { af.toAdvState with nestingDepth := 0 } (fun _ => rfl)).1
  rcases hg with hmax | heq
  · exact Or.inl hmax
  · exact Or.inr (heq ▸ Chain.le_limit hmono n)

omit [Double R] in
/-- **A query terminates when the abstract operation does**: with enough fuel it is
not cut off. -/
theorem query_terminates (h : af.advValid = true)
    (href : Refines (af.env boundVars) method sem) (hsem : sem ≠ outOfFuel) :
    ∃ n₀, ∀ n, n₀ ≤ n →
      (AdvFunc.query boundVars (method n) af).1 = .throw maxNesting ∨
        (AdvFunc.query boundVars (method n) af).1 = sem := by
  obtain ⟨c, hmono, rfl, hrel⟩ := href.exists_chain
  obtain ⟨n₀, hn₀⟩ := Chain.exists_eq_limit hsem
  refine ⟨n₀, fun n hn => ?_⟩
  rw [AdvFunc.query_fst h]
  have hcn : c n = c.limit := ((hmono n₀ n hn).eq (hn₀ ▸ hsem)).symm.trans hn₀
  rw [← hcn]
  exact (hrel n { af.toAdvState with nestingDepth := 0 } (fun _ => rfl)).1

omit [Double R] in
/-- What a query returns is the outcome of the abstract operation. -/
theorem sem_of_returned (hv : af.advValid = true)
    (href : Refines (af.env boundVars) method sem) {fuel : ℕ} {a : α}
    (h : (AdvFunc.query boundVars (method fuel) af).1 = ok a) : sem = ok a := by
  rcases query_refines hv href fuel with hmax | hle
  · rw [h] at hmax
    exact absurd hmax (by simp)
  · rw [h] at hle
    exact (hle.eq (by simp)).symm

end Query

end Commelec
