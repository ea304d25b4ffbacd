/-
Commelec/MissingVariables.lean

Are missing variables reported uniformly?

Four constructs look up the value of a variable: a VARIABLE node in `evalVar` and in
`evalPartialDerivativeVar`, a polynomial with `_bound_vars->at`, and a case distinction with
`_bound_vars->find`.  The first two throw `UnknownVariable`, the others `std::out_of_range`
and an `EvaluationError`.

An evaluation needs the value of an unbound variable if it comes to a task whose body looks
that variable up (`Env.Needs`).  It then ends with the exception of that construct, and
`UnknownVariable` has no other source.  So missing variables are reported as such exactly if
those that are needed are needed at VARIABLE nodes, or the visit counter ends the evaluation
before (`missing_variables_reported_iff`).
-/
import Commelec.NestingError
import Commelec.SetReferences
import Commelec.Tasks

namespace Commelec

open Effectful Outcome

variable {R : Type}

/-! ### Lookups -/

namespace Task

/-- The variables that the body of the task looks up, in order. -/
def lookups : Task R → List String
  | eval (.var _ v) | evalPartialDerivative _ (.var _ v) => [v]
  | eval (.polynomial _ poly) => poly.vars
  | evalPartialDerivative x (.polynomial _ poly) => if x ∈ poly.vars then poly.vars else []
  | eval (.caseDistinction _ vars _) | evalPartialDerivative _ (.caseDistinction _ vars _) => vars
  | _ => []

/-- The first of them that is not bound. -/
def missing (bv : ValueMap R) (t : Task R) : Option String :=
  t.lookups.find? fun v => (bv v).isNone

/-- The node is a VARIABLE. -/
def AtVariable : Task R → Prop
  | eval (.var ..) | evalPartialDerivative _ (.var ..) => True
  | _ => False

/-- What the body of the task throws when it does not find the variable `v`. -/
def lookupError (v : String) : Task R → Err
  | eval (.var ..) => .unknownVariable v
      ("AdvFunc::evalVar(std::string var, ...) in Evaluate.cpp [var=" ++ v ++ "]")
  | evalPartialDerivative _ (.var ..) => .unknownVariable v
      ("AdvFunc::evalPartialDerivativeVar(const kj::StringPtr var, ...) in " ++
        "Evaluate.cpp [ref=" ++ v ++ "]")
  | eval (.polynomial ..) | evalPartialDerivative _ (.polynomial ..) => .outOfRange
  | _ => .evaluationError
      "Variable specified in CaseDistinction not found in VariableMap bound_vars."

/-- VARIABLE nodes report the variable. -/
theorem AtVariable.lookupError {t : Task R} (h : t.AtVariable) (v : String) :
    ∃ msg, t.lookupError v = .unknownVariable v msg := by
  match t with
  | eval (.var n w) => exact ⟨_, rfl⟩
  | evalPartialDerivative x (.var n w) => exact ⟨_, rfl⟩

/-- Other nodes do not. -/
theorem of_lookupError {t : Task R} {v w msg : String}
    (h : t.lookupError v = .unknownVariable w msg) : t.AtVariable ∧ v = w := by
  cases t with
  | eval e | evalPartialDerivative x e =>
    cases e with
    | var n u =>
      obtain ⟨rfl, -⟩ : v = w ∧ _ := by simpa [Task.lookupError] using h
      exact ⟨trivial, rfl⟩
    | _ => simp [Task.lookupError] at h
  | _ => simp [Task.lookupError] at h

/-- `evaluate`, `evalPartialDerivative` and `testMembership` and what they call. -/
def Evaluates : Task R → Prop
  | eval _ | evalPartialDerivative .. | membership .. => True
  | proj .. | rectHull .. => False

end Task

/-- The first lookup that fails ends a sequence of lookups. -/
theorem collect_find? {α : Type} {f : String → Outcome Err α} {bv : ValueMap R} {e : Err}
    (hbound : ∀ v x, bv v = some x → ∃ a, f v = ok a)
    (hnone : ∀ v, bv v = none → f v = .throw e) {vars : List String} {v : String}
    (h : vars.find? (fun v => (bv v).isNone) = some v) : collect (vars.map f) = .throw e := by
  induction vars with
  | nil => exact absurd h (by simp)
  | cons w vars ih =>
    rw [List.map_cons, collect_cons]
    cases hw : bv w with
    | none =>
      rw [hnone w hw]
      rfl
    | some x =>
      obtain ⟨a, ha⟩ := hbound w x hw
      rw [ha, ok_bind, ih (by simpa [hw] using h)]
      rfl

variable [Double R]

omit [Double R] in
theorem collect_boundVarAt {bv : ValueMap R} {vars : List String} {v : String}
    (h : vars.find? (fun v => (bv v).isNone) = some v) :
    collect (vars.map (boundVarAt bv)) = (.throw .outOfRange : Outcome Err (List R)) := by
  refine collect_find? (fun v x hx => ⟨x, ?_⟩) (fun v hv => ?_) h
  · simp only [boundVarAt, hx]
    rfl
  · simp only [boundVarAt, hv]
    rfl

theorem evalPolynomial_missing {bv : ValueMap R} {poly : Polynomial R} {v : String}
    (h : poly.vars.find? (fun v => (bv v).isNone) = some v) (dVar : ℤ) :
    (evalPolynomial bv poly dVar : Outcome Err R) = .throw .outOfRange := by
  rw [evalPolynomial, collect_boundVarAt h]
  rfl

omit [Double R] in
theorem caseDistinction_missing {bv : ValueMap R} {vars : List String} {v : String}
    (h : vars.find? (fun v => (bv v).isNone) = some v)
    (cases : List ((List R → Outcome Err Bool) × Outcome Err R)) :
    caseDistinction bv vars cases = .throw (.evaluationError
      "Variable specified in CaseDistinction not found in VariableMap bound_vars.") := by
  have hpoint : (casePoint bv vars : Outcome Err (List R)) = .throw (.evaluationError
      "Variable specified in CaseDistinction not found in VariableMap bound_vars.") := by
    refine collect_find? (fun v x hx => ⟨x, ?_⟩) (fun v hv => ?_) h
    · simp only [hx]
      rfl
    · simp only [hv]
      rfl
  rw [caseDistinction, hpoint]
  rfl

namespace Env

variable (env : Env R)

/-- The task needs the value of the variable `v`, which is not bound. -/
def Needs (t : Task R) (v : String) : Prop :=
  ∃ t', env.procedures.Reaches t t' ∧ t'.missing env.boundVars = some v

variable {env}

/-- A body that misses a variable throws. -/
theorem sem_of_missing {t : Task R} {v : String} (h : t.missing env.boundVars = some v) :
    env.procedures.sem t = .throw (t.lookupError v) := by
  have hvar : ∀ w, List.find? (fun v => (env.boundVars v).isNone) [w] = some v →
      w = v ∧ (env.self (m := Outcome Err)).boundVars v = none := by
    intro w hw
    have hnone : env.boundVars v = none := by simpa using List.find?_some hw
    exact ⟨(List.mem_singleton.mp (List.mem_of_find?_eq_some hw)).symm, hnone⟩
  cases t with
  | eval e =>
    rw [sem_eval]
    cases e with
    | var n w =>
      obtain ⟨rfl, hnone⟩ := hvar w h
      rw [evalSem_var]
      simp only [evalVar, hnone]
      rfl
    | polynomial n poly =>
      rw [evalSem_polynomial]
      exact evalPolynomial_missing h _
    | caseDistinction n vars cases =>
      rw [evalSem_case]
      exact caseDistinction_missing h _
    | _ => exact absurd h (by simp [Task.missing, Task.lookups])
  | evalPartialDerivative x e =>
    rw [sem_deriv]
    cases e with
    | var n w =>
      obtain ⟨rfl, hnone⟩ := hvar w h
      rw [derivSem_var]
      simp only [derivVar, hnone]
      rfl
    | polynomial n poly =>
      rw [derivSem_polynomial]
      -- a polynomial that does not depend on `x` looks nothing up
      have hin : x ∈ poly.vars := by
        by_contra hout
        rw [Task.missing, Task.lookups, if_neg hout] at h
        exact absurd h (by simp)
      rw [derivPolynomial]
      simp only [List.idxOf_lt_length_iff.mpr hin, if_true]
      rw [Task.missing, Task.lookups, if_pos hin] at h
      exact evalPolynomial_missing h _
    | caseDistinction n vars cases =>
      rw [derivSem_case]
      exact caseDistinction_missing h _
    | _ => exact absurd h (by simp [Task.missing, Task.lookups])
  | _ => exact absurd h (by simp [Task.missing, Task.lookups])

theorem throw_of_needs {t t' : Task R} {v : String} (hreach : env.procedures.Reaches t t')
    (h : t'.missing env.boundVars = some v) :
    env.procedures.sem t = .throw (t'.lookupError v) :=
  env.procedures.throw_of_reaches hreach (sem_of_missing h)

/-! ### Where `UnknownVariable` comes from -/

theorem rare_unknownVariable (v msg : String) : Rare (.unknownVariable v msg) := by
  refine ⟨⟨⟨?_, ?_, ?_, ?_⟩, ?_⟩, ?_, ?_, ?_, ?_⟩ <;> simp [whichError]

/-- A task that raises `UnknownVariable` is at a VARIABLE node that is not bound. -/
theorem missing_of_raises {t : Task R} (ht : t.Evaluates) {v msg : String}
    (h : env.procedures.Raises t (.unknownVariable v msg)) :
    t.missing env.boundVars = some v := by
  have hclear : ¬ t.Clear env.boundVars (.unknownVariable v msg) :=
    fun hclear => not_raises_of_clear (rare_unknownVariable v msg) hclear h
  -- the node is a variable without value
  have hmissing : ∃ w, t.missing env.boundVars = some w := by
    have hvar : ∀ w, ¬ ((∃ ref msg', Err.unknownVariable v msg = .unknownVariable ref msg') →
        env.boundVars w ≠ none) → [w].find? (fun v => (env.boundVars v).isNone) = some w := by
      intro w hw
      have hnone : env.boundVars w = none := by
        by_contra hsome
        exact hw fun _ => hsome
      simp [hnone]
    cases t with
    | eval e | evalPartialDerivative x e =>
      cases e with
      | var n w => exact ⟨w, hvar w hclear⟩
      | unknown n w => exact absurd (fun h => by simp at h) hclear
      | _ => exact absurd trivial hclear
    | membership s pt => exact absurd (fun h => by simp at h) hclear
    | _ => exact ht.elim
  obtain ⟨w, hw⟩ := hmissing
  have hthrow := (sem_of_missing hw).symm.trans h.1
  obtain ⟨-, rfl⟩ := Task.of_lookupError (Outcome.throw.inj hthrow)
  exact hw

/-- **`UnknownVariable` is thrown for variables that are needed.** -/
theorem needs_of_unknownVariable {t : Task R} (ht : t.Evaluates) {v msg : String}
    (h : env.procedures.sem t = .throw (.unknownVariable v msg)) : env.Needs t v := by
  obtain ⟨t', hreach, hraises⟩ := env.procedures.sem_eq_throw_iff.mp h
  refine ⟨t', hreach, missing_of_raises ?_ hraises⟩
  rcases reaches_mayCall hreach with rfl | hmay
  · exact ht
  · cases t' with
    | proj s pt | rectHull lp s =>
      cases t <;> first | exact hmay.elim | exact ht.elim
    | _ => trivial

end Env

/-! ### Queries -/

/-- Every variable that is needed is reported, and no other. -/
def AdvFunc.ReportsMissing {α : Type} (q : ℕ → Run (AdvFunc R) Err α) (af : AdvFunc R)
    (needs : String → Prop) : Prop :=
  (∀ v, needs v → ∃ msg, AdvFunc.Ends q af (.throw (.unknownVariable v msg))) ∧
    ∀ v msg n, (q n af).1 = .throw (.unknownVariable v msg) → needs v

/-- All variables that are needed are needed at VARIABLE nodes. -/
def Env.NeedsAtVariables (env : Env R) (t : Task R) : Prop :=
  ∀ t', env.procedures.Reaches t t' → t'.missing env.boundVars ≠ none → t'.AtVariable

section Query

variable {af : AdvFunc R} {bv : ValueMap R} {α : Type}
  {method : ℕ → Self R (Method R) → Method R α}

omit [Double R] in
/-- A query that is not cut off has the same outcome with more fuel. -/
theorem AdvFunc.query_mono (hv : af.advValid = true)
    (hmono : ∀ n, definedRun.rel (method n (methods bv af.realExprRefs))
      (method (n + 1) (methods bv af.realExprRefs))) :
    Chain.Mono fun n => (AdvFunc.query bv (method n) af).1 := by
  refine Chain.mono_of_succ fun n => ?_
  rw [AdvFunc.query_fst hv, AdvFunc.query_fst hv]
  exact (hmono n { af.toAdvState with nestingDepth := 0 }).imp id fun h => congrArg Prod.fst h

/-- One query, whose abstract operation is a task. -/
theorem reportsMissing_iff (hv : af.advValid = true) {t : Task R} (ht : t.Evaluates)
    {sem : Outcome Err α} (href : Refines (af.env bv) method sem)
    (hmono : Chain.Mono fun n => (AdvFunc.query bv (method n) af).1)
    (hsem : ∀ e, sem = .throw e ↔ (af.env bv).procedures.sem t = .throw e) {stopped : Prop}
    (hstopped : AdvFunc.Raises (fun n => AdvFunc.query bv (method n)) af ↔ stopped) :
    AdvFunc.ReportsMissing (fun n => AdvFunc.query bv (method n)) af
        (fun v => ¬ stopped ∧ (af.env bv).Needs t v) ↔
      stopped ∨ (af.env bv).NeedsAtVariables t := by
  constructor
  · rintro ⟨hreports, -⟩
    by_cases hstop : stopped
    · exact Or.inl hstop
    · refine Or.inr fun t' hreach hmissing => ?_
      obtain ⟨v, hv'⟩ := Option.ne_none_iff_exists'.mp hmissing
      obtain ⟨msg, hends⟩ := hreports v ⟨hstop, t', hreach, hv'⟩
      have hthrow := (hsem _).mpr (Env.throw_of_needs hreach hv')
      have heq := AdvFunc.EndsWith.eq ⟨hends, by simp [maxNesting]⟩ hv href
      exact (Task.of_lookupError (Outcome.throw.inj (hthrow.symm.trans heq.symm))).1
  · intro h
    constructor
    · rintro v ⟨hstop, t', hreach, hv'⟩
      have hat := h.resolve_left hstop t' hreach (by rw [hv']; simp)
      obtain ⟨msg, hmsg⟩ := hat.lookupError v
      have hthrow := (hsem _).mpr (Env.throw_of_needs hreach hv')
      rw [hmsg] at hthrow
      obtain ⟨n₀, hn₀⟩ := query_terminates hv href (by rw [hthrow]; simp)
      refine ⟨msg, n₀, fun n hn => ?_⟩
      rcases hn₀ n hn with hmax | hout
      · exact absurd (hstopped.mp ⟨n, hmax⟩) hstop
      · exact hout.trans hthrow
    · intro v msg n hn
      have hn : (AdvFunc.query bv (method n) af).1 = .throw (.unknownVariable v msg) := hn
      have hstop : ¬ stopped := by
        -- the exception of the counter would be the outcome too
        intro hstop
        obtain ⟨k, hk⟩ := hstopped.mpr hstop
        have hk : (AdvFunc.query bv (method k) af).1 = .throw maxNesting := hk
        have hsame := (Chain.limit_eq hmono (n := n) (by rw [hn]; simp)).symm.trans
          (Chain.limit_eq hmono (n := k) (by rw [hk]; simp))
        rw [hn, hk] at hsame
        simp [maxNesting] at hsame
      refine ⟨hstop, Env.needs_of_unknownVariable ht ((hsem (.unknownVariable v msg)).mp ?_)⟩
      rcases query_refines hv href n with hmax | hle
      · exact absurd (hstopped.mp ⟨n, hmax⟩) hstop
      · rw [hn] at hle
        exact (hle.eq (by simp)).symm

end Query

/-- **Are missing variables reported uniformly?**  Exactly if those that an evaluation needs are
needed at VARIABLE nodes, or its visits overflow the counter before. -/
theorem missing_variables_reported_iff {af : AdvFunc R} (hv : af.advValid = true)
    (bv : ValueMap R) (e : RealExpr R) :
    (AdvFunc.ReportsMissing (fun n => AdvFunc.evaluate n e bv) af
        (fun v => ¬ Overflows (fun n => (calls (af.env bv).tracing n).eval e) ∧
          (af.env bv).Needs (.eval e) v) ↔
      Overflows (fun n => (calls (af.env bv).tracing n).eval e) ∨
        (af.env bv).NeedsAtVariables (.eval e)) ∧
    ∀ x, AdvFunc.ReportsMissing (fun n => AdvFunc.evalPartialDerivative n e x bv) af
        (fun v => ¬ Overflows
            (fun n => Commelec.evalPartialDerivative (af.env bv).tracing x n e) ∧
          (af.env bv).Needs (.evalPartialDerivative x e) v) ↔
      Overflows (fun n => Commelec.evalPartialDerivative (af.env bv).tracing x n e) ∨
        (af.env bv).NeedsAtVariables (.evalPartialDerivative x e) := by
  have hself := related_self bv af.realExprRefs
  refine ⟨?_, fun x => ?_⟩
  · have hevaluates : Task.Evaluates (.eval e) := trivial
    exact reportsMissing_iff hv hevaluates (refines_eval _ e)
      (AdvFunc.query_mono hv fun n => (rel_calls_succ .all hself definedRun_bot n).eval trivial)
      (fun err => by rw [Env.sem_eval]; rfl) (AdvFunc.evaluate_raises_iff hv bv e)
  · have hevaluates : Task.Evaluates (.evalPartialDerivative x e) := trivial
    exact reportsMissing_iff hv hevaluates (refines_deriv _ x e)
      (AdvFunc.query_mono hv fun n =>
        rel_evalPartialDerivative_succ .all hself definedRun_bot x n trivial)
      (fun err => by rw [Env.sem_deriv]; rfl)
      (AdvFunc.evalPartialDerivative_raises_iff hv bv e x)

/-! ### The variable `Z`, which is not bound -/

/-- The expression -Z. -/
def minusZ : RealExpr ℝ := .unaryOperation none .negate (.var none "Z")

/-- The polynomial Z. -/
def polynomialZ : RealExpr ℝ := .polynomial none ⟨["Z"], 1, [⟨1, 1⟩]⟩

/-- The nodes of `-Z`. -/
theorem closed_minusZ : Closed (fun e => e = minusZ ∨ e = .var none "Z")
    (fun s : SetExpr ℝ => s = .default) where
  unary h := by simp_all [minusZ]
  binary h := by simp [minusZ] at h
  list h := by simp [minusZ] at h
  realCases h := by simp [minusZ] at h
  singleton h := by simp_all [SetExpr.default]
  ball h := by simp [SetExpr.default] at h
  rectangle h := by simp [SetExpr.default] at h
  convexPolytope h := by simp [SetExpr.default] at h
  intersection h := by simp [SetExpr.default] at h

theorem missing_variables_reported_iff_sample :
    AdvFunc.ReportsMissing (fun n => AdvFunc.evaluate n minusZ (bindPQ 0 0)) emptyAdv
      (fun v => ¬ Overflows (fun n => (calls (emptyAdv.env (bindPQ 0 0)).tracing n).eval minusZ) ∧
        (emptyAdv.env (bindPQ 0 0)).Needs (.eval minusZ) v) := by
  refine (missing_variables_reported_iff rfl (bindPQ 0 0) minusZ).1.mpr (Or.inr ?_)
  intro t hreach hmissing
  have hstart : (Task.eval minusZ).Within (fun e => e = minusZ ∨ e = .var none "Z")
      (fun s => s = .default) := Or.inl rfl
  have hwithin := Env.reaches_within closed_minusZ
    (fun ref e h => absurd (show none = some e from h) (by simp)) (fun ref => rfl) hstart hreach
  cases t with
  | eval e | evalPartialDerivative x e =>
    rcases hwithin with rfl | rfl
    · exact absurd rfl hmissing
    · trivial
  | _ => exact absurd rfl hmissing

/-- The polynomial needs the variable, and what it throws is `std::out_of_range`. -/
theorem polynomial_out_of_range :
    AdvFunc.Ends (fun n => AdvFunc.evaluate n polynomialZ (bindPQ 0 0)) emptyAdv
      (.throw .outOfRange) ∧
    (emptyAdv.env (bindPQ 0 0)).Needs (.eval polynomialZ) "Z" ∧
    ¬ AdvFunc.ReportsMissing (fun n => AdvFunc.evaluate n polynomialZ (bindPQ 0 0)) emptyAdv
      (fun v =>
        ¬ Overflows (fun n => (calls (emptyAdv.env (bindPQ 0 0)).tracing n).eval polynomialZ) ∧
          (emptyAdv.env (bindPQ 0 0)).Needs (.eval polynomialZ) v) := by
  have hends : AdvFunc.Ends (fun n => AdvFunc.evaluate n polynomialZ (bindPQ 0 0)) emptyAdv
      (.throw .outOfRange) := by
    refine ⟨1, fun n hn => ?_⟩
    obtain ⟨n, rfl⟩ := Nat.exists_eq_add_of_le' hn
    rfl
  have hneeds : (emptyAdv.env (bindPQ 0 0)).Needs (.eval polynomialZ) "Z" := ⟨_, .refl, rfl⟩
  have hfree : ¬ Overflows
      (fun n => (calls (emptyAdv.env (bindPQ 0 0)).tracing n).eval polynomialZ) := by
    -- there is at most one visit
    rintro ⟨n, k, hk⟩
    have hvisits : ((calls (emptyAdv.env (bindPQ 0 0)).tracing n).eval polynomialZ []).2.length
        ≤ 1 := by
      cases n with
      | zero => exact Nat.zero_le 1
      | succ n => exact le_rfl
    have hlt := (List.getElem?_eq_some_iff.mp hk).1.trans_le hvisits
    unfold MAX_NESTING_DEPTH at hlt
    omega
  refine ⟨hends, hneeds, fun hreports => ?_⟩
  obtain ⟨msg, hmsg⟩ := hreports.1 "Z" ⟨hfree, hneeds⟩
  exact absurd (hends.unique hmsg) (by simp)

end Commelec
