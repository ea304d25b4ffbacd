/-
Commelec/Tasks.lean

The abstract interpreter as a family of mutually recursive procedures.

A `Task` is a call of one of the five methods with its arguments; its body is the method.
So what is known about procedures applies to the interpreter: an exception leaves a query
exactly if the query comes, through calls, to a task whose own body raises it.  Two facts
say more about the interpreter:

* a task calls tasks on the parts of its node, and on what it refers to
  (`invokes_within`);
* the rare exceptions are raised only at the nodes they are about
  (`not_raises_of_clear`).
-/
import Commelec.Exceptions
import Commelec.Lib.Procedures

namespace Commelec

open Effectful Outcome

variable {R : Type}

/-- A call of one of the methods. -/
inductive Task (R : Type) where
  | eval (expr : RealExpr R)
  | evalPartialDerivative (diffVariable : String) (expr : RealExpr R)
  | membership (set : SetExpr R) (point : List R)
  | proj (set : SetExpr R) (point : List R)
  | rectHull (solveLp2 : LpSolver R) (set : SetExpr R)

namespace Task

/-- What the method returns. -/
def Result : Task R → Type
  | eval _ | evalPartialDerivative .. => R
  | membership .. => Bool
  | proj .. => List R
  | rectHull .. => AlignedBox R

/-- The node of the task is in `PR` or `PS`. -/
def Within (PR : RealExpr R → Prop) (PS : SetExpr R → Prop) : Task R → Prop
  | eval expr | evalPartialDerivative _ expr => PR expr
  | membership set _ | proj set _ | rectHull _ set => PS set

/-- A body evaluates and tests membership, and otherwise calls its own method only. -/
def MayCall : Task R → Task R → Prop
  | _, eval _ | _, membership .. => True
  | evalPartialDerivative x _, evalPartialDerivative y _ => x = y
  | proj .., proj .. => True
  | rectHull lp _, rectHull lp' _ => lp = lp'
  | _, _ => False

theorem MayCall.trans {t t' t'' : Task R} (h : t.MayCall t') (h' : t'.MayCall t'') :
    t.MayCall t'' := by
  cases t'' with
  | eval | membership => cases t <;> trivial
  | evalPartialDerivative z expr =>
    cases t' with
    | evalPartialDerivative y expr' =>
      cases t with
      | evalPartialDerivative x expr'' => exact Eq.trans h h'
      | _ => exact h.elim
    | _ => exact h'.elim
  | proj set pt =>
    cases t' with
    | proj set' pt' =>
      cases t with
      | proj set'' pt'' => trivial
      | _ => exact h.elim
    | _ => exact h'.elim
  | rectHull lp set =>
    cases t' with
    | rectHull lp' set' =>
      cases t with
      | rectHull lp'' set'' => exact Eq.trans h h'
      | _ => exact h.elim
    | _ => exact h'.elim

/-- The solver of the task, if it has one, is in `p`. -/
def SolvesBy (p : LpSolver R → Prop) : Task R → Prop
  | .rectHull lp _ => p lp
  | _ => True

theorem SolvesBy.mono {p q : LpSolver R → Prop} {t : Task R} (h : t.SolvesBy p)
    (hpq : ∀ lp, p lp → q lp) : t.SolvesBy q := by
  cases t with
  | rectHull lp s => exact hpq lp h
  | _ => trivial

theorem SolvesBy.of_mayCall {p : LpSolver R → Prop} {t t' : Task R} (h : t.SolvesBy p)
    (hmay : t.MayCall t') : t'.SolvesBy p := by
  cases t' with
  | rectHull lp' s' =>
    cases t with
    | rectHull lp s =>
      obtain rfl : lp = lp' := hmay
      exact h
    | _ => exact hmay.elim
  | _ => trivial

/-- Of the rare exceptions, the body of the task does not raise `e` by itself. -/
def Clear (bv : ValueMap R) (e : Err) : Task R → Prop
  | eval expr | evalPartialDerivative _ expr => expr.Clear bv e
  | membership set _ => set.Clear e
  | proj set _ =>
    set.Clear e ∧ (set.supported = false → e ≠ whichError "AdvFunc::proj" set)
  | rectHull lp set =>
    set.Clear e ∧ (set.supported = false → e ≠ whichError "AdvFunc::rectangularHull" set) ∧
      ∀ halves c, Spares e (lp halves c)

end Task

/-- The recursive calls of `eval` and `membership`, as tasks. -/
def callsOf {m : Type → Type} (call : (t : Task R) → m t.Result) : Calls R m :=
  ⟨fun e => call (.eval e), fun s pt => call (.membership s pt)⟩

variable [Double R]

namespace Env

variable (env : Env R)

/-- The method of a task, given its calls. -/
def body {m : Type → Type} [Effects Err m] (call : (t : Task R) → m t.Result) :
    (t : Task R) → m t.Result
  | .eval e => (evalRealExpr env.self (callsOf call) e : m R)
  | .evalPartialDerivative x e =>
    (derivRealExpr env.self (callsOf call) (fun e => call (.evalPartialDerivative x e)) x e : m R)
  | .membership s pt => (membershipSetExpr env.self (callsOf call) s pt : m Bool)
  | .proj s pt =>
    (projSetExpr env.self (callsOf call) (fun s pt => call (.proj s pt)) s pt : m (List R))
  | .rectHull lp s =>
    (hullSetExpr env.self lp (callsOf call) (fun s => call (.rectHull lp s)) s :
      m (AlignedBox R))

variable {env} in
/-- **A body respects every relation**, on nodes in `PR` and `PS`. -/
theorem rel_body {m m' : Type → Type} [Effects Err m] [Effects Err m'] {S : EffectRel Err m m'}
    {PR : RealExpr R → Prop} {PS : SetExpr R → Prop} (hcl : Closed PR PS)
    (hself : Related S PR PS (env.self (m := m)) (env.self (m := m')))
    (hstop : ∀ {α : Type}, S.rel (stop : m α) stop)
    {call : (t : Task R) → m t.Result} {call' : (t : Task R) → m' t.Result} {t : Task R}
    (h : ∀ t', t'.Within PR PS → t.MayCall t' → S.rel (call t') (call' t'))
    (ht : t.Within PR PS) : S.rel (env.body call t) (env.body call' t) := by
  have hcalls : RelCalls S PR PS (callsOf call) (callsOf call') := by
    refine ⟨fun {e} he => h (.eval e) he ?_, fun {s} pt hs => h (.membership s pt) hs ?_⟩
    · cases t <;> trivial
    · cases t <;> trivial
  cases t with
  | eval e => exact rel_evalRealExpr hcl hself hcalls ht
  | evalPartialDerivative x e =>
    exact rel_derivRealExpr hcl hself hcalls
      (fun e he => h (.evalPartialDerivative x e) he rfl) x ht
  | membership s pt => exact rel_membershipSetExpr hcl hself hcalls ht pt
  | proj s pt =>
    exact rel_projSetExpr hcl hself hcalls (fun s pt hs => h (.proj s pt) hs trivial) ht pt
  | rectHull lp s =>
    exact rel_hullSetExpr hcl hself hstop lp hcalls (fun s hs => h (.rectHull lp s) hs rfl) ht

/-- The methods as procedures. -/
def procedures : Procedures Err (Task R) Task.Result where
  body call t := env.body call t
  rel_body S hstop _ _ h t :=
    rel_body .all (env.related S) hstop (fun t' _ _ => h t') (by cases t <;> trivial)

/-! ### The outcomes of tasks -/

theorem callsOf_run (n : ℕ) : callsOf (env.procedures.run n) = env.callsAt n := by
  induction n with
  | zero => rfl
  | succ n ih =>
    show Calls.mk (fun e => evalRealExpr env.self (callsOf (env.procedures.run n)) e)
      (fun s pt => membershipSetExpr env.self (callsOf (env.procedures.run n)) s pt) = _
    rw [ih]
    rfl

theorem sem_eval (e : RealExpr R) : env.procedures.sem (.eval e) = env.evalSem e :=
  congrArg Chain.limit (funext fun n => congrFun (congrArg Calls.eval (env.callsOf_run n)) e)

theorem run_deriv (x : String) (n : ℕ) (e : RealExpr R) :
    (env.procedures.run n (.evalPartialDerivative x e) : Outcome Err R)
      = evalPartialDerivative env.self x n e := by
  induction n generalizing e with
  | zero => rfl
  | succ n ih =>
    show derivRealExpr env.self (callsOf (env.procedures.run n))
      (fun e => (env.procedures.run n (.evalPartialDerivative x e) : Outcome Err R)) x e = _
    rw [callsOf_run, funext ih]
    rfl

theorem sem_deriv (x : String) (e : RealExpr R) :
    env.procedures.sem (.evalPartialDerivative x e) = env.derivSem x e :=
  congrArg Chain.limit (funext fun n => env.run_deriv x n e)

/-! ### The calls of a task -/

variable {env} {PR : RealExpr R → Prop} {PS : SetExpr R → Prop}

/-- **What a task calls**: tasks on nodes that can be got to. -/
theorem invokes_within (hcl : Closed PR PS)
    (hreals : ∀ ref e, env.realExprRefs ref = some e → PR e)
    (hsets : ∀ ref, PS (env.setExprRefs.get ref)) {t t' : Task R} (ht : t.Within PR PS)
    (hcall : env.procedures.Invokes t t') : t'.Within PR PS ∧ t.MayCall t' := by
  let S : EffectRel Err (Run (List (Task R)) Err) (Outcome Err) :=
    Procedures.logsOnly fun t' => t'.Within PR PS ∧ t.MayCall t'
  have hself : Related S PR PS env.self env.self := {
    boundVars := rfl
    visit := S.rel_pure ()
    visitSet := fun _ => S.rel_pure ()
    real := fun _ => ⟨rfl, fun e he => hreals _ e he⟩
    set := fun _ _ _ _ hk => hk _ (hsets _) }
  have hbody : S.rel (env.body (Procedures.logging env.procedures.sem) t)
      (env.body env.procedures.sem t) :=
    rel_body hcl hself (Procedures.logsOnly_stop _)
      (fun t' hin hmay => Procedures.logsOnly_logging _ ⟨hin, hmay⟩) ht
  exact env.procedures.of_invokes (p := fun t' => t'.Within PR PS ∧ t.MayCall t') hbody hcall

theorem reaches_within (hcl : Closed PR PS)
    (hreals : ∀ ref e, env.realExprRefs ref = some e → PR e)
    (hsets : ∀ ref, PS (env.setExprRefs.get ref)) {t t' : Task R} (ht : t.Within PR PS)
    (hreach : env.procedures.Reaches t t') : t'.Within PR PS := by
  induction hreach with
  | refl => exact ht
  | tail _ hcall ih => exact (invokes_within hcl hreals hsets ih hcall).1

/-- The methods that a task gets to. -/
theorem reaches_mayCall {t t' : Task R} (hreach : env.procedures.Reaches t t') :
    t' = t ∨ t.MayCall t' := by
  induction hreach with
  | refl => exact Or.inl rfl
  | @tail t₁ t₂ _ hcall ih =>
    have hmay : t₁.MayCall t₂ :=
      (invokes_within .all (fun _ _ _ => trivial) (fun _ => trivial) (by cases t₁ <;> trivial)
        hcall).2
    rcases ih with rfl | ih
    · exact Or.inr hmay
    · exact Or.inr (ih.trans hmay)

/-! ### The exceptions of a task -/

/-- **A rare exception is raised only at the nodes it is about.** -/
theorem not_raises_of_clear {e : Err} (he : Rare e) {t : Task R}
    (h : t.Clear env.boundVars e) : ¬ env.procedures.Raises t e := by
  refine env.procedures.not_raises fun call hcall => ?_
  have hc : SparingCalls e (callsOf call) :=
    ⟨fun expr => hcall (.eval expr), fun s pt => hcall (.membership s pt)⟩
  cases t with
  | eval expr => exact spares_evalRealExpr he.toRareInEval env hc h
  | evalPartialDerivative x expr =>
    exact spares_derivRealExpr he.toRareInEval env hc
      (fun expr => hcall (.evalPartialDerivative x expr)) x h
  | membership s pt => exact spares_membershipSetExpr he env hc h pt
  | proj s pt =>
    exact spares_projSetExpr he env hc (fun s _ pt => hcall (.proj s pt)) h.1 h.2 pt
  | rectHull lp s =>
    exact spares_hullSetExpr he env h.2.2 hc (fun s _ => hcall (.rectHull lp s)) h.1 h.2.1

end Env

end Commelec
