/-
Commelec/ReleaseTasks.lean

The methods of the build without checks, as procedures.

With the worst behaviour of Eigen, an operation that does not fit ends the run.  Then a projection
may as well end with the check that its result has the size of the point: every caller of `proj`
goes on with an operation on the point and the result, and it does not fit otherwise
(`projSetExpr_checked`).  The procedures of `Env.release` are the methods with this check, so no
projection returns a point of another size.
-/
import Commelec.ReleaseParametric
import Commelec.Tasks

namespace Commelec

open Effectful Outcome

variable {R : Type} [Double R]

/-! ### The worst behaviour of Eigen -/

/-- An operation is carried out if it fits. -/
theorem perform_worst {α : Type} (op : EigenOp R α) :
    (op.perform .worst : Outcome Err α) = if op.fits then ok op.value else .throw outside := rfl

theorem perform_worst_of_fits {α : Type} {op : EigenOp R α} (h : op.fits = true) :
    (op.perform .worst : Outcome Err α) = ok op.value := if_pos h

theorem perform_worst_eq_throw {α : Type} {op : EigenOp R α} :
    (op.perform .worst : Outcome Err α) = .throw outside ↔ op.fits = false := by
  rw [perform_worst]
  cases op.fits <;> simp

theorem perform_worst_eq_ok {α : Type} {op : EigenOp R α} {a : α} :
    (op.perform .worst : Outcome Err α) = ok a ↔ op.fits = true ∧ op.value = a := by
  rw [perform_worst]
  cases op.fits <;> simp

namespace Release

/-! ### Projections whose results are checked -/

/-- A projection that ends with the check that its result has the size of the point. -/
def checked {m : Type → Type} [Effects Err m] (proj : List R → m (List R)) (point : List R) :
    m (List R) := do
  let res ← proj point
  (EigenOp.assign point.length res).perform .worst

theorem of_checked {proj : List R → Outcome Err (List R)} {z res : List R}
    (h : checked proj z = ok res) : proj z = ok res ∧ res.length = z.length := by
  obtain ⟨res', hres, hassign⟩ := bind_eq_ok.mp h
  obtain ⟨hfits, rfl⟩ := perform_worst_eq_ok.mp hassign
  exact ⟨hres, of_decide_eq_true hfits⟩

/-- The check may be left to the subtraction of the result. -/
theorem checked_bind_sub (proj : List R → Outcome Err (List R)) (z : List R) {α : Type}
    (f : List R → List R → Outcome Err α) :
    (checked proj z >>= fun x => (EigenOp.sub z x).perform .worst >>= f x)
      = proj z >>= fun x => (EigenOp.sub z x).perform .worst >>= f x := by
  rw [checked]
  rcases proj z with x | e | -
  · rw [ok_bind, ok_bind]
    by_cases h : x.length = z.length
    · have hassign : ((EigenOp.assign z.length x).perform .worst : Outcome Err (List R)) = ok x :=
        perform_worst_of_fits (decide_eq_true h)
      rw [hassign]
      rfl
    · have hassign : ((EigenOp.assign z.length x).perform .worst : Outcome Err (List R))
          = .throw outside := perform_worst_eq_throw.mpr (decide_eq_false h)
      have hsub : ((EigenOp.sub z x).perform .worst : Outcome Err (List R))
          = .throw outside := perform_worst_eq_throw.mpr (decide_eq_false (Ne.symm h))
      rw [hassign, hsub]
      rfl
  · rfl
  · rfl

theorem dykstraSweep_checked (ps : List (List R → Outcome Err (List R))) (ys : List (List R))
    (x : List R) :
    dykstraSweep .worst (ps.map checked) ys x = dykstraSweep .worst ps ys x := by
  induction ps generalizing ys x with
  | nil => rfl
  | cons p ps ih =>
    cases ys with
    | nil => rfl
    | cons y ys =>
      simp only [List.map_cons, dykstraSweep, ih]
      exact congrArg _ (funext fun z => checked_bind_sub p z _)

theorem dykstra_checked (ps : List (List R → Outcome Err (List R))) (pt : List R) :
    dykstraProjectionAlgorithm .worst (ps.map checked) pt
      = dykstraProjectionAlgorithm .worst ps pt := by
  have hloop : ∀ iter ys x,
      dykstraLoop .worst (ps.map checked) iter ys x = dykstraLoop .worst ps iter ys x := by
    intro iter
    induction iter with
    | zero => exact fun _ _ => rfl
    | succ iter ih =>
      intro ys x
      simp only [dykstraLoop, dykstraSweep_checked, ih]
  rw [dykstraProjectionAlgorithm, List.length_map, hloop]
  rfl

/-- **The recursive calls of `proj` may be checked.** -/
theorem projSetExpr_checked (self : Self R (Outcome Err)) (c : Calls R (Outcome Err))
    (pr : SetExpr R → List R → Outcome Err (List R)) (s : SetExpr R) (pt : List R) :
    projSetExpr .worst self c (fun s => checked (pr s)) s pt
      = projSetExpr .worst self c pr s pt := by
  refine congrArg (self.visitSet >>= ·) (funext fun _ => ?_)
  cases s with
  | intersection n ss =>
    have hmap : (ss.map fun s => checked (pr s)) = (ss.map pr).map checked := by
      rw [List.map_map]
      rfl
    show projIntersection .worst _ (ss.map fun s => checked (pr s)) pt = _
    rw [projIntersection, hmap, dykstra_checked]
    rfl
  | _ => rfl

end Release

/-! ### Procedures -/

namespace Env

variable (env : Env R)

/-- The method of a task in the build without checks, given its calls. -/
def releaseBody {m : Type → Type} [Effects Err m] (call : (t : Task R) → m t.Result) :
    (t : Task R) → m t.Result
  | .eval e => (evalRealExpr env.self (callsOf call) e : m R)
  | .evalPartialDerivative x e =>
    (derivRealExpr env.self (callsOf call) (fun e => call (.evalPartialDerivative x e)) x e : m R)
  | .membership s pt =>
    (Release.membershipSetExpr .worst env.self (callsOf call) s pt : m Bool)
  | .proj s pt =>
    (Release.checked (Release.projSetExpr .worst env.self (callsOf call)
      (fun s pt => call (.proj s pt)) s) pt : m (List R))
  | .rectHull lp s =>
    (Release.hullSetExpr .worst env.self lp (callsOf call) (fun s => call (.rectHull lp s)) s :
      m (AlignedBox R))

/-- A body respects every relation between the calls it may make. -/
theorem rel_releaseBody {m m' : Type → Type} [Effects Err m] [Effects Err m']
    (S : EffectRel Err m m') (hstop : ∀ {α : Type}, S.rel (stop : m α) stop)
    {call : (t : Task R) → m t.Result} {call' : (t : Task R) → m' t.Result} {t : Task R}
    (h : ∀ t', t.MayCall t' → S.rel (call t') (call' t')) :
    S.rel (env.releaseBody call t) (env.releaseBody call' t) := by
  have hE : Release.RelEigen S UncheckedEigen.worst (UncheckedEigen.worst (R := R)) :=
    Release.relEigen_self S _
  have hcalls : RelCalls S (fun _ => True) (fun _ => True) (callsOf call) (callsOf call') := by
    refine ⟨fun {e} _ => h (.eval e) ?_, fun {s} pt _ => h (.membership s pt) ?_⟩
    · cases t <;> trivial
    · cases t <;> trivial
  cases t with
  | eval e => exact rel_evalRealExpr .all (env.related S) hcalls trivial
  | evalPartialDerivative x e =>
    exact rel_derivRealExpr .all (env.related S) hcalls
      (fun e _ => h (.evalPartialDerivative x e) rfl) x trivial
  | membership s pt => exact Release.rel_membershipSetExpr hE (env.related S) hcalls s pt
  | proj s pt =>
    exact S.rel_bind (Release.rel_projSetExpr hE (env.related S) hcalls
      (fun s pt => h (.proj s pt) trivial) s pt) fun _ => hE _
  | rectHull lp s =>
    exact Release.rel_hullSetExpr hE hstop (env.related S) hcalls lp
      (fun s => h (.rectHull lp s) rfl) s

/-- The build without checks, with the worst behaviour of Eigen. -/
def release : Procedures Err (Task R) Task.Result where
  body call t := env.releaseBody call t
  rel_body S hstop _ _ h _ := env.rel_releaseBody S hstop fun t' _ => h t'

theorem release_invokes {t t' : Task R} (hcall : env.release.Invokes t t') : t.MayCall t' :=
  env.release.of_invokes (p := fun t' => t.MayCall t')
    (env.rel_releaseBody (Procedures.logsOnly fun t' => t.MayCall t')
      (Procedures.logsOnly_stop _) fun _ hmay => Procedures.logsOnly_logging _ hmay) hcall

/-! ### Runs of the procedures -/

theorem callsOf_release (n : ℕ) :
    callsOf (env.release.run n) = Release.calls (m := Outcome Err) .worst env.self n := by
  induction n with
  | zero => rfl
  | succ n ih =>
    show Calls.mk (fun e => evalRealExpr env.self (callsOf (env.release.run n)) e)
      (fun s pt => Release.membershipSetExpr .worst env.self (callsOf (env.release.run n)) s pt) = _
    rw [ih]
    rfl

theorem run_release_eval (n : ℕ) (e : RealExpr R) :
    (env.release.run n (.eval e) : Outcome Err R) = (Release.calls .worst env.self n).eval e :=
  congrFun (congrArg Calls.eval (env.callsOf_release n)) e

theorem run_release_deriv (x : String) (n : ℕ) (e : RealExpr R) :
    (env.release.run n (.evalPartialDerivative x e) : Outcome Err R)
      = Release.evalDerivative .worst env.self x n e := by
  induction n generalizing e with
  | zero => rfl
  | succ n ih =>
    show derivRealExpr env.self (callsOf (env.release.run n))
      (fun e => (env.release.run n (.evalPartialDerivative x e) : Outcome Err R)) x e = _
    rw [callsOf_release, funext ih]
    rfl

theorem run_release_membership (n : ℕ) (s : SetExpr R) (pt : List R) :
    (env.release.run n (.membership s pt) : Outcome Err Bool)
      = (Release.calls .worst env.self n).membership s pt :=
  congrFun (congrFun (congrArg Calls.membership (env.callsOf_release n)) s) pt

/-- The procedure is `proj` for points in a `std::vector`. -/
theorem run_release_proj (n : ℕ) (s : SetExpr R) (pt : List R) :
    (env.release.run n (.proj s pt) : Outcome Err (List R))
      = Release.projPoint .worst env.self n s pt := by
  induction n generalizing s pt with
  | zero => rfl
  | succ n ih =>
    show Release.checked (Release.projSetExpr .worst env.self (callsOf (env.release.run n))
      (fun s pt => (env.release.run n (.proj s pt) : Outcome Err (List R))) s) pt = _
    rw [callsOf_release, funext fun s => funext fun pt => ih s pt]
    show Release.checked (Release.projSetExpr .worst env.self (Release.calls .worst env.self n)
      (fun s => Release.checked (Release.proj .worst env.self n s)) s) pt = _
    rw [Release.checked, Release.projSetExpr_checked]
    rfl

theorem run_release_rectHull (lp : LpSolver R) (n : ℕ) (s : SetExpr R) :
    (env.release.run n (.rectHull lp s) : Outcome Err (AlignedBox R))
      = Release.rectHull .worst env.self lp n s := by
  induction n generalizing s with
  | zero => rfl
  | succ n ih =>
    show Release.hullSetExpr .worst env.self lp (callsOf (env.release.run n))
      (fun s => (env.release.run n (.rectHull lp s) : Outcome Err (AlignedBox R))) s = _
    rw [callsOf_release, funext ih]
    rfl

end Env

end Commelec
