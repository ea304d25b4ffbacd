/-
Commelec/VisitOrder.lean

In which order does a query visit its nodes?

A method counts a visit when it begins, before it does anything else.  So the visits of a query
are the calls that it comes to, each before the calls it makes (`Procedures.Comes`), and the
counter is full at the calls number 10000, 20001, 30002, ..., if the first call has number 0.
A traced run is caught exactly if one of these is a call of a method that throws
(`overflows_eval_iff` and its companions for the other methods).
-/
import Commelec.Lib.CallTree
import Commelec.Tasks
import Commelec.Termination

namespace Commelec

open Effectful Outcome

variable {R : Type}

/-- The traced run visits a real expression where the counter is full. -/
def Overflows {α : Type} (x : ℕ → Traced α) : Prop := ∃ n, Caught (x n []).2

/-- How the method counts its visit: `membership` and `proj` print a line where the others
throw. -/
def Task.visit : Task R → Visit
  | .eval _ | .evalPartialDerivative .. | .rectHull .. => .real
  | .membership .. | .proj .. => .set

variable [Double R]

namespace Env

variable (env : Env R)

/-- Of the calls that the task comes to, one where the counter is full is that of a method that
throws. -/
def Exceeds (t : Task R) : Prop :=
  ∃ k t', env.procedures.Comes [t] (k * (MAX_NESTING_DEPTH + 1) + MAX_NESTING_DEPTH) t' ∧
    t'.visit = .real

/-! ### A method begins with its visit -/

section Methods

variable (c : Calls R Traced) (τ : List Visit)

theorem evalRealExpr_tracing (e : RealExpr R) :
    evalRealExpr env.tracing c e τ = evalRealExpr env.self c e (τ ++ [.real]) := by
  cases e <;> rfl

theorem derivRealExpr_tracing (pd : RealExpr R → Traced R) (x : String) (e : RealExpr R) :
    derivRealExpr env.tracing c pd x e τ = derivRealExpr env.self c pd x e (τ ++ [.real]) := by
  cases e <;> rfl

theorem membershipSetExpr_tracing (s : SetExpr R) (pt : List R) :
    membershipSetExpr env.tracing c s pt τ = membershipSetExpr env.self c s pt (τ ++ [.set]) := by
  cases s <;> rfl

theorem projSetExpr_tracing (pr : SetExpr R → List R → Traced (List R)) (s : SetExpr R)
    (pt : List R) :
    projSetExpr env.tracing c pr s pt τ = projSetExpr env.self c pr s pt (τ ++ [.set]) := by
  cases s <;> rfl

theorem hullSetExpr_tracing (lp : LpSolver R) (rh : SetExpr R → Traced (AlignedBox R))
    (s : SetExpr R) :
    hullSetExpr env.tracing lp c rh s τ = hullSetExpr env.self lp c rh s (τ ++ [.real]) := by
  cases s <;> rfl

end Methods

/-! ### Traced runs -/

/-- The procedures, each of which notes its visit. -/
abbrev noting (n : ℕ) : (t : Task R) → Traced t.Result := env.procedures.noting Task.visit n

theorem callsOf_noting (n : ℕ) : callsOf (env.noting n) = calls env.tracing n := by
  induction n with
  | zero => rfl
  | succ n ih =>
    have heval : ∀ e, (env.noting (n + 1) (.eval e) : Traced R)
        = evalRealExpr env.tracing (calls env.tracing n) e := by
      intro e
      funext τ
      rw [evalRealExpr_tracing, ← ih]
      rfl
    have hmem : ∀ s pt, (env.noting (n + 1) (.membership s pt) : Traced Bool)
        = membershipSetExpr env.tracing (calls env.tracing n) s pt := by
      intro s pt
      funext τ
      rw [membershipSetExpr_tracing, ← ih]
      rfl
    show Calls.mk (fun e => env.noting (n + 1) (.eval e))
      (fun s pt => env.noting (n + 1) (.membership s pt)) = _
    rw [funext heval, funext fun s => funext (hmem s)]
    rfl

theorem noting_deriv (x : String) (n : ℕ) (e : RealExpr R) :
    (env.noting n (.evalPartialDerivative x e) : Traced R)
      = evalPartialDerivative env.tracing x n e := by
  induction n generalizing e with
  | zero => rfl
  | succ n ih =>
    funext τ
    show derivRealExpr env.self (callsOf (env.noting n))
      (fun e => (env.noting n (.evalPartialDerivative x e) : Traced R)) x e (τ ++ [.real]) = _
    rw [callsOf_noting, funext ih, ← derivRealExpr_tracing]
    rfl

theorem noting_proj (n : ℕ) (s : SetExpr R) (pt : List R) :
    (env.noting n (.proj s pt) : Traced (List R)) = proj env.tracing n s pt := by
  induction n generalizing s pt with
  | zero => rfl
  | succ n ih =>
    funext τ
    show projSetExpr env.self (callsOf (env.noting n))
      (fun s pt => (env.noting n (.proj s pt) : Traced (List R))) s pt (τ ++ [.set]) = _
    rw [callsOf_noting, funext fun s => funext fun pt => ih s pt, ← projSetExpr_tracing]
    rfl

theorem noting_rectHull (lp : LpSolver R) (n : ℕ) (s : SetExpr R) :
    (env.noting n (.rectHull lp s) : Traced (AlignedBox R)) = rectHull env.tracing lp n s := by
  induction n generalizing s with
  | zero => rfl
  | succ n ih =>
    funext τ
    show hullSetExpr env.self lp (callsOf (env.noting n))
      (fun s => (env.noting n (.rectHull lp s) : Traced (AlignedBox R))) s (τ ++ [.real]) = _
    rw [callsOf_noting, funext ih, ← hullSetExpr_tracing]
    rfl

/-- **When a traced run is caught.** -/
theorem overflows_noting_iff (t : Task R) :
    Overflows (fun n => env.noting n t) ↔ env.Exceeds t := by
  have hvisits : ∀ (n i : ℕ), (env.noting n t []).2[i]? = some Visit.real ↔
      ∃ t', (env.procedures.begun n t)[i]? = some t' ∧ t'.visit = Visit.real := by
    intro n i
    rw [noting, Procedures.noting_eq, List.nil_append, List.getElem?_map, Option.map_eq_some_iff]
  constructor
  · rintro ⟨n, k, hk⟩
    obtain ⟨t', hbegun, hvisit⟩ := (hvisits n _).mp hk
    exact ⟨k, t', Procedures.exists_begun_iff_comes.mp ⟨n, hbegun⟩, hvisit⟩
  · rintro ⟨k, t', hcomes, hvisit⟩
    obtain ⟨n, hbegun⟩ := Procedures.exists_begun_iff_comes.mpr hcomes
    exact ⟨n, k, (hvisits n _).mpr ⟨t', hbegun, hvisit⟩⟩

/-! ### The methods -/

omit [Double R] in
theorem overflows_congr {α : Type} {x y : ℕ → Traced α} (h : ∀ n, (x n []).2 = (y n []).2) :
    Overflows x ↔ Overflows y :=
  exists_congr fun n => by rw [h]

theorem overflows_eval_iff (e : RealExpr R) :
    Overflows (fun n => (calls env.tracing n).eval e) ↔ env.Exceeds (.eval e) := by
  refine (overflows_congr fun n => ?_).trans (env.overflows_noting_iff (.eval e))
  rw [← callsOf_noting]
  rfl

theorem overflows_deriv_iff (x : String) (e : RealExpr R) :
    Overflows (fun n => evalPartialDerivative env.tracing x n e) ↔
      env.Exceeds (.evalPartialDerivative x e) := by
  refine (overflows_congr fun n => ?_).trans (env.overflows_noting_iff (.evalPartialDerivative x e))
  rw [← noting_deriv]

theorem overflows_membership_iff (s : SetExpr R) (pt : List R) :
    Overflows (fun n => (calls env.tracing n).membership s pt) ↔
      env.Exceeds (.membership s pt) := by
  refine (overflows_congr fun n => ?_).trans (env.overflows_noting_iff (.membership s pt))
  rw [← callsOf_noting]
  rfl

/-- The check of a projected point visits nothing. -/
theorem overflows_proj_iff (s : SetExpr R) (pt : List R) :
    Overflows (fun n => projPoint env.tracing n s pt) ↔ env.Exceeds (.proj s pt) := by
  refine (overflows_congr fun n => ?_).trans (env.overflows_noting_iff (.proj s pt))
  have hvisits : (projPoint env.tracing n s pt []).2 = (proj env.tracing n s pt []).2 := by
    rw [projPoint]
    rcases hproj : proj env.tracing n s pt [] with ⟨res | e | -, τ⟩
    · rw [Run.bind_ok hproj, assert]
      split <;> rfl
    · rw [Run.bind_throw hproj]
    · rw [Run.bind_outOfFuel hproj]
  rw [hvisits, ← noting_proj]

theorem overflows_rectHull_iff (lp : LpSolver R) (s : SetExpr R) :
    Overflows (fun n => rectHull env.tracing lp n s) ↔ env.Exceeds (.rectHull lp s) := by
  refine (overflows_congr fun n => ?_).trans (env.overflows_noting_iff (.rectHull lp s))
  rw [← noting_rectHull]

end Env

end Commelec
