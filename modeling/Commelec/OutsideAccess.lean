/-
Commelec/OutsideAccess.lean

Can the dimensions in a message cause an access to a position that does not exist?

Where assertions and the debug checks are compiled out, nothing compares them but
`evalToMatrix`, which rejects a matrix whose rows differ in length.  A task goes outside by itself
where it comes to sizes that do not fit (`raises_outside_iff`), and a query where it comes to such
a task (`stays_inside_iff`).

A query that visits too many real expressions before that is ended by the visit counter.
-/
import Commelec.MergedSizes
import Commelec.NestingError

namespace Commelec

open Effectful Outcome

variable {R : Type} [Double R]

/-! ### Sizes that do not fit -/

section Misfit

variable (val : RealExpr R → R → Prop)

/-- The coordinates have values, and are not as many as those of the point. -/
def PointMisfit (as : List (RealExpr R)) (pt : List R) : Prop :=
  (∀ e ∈ as, HasValue val e) ∧ as.length ≠ pt.length

/-- The matrix and the bounds have values, and there are not `dim` columns and as many bounds as
rows. -/
def PolytopeMisfit (a : List (List (RealExpr R))) (b : List (RealExpr R)) (dim : ℕ) : Prop :=
  HasValues val a ∧ (∀ e ∈ b, HasValue val e) ∧ ¬ ((a.headD []).length = dim ∧ a.length = b.length)

/-- A membership test comes to sizes that do not fit.  That of a rectangle comes to the first pair
that has no coordinate, if all coordinates are within their bounds. -/
def SetExpr.MembershipMisfit (pt : List R) : SetExpr R → Prop
  | .singleton _ as => PointMisfit val as pt
  | .ball _ center r => PointMisfit val center pt ∧ HasValue val r
  | .rectangle _ rect =>
    ∃ b, rect[pt.length]? = some b ∧ HasValue val b.1 ∧ HasValue val b.2 ∧
      List.Forall₂ (WithinBounds val) (rect.take pt.length) pt
  | .convexPolytope _ a b => PolytopeMisfit val a b pt.length
  | _ => False

/-- A projection comes to sizes that do not fit.  That of a rectangle needs as many pairs as there
are coordinates. -/
def SetExpr.ProjMisfit (pt : List R) : SetExpr R → Prop
  | .singleton _ as => PointMisfit val as pt
  | .ball _ center r => PointMisfit val center pt ∧ HasValue val r
  | .rectangle _ rect =>
    rect.length ≠ pt.length ∧
      ∀ b ∈ rect.take (pt.length + 1), HasValue val b.1 ∧ HasValue val b.2
  | .convexPolytope _ a b => PolytopeMisfit val a b pt.length
  | _ => False

/-- The search of a bounding box comes to sizes that do not fit. -/
def SetExpr.HullMisfit (box : SetExpr R → AlignedBox R → Prop) : SetExpr R → Prop
  | .convexPolytope _ a b => PolytopeMisfit val a b 2
  | .intersection _ ss => Release.MergeMisfit val box ⟨none, none⟩ ss
  | _ => False

end Misfit

/-! ### Methods -/

omit [Double R] in
theorem outside_ne_which (what : String) (s : SetExpr R) : outside ≠ whichError what s := by
  simp [outside, whichError]

section Methods

variable {c : Calls R (Outcome Err)} (env : Env R) (hc : SparingCalls outside c)

include hc

theorem membershipSetExpr_outside (s : SetExpr R) (pt : List R) :
    Release.membershipSetExpr .worst env.self c s pt = .throw outside ↔
      s.MembershipMisfit (Yields c.eval) pt := by
  cases s with
  | singleton n as => exact Release.membershipSingleton_outside hc.1 as pt
  | ball n center r =>
    refine (Release.membershipBall_outside hc.1 center r pt).trans ?_
    rw [SetExpr.MembershipMisfit, PointMisfit, and_assoc, and_comm (a := HasValue _ _)]
  | rectangle n rect => exact Release.membershipRectangle_outside hc.1 rect pt
  | convexPolytope n a b => exact Release.membershipConvexPolytope_outside hc.1 a b pt
  | intersection n ss =>
    exact iff_of_false (spares_membershipIntersection (fun s => hc.2 s pt) ss) id
  | reference n ref => exact iff_of_false (hc.2 _ pt) id
  | caseDistinction n vars cs => exact iff_of_false (Spares.raise (outside_ne_which _ _)) id
  | unknown n which => exact iff_of_false (Spares.raise (outside_ne_which _ _)) id

theorem projSetExpr_outside {pr : SetExpr R → List R → Outcome Err (List R)}
    (hpr : ∀ s z, Ensures outside (fun res => res.length = z.length) (pr s z)) (s : SetExpr R)
    (pt : List R) :
    Release.checked (Release.projSetExpr .worst env.self c pr s) pt = .throw outside ↔
      s.ProjMisfit (Yields c.eval) pt := by
  cases s with
  | singleton n as => exact Release.projSingleton_outside hc.1 as pt
  | ball n center r =>
    refine (Release.projBall_outside hc.1 center r pt).trans ?_
    rw [SetExpr.ProjMisfit, PointMisfit, and_assoc, and_comm (a := HasValue _ _)]
  | rectangle n rect => exact Release.projRectangle_checked_outside hc.1 rect pt
  | convexPolytope n a b => exact Release.projConvexPolytope_outside hc.1 a b pt
  | intersection n ss =>
    refine iff_of_false (Release.spares_projIntersection (fun s => hc.2 s pt) ss ?_) id
    intro p hp z hz
    obtain ⟨s, -, rfl⟩ := List.mem_map.mp hp
    exact hz ▸ hpr s z
  | reference n ref => exact iff_of_false (Spares.raise (outside_ne_which _ _)) id
  | caseDistinction n vars cs => exact iff_of_false (Spares.raise (outside_ne_which _ _)) id
  | unknown n which => exact iff_of_false (Spares.raise (outside_ne_which _ _)) id

theorem hullSetExpr_outside {lp : LpSolver R} (hlp : lp.Sound)
    {rh : SetExpr R → Outcome Err (AlignedBox R)} (hrh : ∀ s, Spares outside (rh s))
    (hdims : ∀ s, Release.HullDims rh s) (s : SetExpr R) :
    Release.hullSetExpr .worst env.self lp c rh s = .throw outside ↔
      s.HullMisfit (Yields c.eval) (Yields rh) := by
  cases s with
  | singleton n as => exact iff_of_false (spares_hullSingleton hc.1 as) id
  | ball n center r => exact iff_of_false (spares_hullBall hc.1 center r) id
  | rectangle n rect => exact iff_of_false (spares_hullRectangle hc.1 rect) id
  | convexPolytope n a b => exact Release.hullConvexPolytope_outside hlp hc.1 a b
  | intersection n ss =>
    exact Release.hullIntersection_outside hlp hc.1 hrh hdims ss
  | reference n ref => exact iff_of_false (Spares.raise (outside_ne_which _ _)) id
  | caseDistinction n vars cs => exact iff_of_false (Spares.raise (outside_ne_which _ _)) id
  | unknown n which => exact iff_of_false (Spares.raise (outside_ne_which _ _)) id

end Methods

/-! ### Tasks -/

/-- The task comes to sizes that do not fit, where `val` has the values of expressions and `box` the
bounding boxes of sets. -/
def Task.Misfit (val : RealExpr R → R → Prop) (box : LpSolver R → SetExpr R → AlignedBox R → Prop) :
    Task R → Prop
  | .eval _ | .evalPartialDerivative .. => False
  | .membership s pt => s.MembershipMisfit val pt
  | .proj s pt => s.ProjMisfit val pt
  | .rectHull lp s => s.HullMisfit val (box lp)

namespace Env

variable (env : Env R)

/-- `x` is the value of the expression. -/
def Value (e : RealExpr R) (x : R) : Prop := env.release.sem (.eval e) = ok x

/-- The bounding box of the set that is found. -/
def Hull (lp : LpSolver R) (s : SetExpr R) (box : AlignedBox R) : Prop :=
  env.release.sem (.rectHull lp s) = ok box

/-- The task comes to sizes that do not fit. -/
def Misfit (t : Task R) : Prop := t.Misfit env.Value env.Hull

/-- No task that the task gets to comes to sizes that do not fit. -/
def Fits (t : Task R) : Prop := ∀ t', env.release.Reaches t t' → ¬ env.Misfit t'

theorem sound_of_reaches {t t' : Task R} (h : t.SolvesBy LpSolver.Sound)
    (hreach : env.release.Reaches t t') : t'.SolvesBy LpSolver.Sound := by
  induction hreach with
  | refl => exact h
  | tail _ hcall ih => exact ih.of_mayCall (env.release_invokes hcall)

omit [Double R] in
theorem rareInEval_outside : RareInEval outside := by
  refine ⟨⟨?_, ?_, ?_, ?_⟩, ?_⟩ <;> simp [outside]

omit [Double R] in
/-- The evaluation of an expression does not go outside by itself. -/
theorem clear_outside (bv : ValueMap R) (e : RealExpr R) : e.Clear bv outside := by
  cases e with
  | var n v =>
    rintro ⟨ref, msg, h⟩
    exact absurd h (by simp [outside])
  | unknown n w => exact fun h => by simp [outside] at h
  | _ => trivial

/-- **Where a body goes outside**, if its calls do not. -/
theorem releaseBody_outside {call : (t : Task R) → Outcome Err t.Result}
    (hspares : ∀ t, Spares outside (call t))
    (hproj : ∀ s z res, (call (.proj s z) : Outcome Err (List R)) = ok res → res.length = z.length)
    (hdims : ∀ lp s, Release.HullDims (fun s => call (.rectHull lp s)) s) {t : Task R}
    (ht : t.SolvesBy LpSolver.Sound) :
    env.releaseBody call t = .throw outside ↔
      t.Misfit (fun e x => call (.eval e) = ok x)
        fun lp s box => call (.rectHull lp s) = ok box := by
  have hc : SparingCalls outside (callsOf call) :=
    ⟨fun e => hspares (.eval e), fun s pt => hspares (.membership s pt)⟩
  cases t with
  | eval e =>
    refine iff_of_false ?_ id
    exact spares_evalRealExpr rareInEval_outside env hc (clear_outside _ e)
  | evalPartialDerivative x e =>
    refine iff_of_false ?_ id
    exact spares_derivRealExpr rareInEval_outside env hc
      (fun e => hspares (.evalPartialDerivative x e)) x (clear_outside _ e)
  | membership s pt => exact membershipSetExpr_outside env hc s pt
  | proj s pt =>
    exact projSetExpr_outside env hc (fun s z => ⟨hspares (.proj s z), hproj s z⟩) s pt
  | rectHull lp s =>
    exact hullSetExpr_outside env hc ht (fun s => hspares (.rectHull lp s)) (hdims lp) s

/-- **Where the build without checks goes outside.** -/
theorem raises_outside_iff {t : Task R} (ht : t.SolvesBy LpSolver.Sound) :
    env.release.Raises t outside ↔ env.Misfit t := by
  rw [Procedures.raises_iff]
  let call := env.release.sparing outside
  have hvalue : (fun e x => (call (.eval e) : Outcome Err R) = ok x) = env.Value :=
    funext fun e => funext fun x => propext env.release.sparing_eq_ok
  have hhull : (fun lp s box => (call (.rectHull lp s) : Outcome Err (AlignedBox R)) = ok box)
      = env.Hull :=
    funext fun lp => funext fun s => funext fun box => propext env.release.sparing_eq_ok
  rw [Misfit, ← hvalue, ← hhull]
  refine env.releaseBody_outside (env.release.spares_sparing outside) (fun s z res hres => ?_)
    (fun lp s box hbox => ?_) ht
  · -- a result has been compared with the point
    have hsem := env.release.sparing_eq_ok.mp hres
    rw [Procedures.sem_eq] at hsem
    exact (Release.of_checked hsem).2
  · exact env.hullDims_release lp s box (env.release.sparing_eq_ok.mp hbox)

/-- A task goes outside where it comes to sizes that do not fit. -/
theorem sem_eq_outside_iff {t : Task R} (ht : t.SolvesBy LpSolver.Sound) :
    env.release.sem t = .throw outside ↔ ¬ env.Fits t := by
  rw [Procedures.sem_eq_throw_iff, Fits, not_forall]
  refine exists_congr fun t' => ?_
  rw [Classical.not_imp, not_not]
  exact and_congr_right fun hreach => env.raises_outside_iff (env.sound_of_reaches ht hreach)

/-- **When a task never goes outside.** -/
theorem spares_run_iff {t : Task R} (ht : t.SolvesBy LpSolver.Sound) :
    (∀ n, Spares outside (env.release.run n t : Outcome Err t.Result)) ↔ env.Fits t := by
  rw [← not_iff_not, ← env.sem_eq_outside_iff ht, not_forall]
  constructor
  · rintro ⟨n, hn⟩
    have hrun : (env.release.run n t : Outcome Err t.Result) = .throw outside := not_not.mp hn
    have hsem := env.release.sem_of_run (n := n) (t := t) (by rw [hrun]; simp)
    exact hsem.trans hrun
  · intro hsem
    obtain ⟨n, hn⟩ := env.release.exists_run_eq_sem (t := t) (by rw [hsem]; simp)
    exact ⟨n, fun hspares => hspares (hn.trans hsem)⟩

end Env

/-! ### Queries -/

/-- Whatever Eigen does with operands that do not fit, the query accesses only positions that
exist, and returns only coordinates that were assigned. -/
def AdvFunc.StaysInside {α : Type} (q : UncheckedEigen R → ℕ → Run (AdvFunc R) Err α)
    (af : AdvFunc R) : Prop := ∀ E n, Spares outside (q E n af).1

/-- One behaviour of Eigen is that of another one, or that one goes outside. -/
theorem relEigen_worst (E : UncheckedEigen R) {σ : Type} :
    Release.RelEigen (unlessThrows (σ := σ) outside) E .worst := by
  intro α op s
  by_cases hfits : op.fits = true
  · refine Or.inr ?_
    show (op.perform E : Run σ Err α) s = (op.perform .worst : Run σ Err α) s
    rw [EigenOp.perform, EigenOp.perform, if_pos hfits, if_pos hfits]
  · refine Or.inl ?_
    rw [EigenOp.perform, if_neg hfits]
    rfl

omit [Double R] in
/-- An object is related to itself. -/
theorem related_unlessThrows (boundVars : ValueMap R) (realExprRefs : RealExprRefMap R) (e : Err) :
    Related (unlessThrows e) (fun _ => True) (fun _ => True) (methods boundVars realExprRefs)
      (methods boundVars realExprRefs) where
  boundVars := rfl
  visit _ := Or.inr rfl
  visitSet _ _ := Or.inr rfl
  real _ := ⟨rfl, fun _ _ => trivial⟩
  set _ _ _ _ hk := (unlessThrows e).rel_bind (fun _ => Or.inr rfl) fun s => hk s trivial

/-- A method that respects every relation, and more so if the second run may go on where the first
is cut off. -/
structure Respects {α : Type}
    (method : ∀ {m : Type → Type} [Effects Err m], UncheckedEigen R → ℕ → Self R m → m α) :
    Prop where
  rel {m m' : Type → Type} [Effects Err m] [Effects Err m'] (S : EffectRel Err m m')
    {E E' : UncheckedEigen R} {self : Self R m} {self' : Self R m'} :
    Release.RelEigen S E E' → (∀ {β : Type}, S.rel (stop : m β) stop) →
      Related S (fun _ => True) (fun _ => True) self self' →
      ∀ n, S.rel (method E n self) (method E' n self')
  rel_succ {m m' : Type → Type} [Effects Err m] [Effects Err m'] (S : EffectRel Err m m')
    {E E' : UncheckedEigen R} {self : Self R m} {self' : Self R m'} :
    Release.RelEigen S E E' → (∀ {β : Type} (y : m' β), S.rel stop y) →
      Related S (fun _ => True) (fun _ => True) self self' →
      ∀ n, S.rel (method E n self) (method E' (n + 1) self')

/-- No run of the query throws one of the exceptions, whatever Eigen does with operands that do not
fit. -/
def AdvFunc.SparesAll {α : Type} (bad : Err → Prop)
    (q : UncheckedEigen R → ℕ → Run (AdvFunc R) Err α) (af : AdvFunc R) : Prop :=
  ∀ e, bad e → ∀ E n, Spares e (q E n af).1

/-- **When a query spares some exceptions**, going outside among them: its traced run is caught, or
it throws none of them where Eigen does its worst. -/
theorem spares_all_of_respects (bad : Err → Prop) (af : AdvFunc R) (bv : ValueMap R)
    (hout : bad outside) (hmax : ¬ bad maxNesting) {α : Type}
    {method : ∀ {m : Type → Type} [Effects Err m], UncheckedEigen R → ℕ → Self R m → m α}
    (h : Respects method) :
    AdvFunc.SparesAll bad (fun E n => Release.query bv (method E n)) af ↔
      Overflows (fun n => method .worst n (af.env bv).tracing) ∨
        ∀ e, bad e → ∀ n, Spares e (method .worst n (af.env bv).self) := by
  let start : AdvState R := { af.toAdvState with nestingDepth := 0 }
  let run (E : UncheckedEigen R) (n : ℕ) := method E n (methods bv af.realExprRefs) start
  have hworst : ∀ E n, (run .worst n).1 = .throw outside ∨ run E n = run .worst n := fun E n =>
    h.rel (unlessThrows outside) (relEigen_worst E) (fun _ => Or.inr rfl)
      (related_unlessThrows bv af.realExprRefs outside) n start
  have hchain : Chain.Mono fun n => (run .worst n).1 := Chain.mono_of_succ fun n =>
    (h.rel_succ definedRun (Release.relEigen_self _ .worst) definedRun_bot
      (related_self bv af.realExprRefs) n start).imp id (congrArg Prod.fst)
  have hwatched := fun n => watched_start (h.rel (watched af.setExprRefs)
    (Release.relEigen_self _ .worst) (watched_stop _) (related_tracing (af.env bv)) n)
  have htracing : ∀ n, (method .worst n (af.env bv).tracing []).1
      = method .worst n (af.env bv).self :=
    fun n => h.rel outcomeOf (Release.relEigen_self _ .worst) outcomeOf_stop
      (related_outcomeOf (af.env bv)) n []
  constructor
  · intro hspares
    refine or_iff_not_imp_left.mpr fun hfree e he n => ?_
    rcases hwatched n with ⟨hcaught, -⟩ | ⟨-, htraced⟩
    · exact absurd ⟨n, hcaught⟩ hfree
    · rw [← htracing, ← htraced]
      exact hspares e he .worst n
  · -- Eigen may as well do its worst
    suffices hrun : (Overflows (fun n => method .worst n (af.env bv).tracing) ∨
        ∀ e, bad e → ∀ n, Spares e (method .worst n (af.env bv).self)) →
        ∀ e, bad e → ∀ n, Spares e (run .worst n).1 by
      intro hquery e he E n hthrow
      rcases hworst E n with hworst | heq
      · exact hrun hquery outside hout n hworst
      · exact hrun hquery e he n ((congrArg Prod.fst heq).symm.trans hthrow)
    intro hquery e he n hthrow
    have hne : e ≠ maxNesting := by
      rintro rfl
      exact hmax he
    rcases hquery with ⟨k, hcaught⟩ | hspares
    · rcases hwatched k with ⟨-, hnested⟩ | ⟨hfree, -⟩
      · -- two exceptions of one query, at different depths
        have hn := Chain.limit_eq hchain (n := n) fun hstop => nomatch hthrow.symm.trans hstop
        have hk := Chain.limit_eq hchain (n := k) fun hstop => nomatch hnested.symm.trans hstop
        have heq := (hthrow.symm.trans hn.symm).trans (hk.trans hnested)
        exact hne (Outcome.throw.inj heq)
      · exact hfree hcaught
    · rcases hwatched n with ⟨-, hnested⟩ | ⟨-, htraced⟩
      · exact hne (Outcome.throw.inj (hthrow.symm.trans hnested))
      · exact hspares e he n ((htracing n).symm.trans (htraced.symm.trans hthrow))

/-- When a query stays inside. -/
theorem stays_inside_of_respects {af : AdvFunc R} {bv : ValueMap R} {α : Type}
    {method : ∀ {m : Type → Type} [Effects Err m], UncheckedEigen R → ℕ → Self R m → m α}
    (h : Respects method) :
    AdvFunc.StaysInside (fun E n => Release.query bv (method E n)) af ↔
      Overflows (fun n => method .worst n (af.env bv).tracing) ∨
        ∀ n, Spares outside (method .worst n (af.env bv).self) := by
  have hspares := spares_all_of_respects (· = outside) af bv rfl (by simp [maxNesting, outside]) h
  simpa only [AdvFunc.SparesAll, AdvFunc.StaysInside, forall_eq] using hspares

/-! ### The methods of the build without checks -/

namespace Release

theorem respects_eval (e : RealExpr R) :
    Respects fun {m} [Effects Err m] E n (self : Self R m) => (calls E self n).eval e where
  rel _ _ _ _ _ hE hstop hself n := (rel_calls hE hstop hself (.inl rfl) n).eval trivial
  rel_succ _ _ _ _ _ hE hbot hself n := (rel_calls hE (hbot _) hself (.inr hbot) n).eval trivial

theorem respects_deriv (x : String) (e : RealExpr R) :
    Respects fun {m} [Effects Err m] E n (self : Self R m) => evalDerivative E self x n e where
  rel _ _ _ _ _ hE hstop hself n := rel_evalDerivative hE hstop hself (.inl rfl) x n e
  rel_succ _ _ _ _ _ hE hbot hself n := rel_evalDerivative hE (hbot _) hself (.inr hbot) x n e

theorem respects_membership (s : SetExpr R) (pt : List R) :
    Respects fun {m} [Effects Err m] E n (self : Self R m) => (calls E self n).membership s pt where
  rel _ _ _ _ _ hE hstop hself n := (rel_calls hE hstop hself (.inl rfl) n).membership pt trivial
  rel_succ _ _ _ _ _ hE hbot hself n :=
    (rel_calls hE (hbot _) hself (.inr hbot) n).membership pt trivial

theorem respects_proj (s : SetExpr R) (pt : List R) :
    Respects fun {m} [Effects Err m] E n (self : Self R m) => projPoint E self n s pt where
  rel _ _ _ _ _ hE hstop hself n := rel_projPoint hE hstop hself (.inl rfl) n s pt
  rel_succ _ _ _ _ _ hE hbot hself n := rel_projPoint hE (hbot _) hself (.inr hbot) n s pt

theorem respects_rectHull (lp : LpSolver R) (s : SetExpr R) :
    Respects fun {m} [Effects Err m] E n (self : Self R m) => rectHull E self lp n s where
  rel _ _ _ _ _ hE hstop hself n := rel_rectHull hE hstop hself (.inl rfl) lp n s
  rel_succ _ _ _ _ _ hE hbot hself n := rel_rectHull hE (hbot _) hself (.inr hbot) lp n s

end Release

/-- When each query about a set stays inside. -/
structure QueriesInside (af : AdvFunc R) (bv : ValueMap R) (lp : LpSolver R) : Prop where
  testMembership (s : SetExpr R) (pt : List R) :
    AdvFunc.StaysInside (fun E n => Release.testMembership E n s pt bv) af ↔
      Overflows (fun n => (Release.calls .worst (af.env bv).tracing n).membership s pt) ∨
        (af.env bv).Fits (.membership s pt)
  project (s : SetExpr R) (pt : List R) :
    AdvFunc.StaysInside (fun E n => Release.project E n s pt bv) af ↔
      Overflows (fun n => Release.projPoint .worst (af.env bv).tracing n s pt) ∨
        (af.env bv).Fits (.proj s pt)
  rectangularHull (s : SetExpr R) :
    AdvFunc.StaysInside (fun E n => Release.rectangularHull E lp n s bv) af ↔
      Overflows (fun n => Release.rectHull .worst (af.env bv).tracing lp n s) ∨
        (af.env bv).Fits (.rectHull lp s)

/-- `solve_lp2` goes outside nowhere, whatever its random numbers are. -/
theorem solve_lp2_sound (rand : ℕ → ℕ) (linprog : Linprog R) : (solve_lp2 rand linprog).Sound where
  two {halves sol x y} h := by
    rcases solve_lp2_cases rand linprog halves [x, y] with
      ⟨x', y', heq⟩ | ⟨msg, heq⟩ | ⟨-, heq⟩
    · obtain rfl := Outcome.ok.inj (heq.symm.trans h)
      rfl
    · exact nomatch heq.symm.trans h
    · exact nomatch heq.symm.trans h
  inside {halves} _ c hthrow := by
    rcases solve_lp2_cases rand linprog halves c with
      ⟨x, y, heq⟩ | ⟨msg, heq⟩ | ⟨-, heq⟩
    all_goals
      have hne := heq.symm.trans hthrow
      simp [outside] at hne

/-- The PQ profile of an agent that has forgotten the reactive power. -/
def activeOnly : SetExpr ℝ := .rectangle none [(.real none 0, .real none 1)]

/-- An advertisement with this PQ profile. -/
def activeOnlyAdv : AdvFunc ℝ := (AdvFunc.new ⟨some activeOnly, none, none, []⟩).2

end Commelec
