/-
Commelec/BallAgreement.lean

What the three operations of an object take a ball for.

`testMembership` compares the squared distance with the square of the radius; `project` and
`rectangularHull` use the radius itself.  The radius is an expression, so it may be negative.
Then the box has its corners the wrong way round, and a point from outside is projected to the
far side of the ball.  Another difference is that `project` evaluates centre and radius again
once it knows that the point is outside, and so visits more expressions than a test.

* `testMembership_ball`, `rectangularHull_ball`, `project_inside`, `project_outside` — what the
  operations answer, from the values of centre and radius;
* `ball_agreement_iff` — they agree just if the ball has dimension zero, or its radius is not
  negative and a query can evaluate it twice.
-/
import Commelec.BasicProjections
import Commelec.BoundingBox

namespace Commelec

open Effectful Outcome

/-! ### Evaluating a ball -/

/-- The lines that the three methods have in common. -/
def evalBall {R : Type} {m : Type → Type} [Effects Err m] (center : List (m R)) (radius : m R) :
    m (List R × R) := do
  let cent ← evalToVector center
  let r ← radius
  pure (cent, r)

/-- The projection of a point onto the ball with centre `c` and radius `r`. -/
noncomputable def ballProjection (c : List ℝ) (r : ℝ) (p : List ℝ) : List ℝ :=
  if squaredNorm (vecSub c p) ≤ r * r then p
  else vecAdd c (vecScale r (normalized (vecSub p c)))

section Values

variable {c p : List ℝ} {r : ℝ}

theorem length_ballProjection (hp : p.length = c.length) :
    (ballProjection c r p).length = p.length := by
  have hsub : (vecSub p c).length = p.length := length_vecSub rfl hp.symm
  have hnormalized : (normalized (vecSub p c)).length = p.length := by
    rw [normalized]
    split
    · rw [List.length_map, hsub]
    · exact hsub
  rw [ballProjection]
  split
  · rfl
  · exact length_vecAdd hp.symm (length_vecScale r hnormalized)

theorem membershipBall_values (hp : p.length = c.length) :
    membershipBall (c.map fun x => (ok x : Outcome Err ℝ)) (ok r) p
      = ok (Double.le (squaredNorm (vecSub c p)) (r * r)) := by
  rw [membershipBall, evalToVector, collect_map_ok, List.map_id', List.length_map,
    decide_eq_true hp]
  rfl

theorem projBall_values (hp : p.length = c.length) :
    projBall (c.map fun x => (ok x : Outcome Err ℝ)) (ok r) p = ok (ballProjection c r p) := by
  rw [projBall, membershipBall_values hp, ok_bind, ballProjection, evalToVector,
    collect_map_ok, List.map_id', ok_bind, ok_bind]
  simp only [le_real]
  split
  · rfl
  · rfl

end Values

section Runs

variable {σ : Type} {center : List (Run σ Err ℝ)} {radius : Run σ Err ℝ} {s s' : σ}
  {c : List ℝ} {r : ℝ}

theorem evalBall_length (h : evalBall center radius s = (ok (c, r), s')) :
    c.length = center.length := by
  obtain ⟨cent, s₁, hcent, h⟩ := Run.of_bind_ok (congrArg Prod.fst h)
  obtain ⟨r', s₂, -, h⟩ := Run.of_bind_ok h
  obtain rfl : cent = c := congrArg Prod.fst (Outcome.ok.inj h)
  exact Run.collect_length hcent

theorem assert_run {P : Prop} [Decidable P] {u : Unit}
    (h : (assert (decide P) : Run σ Err Unit) s = (ok u, s')) : P ∧ s = s' := by
  by_cases hP : P
  · rw [decide_eq_true hP] at h
    exact ⟨hP, congrArg Prod.snd h⟩
  · rw [decide_eq_false hP] at h
    exact absurd (congrArg Prod.fst h) (by simp [assert])

/-- A test, from the values of centre and radius. -/
theorem membershipBall_run (h : evalBall center radius s = (ok (c, r), s')) {p : List ℝ}
    (hp : p.length = center.length) :
    membershipBall center radius p s
      = (ok (Double.le (squaredNorm (vecSub c p)) (r * r)), s') := by
  have heq : membershipBall center radius p = evalBall center radius >>= fun v =>
      pure (Double.le (squaredNorm (vecSub v.1 p)) (v.2 * v.2)) := by
    rw [membershipBall, decide_eq_true hp, evalBall, Run.bind_assoc]
    refine congrArg (evalToVector center >>= ·) (funext fun cent => ?_)
    rw [Run.bind_assoc]
    rfl
  rw [heq, Run.bind_ok h]
  rfl

theorem hullBall_run (h : evalBall center radius s = (ok (c, r), s')) :
    hullBall center radius s = (ok ⟨c.map (· - r), c.map (· + r)⟩, s') := by
  have heq : hullBall center radius = evalBall center radius >>= fun v =>
      pure ⟨v.1.map (· - v.2), v.1.map (· + v.2)⟩ := by
    rw [hullBall, evalBall, Run.bind_assoc]
    refine congrArg (evalToVector center >>= ·) (funext fun cent => ?_)
    rw [Run.bind_assoc]
    rfl
  rw [heq, Run.bind_ok h]
  rfl

/-- A point inside is returned without further ado; for a point outside, centre and radius are
evaluated again. -/
theorem projBall_run (h : evalBall center radius s = (ok (c, r), s')) {p : List ℝ}
    (hp : p.length = center.length) :
    projBall center radius p s =
      if squaredNorm (vecSub c p) ≤ r * r then (ok p, s')
      else (evalBall center radius >>= fun v =>
        pure (vecAdd v.1 (vecScale v.2 (normalized (vecSub p v.1))))) s' := by
  rw [projBall, Run.bind_ok (membershipBall_run h hp)]
  simp only [le_real]
  split
  · rfl
  · rw [evalBall, Run.bind_assoc]
    refine congrFun (congrArg (evalToVector center >>= ·) (funext fun cent => ?_)) s'
    rw [Run.bind_assoc]
    rfl

end Runs

/-! ### The operations of an object -/

namespace AdvFunc

/-- Centre and radius of a ball, evaluated by the object. -/
def ballValues {R : Type} [Double R] (af : AdvFunc R) (bv : ValueMap R)
    (center : List (RealExpr R)) (radius : RealExpr R) (fuel : ℕ) : Method R (List R × R) :=
  evalBall (center.map (calls (methods bv af.realExprRefs) fuel).eval)
    ((calls (methods bv af.realExprRefs) fuel).eval radius)

/-- Centre and radius can be evaluated twice in one query. -/
def EvaluatesTwice {R : Type} [Double R] (af : AdvFunc R) (bv : ValueMap R)
    (center : List (RealExpr R)) (radius : RealExpr R) : Prop :=
  ∃ fuel v, ((af.ballValues bv center radius fuel >>= fun _ =>
    af.ballValues bv center radius fuel) af.toAdvState.entered).1 = ok v

/-- Every fuel from some on is a successor. -/
theorem Ends.of_succ {R α : Type} {q : ℕ → Run (AdvFunc R) Err α} {af : AdvFunc R}
    {o : Outcome Err α} (n : ℕ) (h : ∀ k, n ≤ k → (q (k + 1) af).1 = o) : Ends q af o := by
  refine ⟨n + 1, fun k hk => ?_⟩
  obtain ⟨k, rfl⟩ : ∃ j, k = j + 1 := ⟨k - 1, by omega⟩
  exact h k (by omega)

section Operations

variable {af : AdvFunc ℝ} {bv : ValueMap ℝ} {name : Option String}
  {center : List (RealExpr ℝ)} {radius : RealExpr ℝ}

theorem sameSets_entered (af : AdvFunc ℝ) :
    SameSets af.toAdvState.entered.setExprRefs af.setExprRefs := fun _ => rfl

theorem ballValues_mono {n k : ℕ} (hnk : n ≤ k) {s s' : AdvState ℝ} {v : List ℝ × ℝ}
    (h : af.ballValues bv center radius n s = (ok v, s')) :
    af.ballValues bv center radius k s = (ok v, s') := by
  induction hnk with
  | refl => exact h
  | @step k _ ih =>
    have hcalls := rel_calls_succ .all (related_self bv af.realExprRefs) definedRun_bot k
    have hstep : definedRun.rel (af.ballValues bv center radius k)
        (af.ballValues bv center radius (k + 1)) :=
      definedRun.rel_bind (definedRun.rel_collect (definedRun.forall₂_map fun _ _ =>
        hcalls.eval trivial)) fun _ => definedRun.rel_map (hcalls.eval trivial) _
    rcases hstep s with hstop | heq
    · rw [ih] at hstop
      exact absurd hstop (by simp)
    · rw [← heq]
      exact ih

/-- The radius has its value, and centre and radius have the same values each time. -/
theorem ballValues_eq {n : ℕ} {s s' : AdvState ℝ} {v : List ℝ × ℝ}
    (hs : SameSets s.setExprRefs af.setExprRefs)
    (h : af.ballValues bv center radius n s = (ok v, s')) :
    SameSets s'.setExprRefs af.setExprRefs ∧
      evalBall (center.map ((af.env bv).callsAt n).eval) (((af.env bv).callsAt n).eval radius)
        = ok v := by
  have hcalls := rel_calls .all (related_methods (af.env bv)) (guarded_stop _) n
  have hrel : (guarded af.setExprRefs).rel (af.ballValues bv center radius n)
      (evalBall (center.map ((af.env bv).callsAt n).eval) (((af.env bv).callsAt n).eval radius)) :=
    (guarded _).rel_bind ((guarded _).rel_collect ((guarded _).forall₂_map fun _ _ =>
      hcalls.eval trivial)) fun _ => (guarded _).rel_map (hcalls.eval trivial) _
  obtain ⟨hout, hsets⟩ := hrel s hs
  rw [h] at hout hsets
  exact ⟨hsets, (hout.resolve_left (by simp)).symm⟩

/-- A second evaluation has the same values. -/
theorem ballValues_again {n : ℕ} {s s' t' : AdvState ℝ} {v w : List ℝ × ℝ}
    (hs : SameSets s.setExprRefs af.setExprRefs)
    (h : af.ballValues bv center radius n s = (ok v, s'))
    (h' : af.ballValues bv center radius n s' = (ok w, t')) : w = v := by
  obtain ⟨hs', hv⟩ := ballValues_eq hs h
  obtain ⟨-, hw⟩ := ballValues_eq hs' h'
  exact Outcome.ok.inj (hw.symm.trans hv)

/-- The radius has its value. -/
theorem ballValues_radius {n : ℕ} {s s' : AdvState ℝ} {c : List ℝ} {r r' : ℝ}
    (hr : (af.env bv).evalSem radius = ok r) (hs : SameSets s.setExprRefs af.setExprRefs)
    (h : af.ballValues bv center radius n s = (ok (c, r'), s')) : r' = r := by
  obtain ⟨-, hv⟩ := ballValues_eq hs h
  obtain ⟨cent, -, hv⟩ := bind_eq_ok.mp hv
  obtain ⟨r₁, hr₁, hv⟩ := bind_eq_ok.mp hv
  obtain rfl : r₁ = r' := congrArg Prod.snd (Outcome.ok.inj hv)
  have hle := Chain.le_limit ((af.env bv).eval_mono radius) n
  rw [show ((af.env bv).callsAt n).eval radius = ok r₁ from hr₁] at hle
  exact Outcome.ok.inj ((hle.eq (by simp)).trans hr)

variable {n : ℕ} {c p : List ℝ} {r : ℝ} {st : AdvState ℝ}

/-- A test. -/
theorem testMembership_ball (hv : af.advValid = true)
    (h : af.ballValues bv center radius n af.toAdvState.entered = (ok (c, r), st))
    (hp : p.length = center.length) :
    Ends (fun fuel => testMembership fuel (.ball name center radius) p bv) af
      (ok (Double.le (squaredNorm (vecSub c p)) (r * r))) := by
  refine .of_succ n fun k hk => ?_
  rw [testMembership_entered hv]
  have h' := ballValues_mono hk h
  exact congrArg Prod.fst (membershipBall_run h' (hp.trans (List.length_map _).symm))

/-- The box. -/
theorem rectangularHull_ball (hv : af.advValid = true) (lp : LpSolver ℝ)
    (h : af.ballValues bv center radius n af.toAdvState.entered = (ok (c, r), st)) :
    Ends (fun fuel => rectangularHull lp fuel (.ball name center radius) bv) af
      (ok ⟨c.map (· - r), c.map (· + r)⟩) := by
  refine .of_succ n fun k hk => ?_
  rw [rectangularHull_entered hv]
  exact congrArg Prod.fst (hullBall_run (ballValues_mono hk h))

/-- A projection is one of the ball, followed by a check of the length. -/
theorem project_entered (hv : af.advValid = true) (fuel : ℕ) :
    (project (fuel + 1) (.ball name center radius) p bv af).1
      = ((projBall (center.map (calls (methods bv af.realExprRefs) fuel).eval)
          ((calls (methods bv af.realExprRefs) fuel).eval radius) p >>= fun res =>
            assert (decide (res.length = p.length)) >>= fun _ => pure res)
          af.toAdvState.entered).1 := by
  rw [project, query_fst hv]
  rfl

/-- A point inside is its own projection. -/
theorem project_inside (hv : af.advValid = true)
    (h : af.ballValues bv center radius n af.toAdvState.entered = (ok (c, r), st))
    (hp : p.length = center.length) (hin : squaredNorm (vecSub c p) ≤ r * r) :
    Ends (fun fuel => project fuel (.ball name center radius) p bv) af (ok p) := by
  refine .of_succ n fun k hk => ?_
  have h' := ballValues_mono hk h
  have hball := (projBall_run h' (hp.trans (List.length_map _).symm)).trans (if_pos hin)
  rw [project_entered hv, Run.bind_ok hball, decide_eq_true rfl]
  rfl

/-- A point outside is projected with the second values. -/
theorem project_outside (hv : af.advValid = true)
    (h : af.ballValues bv center radius n af.toAdvState.entered = (ok (c, r), st))
    (hp : p.length = center.length) (hout : ¬ squaredNorm (vecSub c p) ≤ r * r)
    {st' : AdvState ℝ} (hagain : af.ballValues bv center radius n st = (ok (c, r), st')) :
    Ends (fun fuel => project fuel (.ball name center radius) p bv) af
      (ok (ballProjection c r p)) := by
  refine .of_succ n fun k hk => ?_
  have h' := ballValues_mono hk h
  have hagain' := ballValues_mono hk hagain
  have hlen : c.length = center.length := (evalBall_length h).trans (List.length_map _)
  have hball : projBall (center.map (calls (methods bv af.realExprRefs) k).eval)
      ((calls (methods bv af.realExprRefs) k).eval radius) p af.toAdvState.entered
        = (ok (ballProjection c r p), st') := by
    refine (projBall_run h' (hp.trans (List.length_map _).symm)).trans ((if_neg hout).trans ?_)
    refine (Run.bind_ok hagain').trans ?_
    rw [ballProjection, if_neg hout]
    rfl
  have hres := length_ballProjection (r := r) (hp.trans hlen.symm)
  rw [project_entered hv, Run.bind_ok hball, decide_eq_true hres]
  rfl

/-- It is only projected if the values can be computed again. -/
theorem evaluatesTwice_of_project (hv : af.advValid = true)
    (h : af.ballValues bv center radius n af.toAdvState.entered = (ok (c, r), st))
    (hp : p.length = center.length) (hout : ¬ squaredNorm (vecSub c p) ≤ r * r) {x : List ℝ}
    (hx : Ends (fun fuel => project fuel (.ball name center radius) p bv) af (ok x)) :
    af.EvaluatesTwice bv center radius := by
  obtain ⟨n₀, hx⟩ := hx
  have h' := ballValues_mono (Nat.le_max_left n n₀) h
  have hend := hx (max n n₀ + 1) (by omega)
  dsimp only at hend
  rw [project_entered hv] at hend
  obtain ⟨res, s₁, hres, -⟩ := Run.of_bind_ok hend
  have hball := (projBall_run h' (hp.trans (List.length_map _).symm)).trans (if_neg hout)
  obtain ⟨v, s₂, hagain, -⟩ := Run.of_bind_ok (congrArg Prod.fst (hball.symm.trans hres))
  refine ⟨max n n₀, v, ?_⟩
  rw [Run.bind_ok h']
  exact congrArg Prod.fst hagain

/-- An accepted point has the dimension of the ball, whose centre and radius have values. -/
theorem Accepts.ballValues (hv : af.advValid = true)
    (h : af.Accepts bv (.ball name center radius) p) : p.length = center.length ∧
      ∃ n c r st, af.ballValues bv center radius n af.toAdvState.entered = (ok (c, r), st) := by
  obtain ⟨fuel, h⟩ := h
  cases fuel with
  | zero =>
    rw [testMembership, query_fst hv] at h
    exact absurd h (by simp [calls])
  | succ n =>
    rw [testMembership_entered hv] at h
    replace h : (membershipBall (m := Method ℝ) (center.map _) _ p _).1 = ok true := h
    rw [membershipBall] at h
    obtain ⟨u, s, hassert, h⟩ := Run.of_bind_ok h
    obtain ⟨cent, s₁, hcent, h⟩ := Run.of_bind_ok h
    obtain ⟨r, s₂, hr, -⟩ := Run.of_bind_ok h
    obtain ⟨hlen, rfl⟩ := assert_run hassert
    refine ⟨hlen.trans (List.length_map _), n, cent, r, s₂, ?_⟩
    rw [AdvFunc.ballValues, evalBall, Run.bind_ok hcent, Run.bind_ok hr]
    rfl

/-- The accepted points, from the values of centre and radius. -/
theorem accepts_ball (hv : af.advValid = true)
    (h : af.ballValues bv center radius n af.toAdvState.entered = (ok (c, r), st)) :
    af.Accepts bv (.ball name center radius) p
      ↔ p.length = center.length ∧ squaredNorm (vecSub c p) ≤ r * r := by
  constructor
  · intro hp
    obtain ⟨hlen, -⟩ := hp.ballValues hv
    have heq := (hp.ends hv).unique (testMembership_ball hv h hlen)
    exact ⟨hlen, by simpa using heq.symm⟩
  · rintro ⟨hlen, hle⟩
    have hends : Ends (fun fuel => testMembership fuel (.ball name center radius) p bv) af
        (ok (Double.le (squaredNorm (vecSub c p)) (r * r))) :=
      testMembership_ball hv h hlen
    obtain ⟨k, hk⟩ := hends
    refine ⟨k, (hk k le_rfl).trans (congrArg ok ?_)⟩
    simpa using hle

end Operations

end AdvFunc

/-! ### When they agree -/

section Agreement

variable (af : AdvFunc ℝ) (bv : ValueMap ℝ) (s : SetExpr ℝ)

/-- From every point of dimension `n`, `project` returns an accepted point, and no accepted point
is nearer. -/
def AdvFunc.ProjectsToAccepted (n : ℕ) : Prop :=
  ∀ p : List ℝ, p.length = n → ∃ x,
    AdvFunc.Ends (fun fuel => AdvFunc.project fuel s p bv) af (ok x) ∧ af.Accepts bv s x ∧
      ∀ q, af.Accepts bv s q → dist x p ≤ dist q p

/-- `rectangularHull` returns a box that contains every accepted point. -/
def AdvFunc.BoxesAccepted (lp : LpSolver ℝ) : Prop :=
  ∃ B : AlignedBox ℝ, AdvFunc.Ends (fun fuel => AdvFunc.rectangularHull lp fuel s bv) af (ok B) ∧
    ∀ q, af.Accepts bv s q → B.Contains q

variable {af bv} {name : Option String} {center : List (RealExpr ℝ)} {radius : RealExpr ℝ}
  {n : ℕ} {c : List ℝ} {r : ℝ} {st : AdvState ℝ}

/-- The box of a ball is right unless its corners are the wrong way round. -/
theorem boxesAccepted_iff (hv : af.advValid = true) (lp : LpSolver ℝ)
    (h : af.ballValues bv center radius n af.toAdvState.entered = (ok (c, r), st)) :
    af.BoxesAccepted bv (.ball name center radius) lp ↔ center = [] ∨ 0 ≤ r := by
  have hlen : c.length = center.length := (evalBall_length h).trans (List.length_map _)
  have hbox : AdvFunc.Ends
      (fun fuel => AdvFunc.rectangularHull lp fuel (.ball name center radius) bv) af
      (ok ⟨c.map (· - r), c.map (· + r)⟩) :=
    AdvFunc.rectangularHull_ball hv lp h
  constructor
  · rintro ⟨B, hB, hcontains⟩
    obtain rfl : _ = B := Outcome.ok.inj (hbox.unique hB)
    rcases c with - | ⟨x, c⟩
    · exact Or.inl (List.length_eq_zero_iff.mp hlen.symm)
    · -- the centre is accepted
      have hcenter : af.Accepts bv (.ball name center radius) (x :: c) := by
        rw [AdvFunc.accepts_ball hv h, squaredNorm_vecSub_self]
        exact ⟨hlen, mul_self_nonneg r⟩
      obtain - | ⟨hle, -⟩ := (hcontains _ hcenter).1
      right
      linarith
  · intro hr
    refine ⟨_, hbox, fun q hq => ?_⟩
    obtain ⟨hqlen, hle⟩ := (AdvFunc.accepts_ball hv h).mp hq
    rcases hr with rfl | hr
    · obtain rfl : c = [] := List.length_eq_zero_iff.mp hlen
      obtain rfl : q = [] := List.length_eq_zero_iff.mp hqlen
      exact ⟨.nil, .nil⟩
    · exact contains_of_ball (hlen.trans hqlen.symm) hr hle

/-- All points of dimension zero are inside. -/
theorem projectsToAccepted_nil (hv : af.advValid = true)
    (h : af.ballValues bv [] radius n af.toAdvState.entered = (ok (c, r), st)) :
    af.ProjectsToAccepted bv (.ball name [] radius) 0 := by
  intro p hp
  obtain rfl : p = [] := List.length_eq_zero_iff.mp hp
  obtain rfl : c = [] := List.length_eq_zero_iff.mp (evalBall_length h)
  have hin : squaredNorm (vecSub ([] : List ℝ) []) ≤ r * r := mul_self_nonneg r
  refine ⟨[], AdvFunc.project_inside hv h rfl hin, ?_, fun q hq => ?_⟩
  · exact (AdvFunc.accepts_ball hv h).mpr ⟨rfl, hin⟩
  · obtain ⟨hq, -⟩ := (AdvFunc.accepts_ball hv h).mp hq
    obtain rfl : q = [] := List.length_eq_zero_iff.mp hq
    exact le_rfl

/-- With a radius that is not negative and values that can be computed again, the projection is
the nearest accepted point. -/
theorem projectsToAccepted_of_nonneg (hv : af.advValid = true)
    (h : af.ballValues bv center radius n af.toAdvState.entered = (ok (c, r), st)) (hr : 0 ≤ r)
    {st' : AdvState ℝ} (hagain : af.ballValues bv center radius n st = (ok (c, r), st')) :
    af.ProjectsToAccepted bv (.ball name center radius) center.length := by
  intro p hp
  have hlen : c.length = center.length := (evalBall_length h).trans (List.length_map _)
  have hmem (q : List ℝ) : af.Accepts bv (.ball name center radius) q
      ↔ q.length = center.length ∧
        toVec center.length q ∈ Metric.closedBall (toVec center.length c) r := by
    rw [AdvFunc.accepts_ball hv h]
    exact and_congr_right fun hq => squaredNorm_le_iff hlen hq hr
  have hvalues : evalToVector (c.map fun x => (ok x : Outcome Err ℝ)) = ok c := by
    rw [evalToVector, collect_map_ok, List.map_id']
  obtain ⟨x, hx, hxlen, hnear, hle⟩ := (projects_ball hvalues rfl hlen hr).dist_le hp
  obtain rfl : ballProjection c r p = x :=
    Outcome.ok.inj ((projBall_values (hp.trans hlen.symm)).symm.trans hx)
  refine ⟨ballProjection c r p, ?_, (hmem _).mpr ⟨hxlen, hnear.mem⟩, fun q hq => ?_⟩
  · by_cases hin : squaredNorm (vecSub c p) ≤ r * r
    · rw [ballProjection, if_pos hin]
      exact AdvFunc.project_inside hv h hp hin
    · exact AdvFunc.project_outside hv h hp hin hagain
  · obtain ⟨hqlen, hqmem⟩ := (hmem q).mp hq
    exact hle q hqlen hqmem

/-- A point outside of the ball, in any dimension but zero. -/
theorem evaluatesTwice_of_projectsToAccepted (hv : af.advValid = true)
    (h : af.ballValues bv center radius n af.toAdvState.entered = (ok (c, r), st)) (hr : 0 ≤ r)
    (hne : center ≠ [])
    (hproj : af.ProjectsToAccepted bv (.ball name center radius) center.length) :
    af.EvaluatesTwice bv center radius := by
  have hlen : c.length = center.length := (evalBall_length h).trans (List.length_map _)
  have hpos : 0 < c.length := hlen ▸ List.length_pos_of_ne_nil hne
  -- move the first coordinate of the centre by more than the radius
  let p : List ℝ := c.set 0 (c.get ⟨0, hpos⟩ + (r + 1))
  have hp : p.length = center.length := List.length_set.trans hlen
  have hout : ¬ squaredNorm (vecSub c p) ≤ r * r := by
    rw [squaredNorm_vecSub_set c hpos, List.get_eq_getElem]
    nlinarith
  obtain ⟨x, hx, -⟩ := hproj p hp
  exact AdvFunc.evaluatesTwice_of_project hv h hp hout hx

/-- The second values are the first. -/
theorem AdvFunc.EvaluatesTwice.again (htwice : af.EvaluatesTwice bv center radius)
    (h : af.ballValues bv center radius n af.toAdvState.entered = (ok (c, r), st)) :
    ∃ k st', n ≤ k ∧ af.ballValues bv center radius k st = (ok (c, r), st') := by
  obtain ⟨k, v, htwice⟩ := htwice
  obtain ⟨w, s, hfirst, hsecond⟩ := Run.of_bind_ok htwice
  have hK := AdvFunc.ballValues_mono (Nat.le_max_left n k) h
  obtain rfl : st = s := congrArg Prod.snd
    (hK.symm.trans (AdvFunc.ballValues_mono (Nat.le_max_right n k) hfirst))
  have hagain := AdvFunc.ballValues_mono (Nat.le_max_right n k) (Prod.ext hsecond rfl)
  obtain rfl := AdvFunc.ballValues_again af.sameSets_entered hK hagain
  exact ⟨max n k, _, Nat.le_max_left n k, hagain⟩

end Agreement

/-- **When the three operations agree on a ball.**  Take a ball that accepts some point, of any
dimension, with whatever radius.  `project` returns the nearest accepted point and
`rectangularHull` a box with all accepted points exactly if the dimension is zero, or the radius
is not negative and centre and radius can be evaluated twice in one query. -/
theorem ball_agreement_iff {af : AdvFunc ℝ} (hv : af.advValid = true) {bv : ValueMap ℝ}
    {name : Option String} {center : List (RealExpr ℝ)} {radius : RealExpr ℝ} {r : ℝ}
    (hr : (af.env bv).evalSem radius = ok r)
    (haccepts : ∃ q, af.Accepts bv (.ball name center radius) q) (lp : LpSolver ℝ) :
    af.ProjectsToAccepted bv (.ball name center radius) center.length ∧
        af.BoxesAccepted bv (.ball name center radius) lp
      ↔ center = [] ∨ (0 ≤ r ∧ af.EvaluatesTwice bv center radius) := by
  obtain ⟨q, hq⟩ := haccepts
  obtain ⟨-, n, c, r', st, h⟩ := hq.ballValues hv
  obtain rfl := AdvFunc.ballValues_radius hr af.sameSets_entered h
  rw [boxesAccepted_iff hv lp h]
  constructor
  · rintro ⟨hproj, hnil | hr0⟩
    · exact Or.inl hnil
    · by_cases hne : center = []
      · exact Or.inl hne
      · exact Or.inr ⟨hr0, evaluatesTwice_of_projectsToAccepted hv h hr0 hne hproj⟩
  · rintro (rfl | ⟨hr0, htwice⟩)
    · exact ⟨projectsToAccepted_nil hv h, Or.inl rfl⟩
    · obtain ⟨k, st', hk, hagain⟩ := htwice.again h
      exact ⟨projectsToAccepted_of_nonneg hv (AdvFunc.ballValues_mono hk h) hr0 hagain, Or.inr hr0⟩

/-- The interval around 0, with its radius as an expression. -/
def interval (r : ℝ) : SetExpr ℝ := .ball none [.real none 0] (.real none r)

/-- An object computes its centre and radius. -/
theorem ballValues_interval (bv : ValueMap ℝ) (r : ℝ) : ∃ st,
    emptyAdv.ballValues bv [.real none 0] (.real none r) 1 emptyAdv.toAdvState.entered
      = (ok ([0], r), st) := ⟨_, rfl⟩

/-- The centre is accepted, also if the radius is negative. -/
theorem accepts_interval (bv : ValueMap ℝ) (r : ℝ) : emptyAdv.Accepts bv (interval r) [0] := by
  obtain ⟨st, h⟩ := ballValues_interval bv r
  rw [interval, AdvFunc.accepts_ball rfl h, squaredNorm_vecSub_self]
  exact ⟨rfl, mul_self_nonneg r⟩

theorem ball_agreement_iff_sample :
    emptyAdv.ProjectsToAccepted (bindPQ 0 0) (interval 1) 1 ∧
      emptyAdv.BoxesAccepted (bindPQ 0 0) (interval 1) echoLp := by
  have htwice : emptyAdv.EvaluatesTwice (bindPQ 0 0) [.real none 0] (.real none 1) :=
    ⟨1, _, rfl⟩
  exact (ball_agreement_iff rfl (Env.evalSem_real _ _ _) ⟨[0], accepts_interval _ 1⟩ echoLp).mpr
    (Or.inr ⟨zero_le_one, htwice⟩)

/-- With radius -1 the same points are accepted as with radius 1, but the box is `[1, -1]`. -/
theorem negative_radius : (∃ q, emptyAdv.Accepts (bindPQ 0 0) (interval (-1)) q) ∧
    ¬ (emptyAdv.ProjectsToAccepted (bindPQ 0 0) (interval (-1)) 1 ∧
      emptyAdv.BoxesAccepted (bindPQ 0 0) (interval (-1)) echoLp) := by
  obtain ⟨st, h⟩ := ballValues_interval (bindPQ 0 0) (-1)
  refine ⟨⟨[0], accepts_interval _ _⟩, ?_⟩
  rintro ⟨-, hboxes⟩
  rcases (boxesAccepted_iff rfl echoLp h).mp hboxes with hnil | hneg
  · exact absurd hnil (by simp)
  · norm_num at hneg

end Commelec
