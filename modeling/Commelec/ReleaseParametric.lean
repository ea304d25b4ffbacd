/-
Commelec/ReleaseParametric.lean

The methods of the build without checks respect every `EffectRel`, as those of `Parametric` do.
Two runs may differ in their monads, their objects and the behaviour of Eigen, as long as its
operations are related (`RelEigen`).
-/
import Commelec.Parametric
import Commelec.Release

namespace Commelec

open Effectful

variable {R : Type} [Double R] {m m' : Type → Type} [Effects Err m] [Effects Err m']

namespace Release

/-! ### Relations -/

section Relation

variable {S : EffectRel Err m m'} {E E' : UncheckedEigen R}

/-- The operations are related. -/
def RelEigen (S : EffectRel Err m m') (E E' : UncheckedEigen R) : Prop :=
  ∀ {α : Type} (op : EigenOp R α), S.rel (op.perform E : m α) (op.perform E')

/-- One behaviour of Eigen in two monads. -/
theorem relEigen_self (S : EffectRel Err m m') (E : UncheckedEigen R) : RelEigen S E E := by
  intro α op
  unfold EigenOp.perform
  split
  · exact S.rel_pure _
  · split
    · exact S.rel_pure _
    · exact S.rel_raise _

omit [Double R] in
theorem rel_position (v : List R) (i : ℕ) : S.rel (position v i : m R) (position v i) := by
  unfold position
  split
  · exact S.rel_pure _
  · exact S.rel_raise _

theorem rel_membershipRectangle {xs : List (m R × m R)} {ys : List (m' R × m' R)}
    (h : RelBounds S xs ys) (pt : List R) :
    S.rel (membershipRectangle xs pt) (membershipRectangle ys pt) := by
  induction h generalizing pt with
  | nil => exact S.rel_pure _
  | cons hb _ ih =>
    refine S.rel_bind hb.1 fun _ => S.rel_bind hb.2 fun _ => ?_
    cases pt with
    | nil => exact S.rel_raise _
    | cons x pt => exact S.rel_ite (S.rel_pure _) (ih pt)

theorem rel_projRectangle {xs : List (m R × m R)} {ys : List (m' R × m' R)}
    (h : RelBounds S xs ys) (pt : List R) :
    S.rel (projRectangle xs pt) (projRectangle ys pt) := by
  induction h generalizing pt with
  | nil =>
    cases pt with
    | nil => exact S.rel_pure _
    | cons x pt => exact S.rel_raise _
  | cons hb _ ih =>
    refine S.rel_bind hb.1 fun _ => S.rel_bind hb.2 fun _ => ?_
    cases pt with
    | nil => exact S.rel_raise _
    | cons x pt => exact S.rel_map (ih pt) _

omit [Double R] in
theorem rel_halfSpaces {a : List (List (m R))} {a' : List (List (m' R))} {b : List (m R)}
    {b' : List (m' R)} (ha : List.Forall₂ (List.Forall₂ S.rel) a a')
    (hb : List.Forall₂ S.rel b b') : S.rel (halfSpaces a b) (halfSpaces a' b') := by
  induction ha generalizing b b' with
  | nil => exact S.rel_pure _
  | cons hrow _ ih =>
    refine S.rel_bind (S.rel_collect hrow) fun _ => ?_
    cases hb with
    | nil => exact S.rel_raise _
    | cons hbi hb => exact S.rel_bind hbi fun _ => S.rel_map (ih hb) _

variable (hE : RelEigen S E E')

include hE

theorem rel_membershipBall {xs : List (m R)} {ys : List (m' R)} {r : m R} {r' : m' R}
    (h : List.Forall₂ S.rel xs ys) (hr : S.rel r r') (pt : List R) :
    S.rel (membershipBall E xs r pt) (membershipBall E' ys r' pt) :=
  S.rel_bind (S.rel_collect h) fun _ => S.rel_bind hr fun _ => S.rel_map (hE _) _

theorem rel_membershipConvexPolytope {a : List (List (m R))} {a' : List (List (m' R))}
    {b : List (m R)} {b' : List (m' R)} (ha : List.Forall₂ (List.Forall₂ S.rel) a a')
    (hb : List.Forall₂ S.rel b b') (pt : List R) :
    S.rel (membershipConvexPolytope E a b pt) (membershipConvexPolytope E' a' b' pt) :=
  S.rel_bind (rel_evalToMatrix S ha) fun _ => S.rel_bind (S.rel_collect hb) fun _ =>
    S.rel_bind (hE _) fun _ => hE _

theorem rel_projBall {xs : List (m R)} {ys : List (m' R)} {r : m R} {r' : m' R}
    (h : List.Forall₂ S.rel xs ys) (hr : S.rel r r') (pt : List R) :
    S.rel (projBall E xs r pt) (projBall E' ys r' pt) :=
  S.rel_bind (rel_membershipBall hE h hr pt) fun _ => S.rel_ite (S.rel_pure _)
    (S.rel_bind (S.rel_collect h) fun _ => S.rel_bind hr fun _ =>
      S.rel_bind (hE _) fun _ => hE _)

theorem rel_projHalfSpace (hs : HalfSpace R) (pt : List R) :
    S.rel (projHalfSpace E hs pt : m (List R)) (projHalfSpace E' hs pt) :=
  S.rel_bind (hE _) fun _ => S.rel_ite (S.rel_pure _) (hE _)

theorem rel_dykstraSweep {ps : List (List R → m (List R))} {qs : List (List R → m' (List R))}
    (h : RelProjs S ps qs) (ys : List (List R)) (x : List R) :
    S.rel (dykstraSweep E ps ys x) (dykstraSweep E' qs ys x) := by
  induction h generalizing ys x with
  | nil => exact S.rel_pure _
  | cons hp _ ih =>
    cases ys with
    | nil => exact S.rel_pure _
    | cons y ys =>
      exact S.rel_bind (hE _) fun _ => S.rel_bind (hp _) fun _ => S.rel_bind (hE _) fun _ =>
        S.rel_map (ih _ _) _

theorem rel_dykstra {ps : List (List R → m (List R))} {qs : List (List R → m' (List R))}
    (h : RelProjs S ps qs) (pt : List R) :
    S.rel (dykstraProjectionAlgorithm E ps pt >>= convergedOr)
      (dykstraProjectionAlgorithm E' qs pt >>= convergedOr) := by
  have hloop : ∀ iter ys x, S.rel (dykstraLoop E ps iter ys x) (dykstraLoop E' qs iter ys x) := by
    intro iter
    induction iter with
    | zero => exact fun _ _ => S.rel_pure _
    | succ iter ih =>
      exact fun ys x => S.rel_bind (rel_dykstraSweep hE h ys x) fun _ =>
        S.rel_bind (hE _) fun _ => S.rel_ite (S.rel_pure _) (ih _ _)
  unfold dykstraProjectionAlgorithm
  rw [h.length_eq]
  refine S.rel_bind (hloop _ _ _) fun result => ?_
  cases result with
  | some x => exact S.rel_pure x
  | none => exact S.rel_raise _

theorem rel_projConvexPolytope {a : List (List (m R))} {a' : List (List (m' R))}
    {b : List (m R)} {b' : List (m' R)} (ha : List.Forall₂ (List.Forall₂ S.rel) a a')
    (hb : List.Forall₂ S.rel b b') (pt : List R) :
    S.rel (projConvexPolytope E a b pt) (projConvexPolytope E' a' b' pt) := by
  refine S.rel_bind (rel_membershipConvexPolytope hE ha hb pt) fun _ =>
    S.rel_ite (S.rel_pure _) (S.rel_bind (rel_halfSpaces ha hb) fun hss => ?_)
  refine rel_dykstra hE ?_ pt
  rw [RelProjs, List.forall₂_map_left_iff, List.forall₂_map_right_iff, List.forall₂_same]
  exact fun hs _ => rel_projHalfSpace hE hs

/-! ### Bounding boxes -/

variable (hstop : ∀ {β : Type}, S.rel (stop : m β) (stop : m' β))

include hstop

theorem rel_computeAABB (lp : LpSolver R) (A : Matrix R) (b : List R) :
    S.rel (computeAABBConvexPolytope E lp A b : m (AlignedBox R))
      (computeAABBConvexPolytope E' lp A b) := by
  have hsolve : ∀ {β : Type} {f : List R → m β} {g : List R → m' β} (halves c : List R),
      (∀ sol, S.rel (f sol) (g sol)) →
      S.rel ((lp halves c).lift >>= f) ((lp halves c).lift >>= g) :=
    fun halves c h => S.rel_bind (rel_lift S hstop _) h
  refine S.rel_bind (hE _) fun eigHalves => ?_
  refine hsolve _ _ fun sol => S.rel_bind (rel_position sol 0) fun _ => ?_
  refine hsolve _ _ fun sol2 => S.rel_bind (rel_position sol2 0) fun _ => ?_
  refine hsolve _ _ fun sol3 => S.rel_bind (rel_position sol3 1) fun _ => ?_
  exact hsolve _ _ fun sol4 => S.rel_bind (rel_position sol4 1) fun _ => S.rel_pure _

omit hstop in
theorem rel_mergeMember (st : Merged R) {x : Member R m} {y : Member R m'}
    (h : RelMember S x y) : S.rel (mergeMember E st x) (mergeMember E' st y) := by
  cases h with
  | convexPolytope ha hb =>
    refine S.rel_bind (S.rel_collect hb) fun bs => S.rel_bind (rel_evalToMatrix S ha) fun A => ?_
    dsimp only
    split
    · exact S.rel_pure _
    · exact S.rel_bind (hE _) fun _ => S.rel_map (hE _) _
  | other h =>
    refine S.rel_bind h fun hull => ?_
    split
    · exact S.rel_pure _
    · exact S.rel_map (hE _) _

omit hstop in
theorem rel_mergeMembers (st : Merged R) {xs : List (Member R m)} {ys : List (Member R m')}
    (h : List.Forall₂ (RelMember S) xs ys) :
    S.rel (mergeMembers E st xs) (mergeMembers E' st ys) := by
  induction h generalizing st with
  | nil => exact S.rel_pure st
  | cons hx _ ih => exact S.rel_bind (rel_mergeMember hE st hx) fun st => ih st

theorem rel_boundMerged (lp : LpSolver R) (st : Merged R) :
    S.rel (boundMerged E lp st : m (AlignedBox R)) (boundMerged E' lp st) := by
  unfold boundMerged
  dsimp only
  split
  · exact S.rel_pure _
  · exact S.rel_bind (hE _) fun _ => S.rel_bind (hE _) fun _ => rel_computeAABB hE hstop lp _ _

omit hE hstop

/-! ### Methods -/

variable {self : Self R m} {self' : Self R m'} {c : Calls R m} {c' : Calls R m'}
  (hself : Related S (fun _ => True) (fun _ => True) self self')
  (hc : RelCalls S (fun _ => True) (fun _ => True) c c')

include hE hself

include hc in
/-- **`membership` respects the relation.** -/
theorem rel_membershipSetExpr (s : SetExpr R) (pt : List R) :
    S.rel (membershipSetExpr E self c s pt) (membershipSetExpr E' self' c' s pt) := by
  refine S.rel_bind (hself.visitSet (s := s) trivial) fun _ => ?_
  cases s with
  | singleton n as =>
    exact S.rel_bind (S.rel_collect (S.forall₂_map fun a _ => hc.eval trivial)) fun _ => hE _
  | ball n center r =>
    exact rel_membershipBall hE (S.forall₂_map fun a _ => hc.eval trivial) (hc.eval trivial) pt
  | rectangle n bs =>
    exact rel_membershipRectangle (forall₂_bounds (fun _ _ => ⟨trivial, trivial⟩) hc) pt
  | convexPolytope n a b =>
    exact rel_membershipConvexPolytope hE (forall₂_matrix (fun _ _ _ _ => trivial) hc)
      (S.forall₂_map fun e _ => hc.eval trivial) pt
  | intersection n ss =>
    exact rel_membershipIntersection S (S.forall₂_map fun s _ => hc.membership pt trivial)
  | reference n ref =>
    exact hself.set (n := n) trivial fun s _ => hc.membership pt trivial
  | caseDistinction n vars cs => exact S.rel_raise _
  | unknown n w => exact S.rel_raise _

include hc in
/-- **`proj` respects the relation.** -/
theorem rel_projSetExpr {pr : SetExpr R → List R → m (List R)}
    {pr' : SetExpr R → List R → m' (List R)} (hpr : ∀ s pt, S.rel (pr s pt) (pr' s pt))
    (s : SetExpr R) (pt : List R) :
    S.rel (projSetExpr E self c pr s pt) (projSetExpr E' self' c' pr' s pt) := by
  refine S.rel_bind (hself.visitSet (s := s) trivial) fun _ => ?_
  cases s with
  | singleton n as => exact S.rel_collect (S.forall₂_map fun a _ => hc.eval trivial)
  | ball n center r =>
    exact rel_projBall hE (S.forall₂_map fun a _ => hc.eval trivial) (hc.eval trivial) pt
  | rectangle n bs =>
    exact rel_projRectangle (forall₂_bounds (fun _ _ => ⟨trivial, trivial⟩) hc) pt
  | convexPolytope n a b =>
    exact rel_projConvexPolytope hE (forall₂_matrix (fun _ _ _ _ => trivial) hc)
      (S.forall₂_map fun e _ => hc.eval trivial) pt
  | intersection n ss =>
    refine S.rel_bind (rel_membershipIntersection S
      (S.forall₂_map fun s _ => hc.membership pt trivial)) fun _ =>
      S.rel_ite (S.rel_pure _) (rel_dykstra hE ?_ pt)
    rw [RelProjs, List.forall₂_map_left_iff, List.forall₂_map_right_iff, List.forall₂_same]
    exact fun s _ pt => hpr s pt
  | reference n ref => exact S.rel_raise _
  | caseDistinction n vars cs => exact S.rel_raise _
  | unknown n w => exact S.rel_raise _

include hc hstop in
/-- **`rectHull` respects the relation.** -/
theorem rel_hullSetExpr (lp : LpSolver R) {rh : SetExpr R → m (AlignedBox R)}
    {rh' : SetExpr R → m' (AlignedBox R)} (hrh : ∀ s, S.rel (rh s) (rh' s)) (s : SetExpr R) :
    S.rel (hullSetExpr E self lp c rh s) (hullSetExpr E' self' lp c' rh' s) := by
  refine S.rel_bind hself.visit fun _ => ?_
  cases s with
  | singleton n as =>
    exact S.rel_map (S.rel_collect (S.forall₂_map fun a _ => hc.eval trivial)) _
  | ball n center r =>
    exact rel_hullBall S (S.forall₂_map fun a _ => hc.eval trivial) (hc.eval trivial)
  | rectangle n bs =>
    exact rel_hullRectangle S (forall₂_bounds (fun _ _ => ⟨trivial, trivial⟩) hc)
  | convexPolytope n a b =>
    exact S.rel_bind (rel_evalToMatrix S (forall₂_matrix (fun _ _ _ _ => trivial) hc)) fun _ =>
      S.rel_bind (S.rel_collect (S.forall₂_map fun e _ => hc.eval trivial)) fun _ =>
        rel_computeAABB hE hstop lp _ _
  | intersection n ss =>
    refine S.rel_bind (rel_mergeMembers hE _ ?_) fun st => rel_boundMerged hE hstop lp st
    rw [List.forall₂_map_left_iff, List.forall₂_map_right_iff, List.forall₂_same]
    exact fun s _ => rel_member .all hc (fun s _ => hrh s) trivial
  | reference n ref => exact S.rel_raise _
  | caseDistinction n vars cs => exact S.rel_raise _
  | unknown n w => exact S.rel_raise _

/-! ### Whole recursions

The second run may have more fuel, if a run that is cut off is related to every run. -/

/-- With `k` more units of fuel. -/
def CutOff (S : EffectRel Err m m') (k : ℕ) : Prop :=
  k = 0 ∨ ∀ {β : Type} (y : m' β), S.rel stop y

variable {k : ℕ} (hcut : CutOff S k)

include hstop hcut

theorem rel_calls (n : ℕ) :
    RelCalls S (fun _ => True) (fun _ => True) (calls E self n) (calls E' self' (n + k)) := by
  induction n with
  | zero =>
    rw [Nat.zero_add]
    rcases hcut with rfl | hcut
    · exact ⟨fun _ => hstop, fun _ _ => hstop⟩
    · exact ⟨fun _ => hcut _, fun _ _ => hcut _⟩
  | succ n ih =>
    rw [Nat.succ_add]
    exact ⟨fun h => rel_evalRealExpr .all hself ih h,
      fun {s} pt _ => rel_membershipSetExpr hE hself ih s pt⟩

theorem rel_evalDerivative (x : String) (n : ℕ) (e : RealExpr R) :
    S.rel (evalDerivative E self x n e) (evalDerivative E' self' x (n + k) e) := by
  induction n generalizing e with
  | zero =>
    rw [Nat.zero_add]
    rcases hcut with rfl | hcut
    · exact hstop
    · exact hcut _
  | succ n ih =>
    rw [Nat.succ_add]
    exact rel_derivRealExpr .all hself (rel_calls hE hstop hself hcut n) (fun e _ => ih e) x trivial

theorem rel_projPoint (n : ℕ) (s : SetExpr R) (pt : List R) :
    S.rel (projPoint E self n s pt) (projPoint E' self' (n + k) s pt) := by
  have hproj : S.rel (proj E self n s pt) (proj E' self' (n + k) s pt) := by
    induction n generalizing s pt with
    | zero =>
      rw [Nat.zero_add]
      rcases hcut with rfl | hcut
      · exact hstop
      · exact hcut _
    | succ n ih =>
      rw [Nat.succ_add]
      exact rel_projSetExpr hE hself (rel_calls hE hstop hself hcut n) ih s pt
  exact S.rel_bind hproj fun _ => hE _

theorem rel_rectHull (lp : LpSolver R) (n : ℕ) (s : SetExpr R) :
    S.rel (rectHull E self lp n s) (rectHull E' self' lp (n + k) s) := by
  induction n generalizing s with
  | zero =>
    rw [Nat.zero_add]
    rcases hcut with rfl | hcut
    · exact hstop
    · exact hcut _
  | succ n ih =>
    rw [Nat.succ_add]
    exact rel_hullSetExpr hE hstop hself (rel_calls hE hstop hself hcut n) lp ih s

end Relation

end Release

end Commelec
