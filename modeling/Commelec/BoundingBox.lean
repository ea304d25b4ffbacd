/-
Commelec/BoundingBox.lean

The bounding box of a set contains the points that the set accepts.

`rectHull` and `membership` interpret the same sets independently.  For singletons, balls and
rectangles, and for nested intersections of them, both are determined by the values of the
same expressions; so every accepted point is in the box, by induction on the set
(`Boxed.contains`).  The box of a single such set is the smallest one: its corners, or for a
ball the points that differ from the centre in one coordinate, are accepted
(`inside_of_accepts`).
-/
import Commelec.Acceptance
import Commelec.Dykstra
import Commelec.IntersectionHull

namespace Commelec

open Effectful Outcome Env

/-- `B` lies inside `C`. -/
def AlignedBox.Inside (B C : AlignedBox ℝ) : Prop :=
  List.Forall₂ (· ≤ ·) C.min B.min ∧ List.Forall₂ (· ≤ ·) B.max C.max

/-- A set of dimension `n` whose bounding box is found without solving linear programs. -/
inductive Env.Boxed (env : Env ℝ) (n : ℕ) : SetExpr ℝ → Prop
  | singleton {name point} : point.length = n → Boxed env n (.singleton name point)
  | ball {name center radius} : center.length = n →
      (∀ r, env.evalSem radius = ok r → 0 ≤ r) → Boxed env n (.ball name center radius)
  | rectangle {name rect} : rect.length = n → Boxed env n (.rectangle name rect)
  | intersection {name sets} : sets ≠ [] → (∀ s ∈ sets, Boxed env n s) →
      Boxed env n (.intersection name sets)

/-- A single singleton, ball or rectangle. -/
def SetExpr.isBasic {R : Type} : SetExpr R → Bool
  | .singleton .. | .ball .. | .rectangle .. => true
  | _ => false

/-! ### Boxes of lists -/

section Lists

theorem squaredNorm_nonneg (x : List ℝ) : 0 ≤ squaredNorm x := by
  rw [squaredNorm_eq rfl]
  positivity

theorem squaredNorm_cons (a : ℝ) (x : List ℝ) :
    squaredNorm (a :: x) = a * a + squaredNorm x := by
  simp [squaredNorm, dot]

/-- A point of a ball is in its box. -/
theorem contains_of_ball {cent p : List ℝ} {r : ℝ} (hlen : cent.length = p.length) (hr : 0 ≤ r)
    (h : squaredNorm (vecSub cent p) ≤ r * r) :
    (⟨cent.map (· - r), cent.map (· + r)⟩ : AlignedBox ℝ).Contains p := by
  induction cent generalizing p with
  | nil =>
    obtain rfl : p = [] := List.length_eq_zero_iff.mp hlen.symm
    exact ⟨.nil, .nil⟩
  | cons c cent ih =>
    obtain - | ⟨x, p⟩ := p
    · simp at hlen
    · have hcons : squaredNorm (vecSub (c :: cent) (x :: p))
          = (c - x) * (c - x) + squaredNorm (vecSub cent p) := squaredNorm_cons _ _
      -- the distance of one coordinate is at most that of the points
      have hrest := squaredNorm_nonneg (vecSub cent p)
      have hfirst : |c - x| ≤ r := by
        apply abs_le_of_sq_le_sq _ hr
        nlinarith
      have hle : squaredNorm (vecSub cent p) ≤ r * r := by nlinarith [mul_self_nonneg (c - x)]
      obtain ⟨hmin, hmax⟩ := ih (p := p) (by simpa using hlen) hle
      rw [abs_le] at hfirst
      exact ⟨.cons (by linarith) hmin, .cons (by linarith) hmax⟩

theorem forall₂_zipWith_max {a b p : List ℝ} (ha : List.Forall₂ (· ≤ ·) a p)
    (hb : List.Forall₂ (· ≤ ·) b p) : List.Forall₂ (· ≤ ·) (List.zipWith stdMax a b) p := by
  induction ha generalizing b with
  | nil => exact .nil
  | cons hx _ ih =>
    cases hb with
    | cons hy hb =>
      refine .cons ?_ (ih hb)
      rw [stdMax_real]
      exact max_le hx hy

theorem forall₂_zipWith_min {a b p : List ℝ} (ha : List.Forall₂ (· ≤ ·) p a)
    (hb : List.Forall₂ (· ≤ ·) p b) : List.Forall₂ (· ≤ ·) p (List.zipWith stdMin a b) := by
  induction ha generalizing b with
  | nil => exact .nil
  | cons hx _ ih =>
    cases hb with
    | cons hy hb =>
      refine .cons ?_ (ih hb)
      rw [stdMin_real]
      exact le_min hx hy

/-- The intersection of two boxes, whatever their dimension. -/
theorem AlignedBox.contains_intersection {B C D : AlignedBox ℝ} {p : List ℝ}
    (h : (B.intersection C : Outcome Err (AlignedBox ℝ)) = ok D) (hB : B.Contains p)
    (hC : C.Contains p) : D.Contains p := by
  obtain ⟨-, -, h⟩ := bind_eq_ok.mp h
  obtain ⟨-, -, h⟩ := bind_eq_ok.mp h
  obtain rfl := Outcome.ok.inj h
  exact ⟨forall₂_zipWith_max hB.1 hC.1, forall₂_zipWith_min hB.2 hC.2⟩

end Lists

/-! ### Boxes of basic sets -/

namespace Env

variable (env : Env ℝ) (lp : LpSolver ℝ) (n : Option String)

theorem hullSem_singleton (point : List (RealExpr ℝ)) :
    env.hullSem lp (.singleton n point) = hullSingleton (point.map env.evalSem) :=
  env.hullSem_eq lp _

theorem hullSem_ball (center : List (RealExpr ℝ)) (radius : RealExpr ℝ) :
    env.hullSem lp (.ball n center radius)
      = hullBall (center.map env.evalSem) (env.evalSem radius) := env.hullSem_eq lp _

theorem hullSem_rectangle (rect : List (RealExpr ℝ × RealExpr ℝ)) :
    env.hullSem lp (.rectangle n rect)
      = hullRectangle (rect.map fun b => (env.evalSem b.1, env.evalSem b.2)) :=
  env.hullSem_eq lp _

end Env

/-! ### Every accepted point is in the box -/

section Contains

variable {env : Env ℝ} {lp : LpSolver ℝ} {n : ℕ} {s : SetExpr ℝ} {B : AlignedBox ℝ} {p : List ℝ}

/-- In an intersection such a set is not treated as a polytope. -/
theorem Env.Boxed.member_eq (h : env.Boxed n s) :
    member env.sem (env.hullSem lp) s = .other (env.hullSem lp s) := by
  cases h <;> rfl

/-- The box of a rectangle, from the values of its bounds. -/
theorem hullRectangle_ok {rect : List (Outcome Err ℝ × Outcome Err ℝ)}
    (h : hullRectangle rect = ok B) : ∃ bounds, Bounds rect bounds ∧
      B = ⟨bounds.map fun b => min b.1 b.2, bounds.map fun b => max b.1 b.2⟩ := by
  obtain ⟨pairs, hpairs, hB⟩ := bind_eq_ok.mp h
  obtain rfl := Outcome.ok.inj hB
  clear h hB
  induction rect generalizing pairs with
  | nil =>
    obtain rfl : [] = pairs := Outcome.ok.inj hpairs
    exact ⟨[], .nil, rfl⟩
  | cons b rect ih =>
    obtain ⟨pair, hpair, hpairs⟩ := bind_eq_ok.mp hpairs
    obtain ⟨pairs, hrest, hpairs⟩ := bind_eq_ok.mp hpairs
    obtain ⟨val1, hval1, hpair⟩ := bind_eq_ok.mp hpair
    obtain ⟨val2, hval2, hpair⟩ := bind_eq_ok.mp hpair
    obtain rfl := Outcome.ok.inj hpair
    obtain rfl := Outcome.ok.inj hpairs
    obtain ⟨bounds, hbounds, heq⟩ := ih pairs hrest
    obtain ⟨hmin, hmax⟩ := AlignedBox.mk.inj heq
    refine ⟨(val1, val2) :: bounds, .cons ⟨hval1, hval2⟩ hbounds, ?_⟩
    rw [List.map_cons, List.map_cons, List.map_cons, List.map_cons, hmin, hmax, stdMin_real,
      stdMax_real]

/-- A point of a rectangle is between its bounds. -/
theorem contains_of_bounds {rect : List (Outcome Err ℝ × Outcome Err ℝ)}
    {bounds : List (ℝ × ℝ)} (h : Bounds rect bounds) (hlen : p.length = rect.length)
    (hp : insideBounds rect p = ok true) :
    (⟨bounds.map fun b => min b.1 b.2, bounds.map fun b => max b.1 b.2⟩
      : AlignedBox ℝ).Contains p := by
  have hbetween := (insideBounds_iff h (hlen.trans h.length_eq)).mp hp
  constructor
  · apply List.forall₂_map_left_iff.mpr
    exact hbetween.imp fun _ _ hx => hx.1
  · apply List.forall₂_map_right_iff.mpr
    exact hbetween.flip.imp fun _ _ hx => hx.2

/-- The loop keeps the point in the box. -/
theorem mergeMembers_contains {sets : List (SetExpr ℝ)} {st st' : Merged ℝ}
    (h : mergeMembers st (sets.map fun s => .other (env.hullSem lp s)) = ok st')
    (hmembers : ∀ s ∈ sets, ∀ B, env.hullSem lp s = ok B → B.Contains p)
    (hst : ∀ B, st.tempResult = some B → B.Contains p) :
    st'.poly = st.poly ∧ (∀ B, st'.tempResult = some B → B.Contains p) ∧
      (st.tempResult.isSome ∨ sets ≠ [] → st'.tempResult.isSome) := by
  induction sets generalizing st with
  | nil =>
    obtain rfl : st = st' := Outcome.ok.inj h
    exact ⟨rfl, hst, fun h => h.resolve_right (by simp)⟩
  | cons s sets ih =>
    rw [List.map_cons, mergeMembers] at h
    obtain ⟨st₁, hone, hrest⟩ := bind_eq_ok.mp h
    obtain ⟨hull, hhull, hone⟩ := bind_eq_ok.mp hone
    have hin : hull.Contains p := hmembers s List.mem_cons_self hull hhull
    -- the first box is taken over, each further one intersected
    obtain ⟨hpoly, C, htemp, hC⟩ : st₁.poly = st.poly ∧
        ∃ C, st₁.tempResult = some C ∧ C.Contains p := by
      rcases htemp : st.tempResult with - | D
      · rw [htemp] at hone
        obtain rfl := Outcome.ok.inj hone
        exact ⟨rfl, hull, rfl, hin⟩
      · rw [htemp] at hone
        obtain ⟨C, hC, hone⟩ := bind_eq_ok.mp hone
        obtain rfl := Outcome.ok.inj hone
        exact ⟨rfl, C, rfl, AlignedBox.contains_intersection hC (hst D htemp) hin⟩
    have hst₁ : ∀ B, st₁.tempResult = some B → B.Contains p := by
      intro B hB
      obtain rfl : C = B := Option.some.inj (htemp.symm.trans hB)
      exact hC
    obtain ⟨hpoly', hcontains, hsome⟩ :=
      ih hrest (fun s hs => hmembers s (List.mem_cons_of_mem _ hs)) hst₁
    exact ⟨hpoly'.trans hpoly, hcontains, fun _ => hsome (Or.inl (by rw [htemp]; rfl))⟩

/-- **Every accepted point is in the box.** -/
theorem Env.Boxed.contains (hs : env.Boxed n s) (hB : env.hullSem lp s = ok B)
    (hp : env.memberSem s p = ok true) (hexact : env.EqualsSingletons s p) : B.Contains p := by
  induction hs generalizing B with
  | @singleton name point hlen =>
    rw [env.hullSem_singleton] at hB
    obtain ⟨v, hv, hB⟩ := bind_eq_ok.mp hB
    obtain rfl := Outcome.ok.inj hB
    obtain rfl : p = v := Outcome.ok.inj ((equalsSingletons_singleton.mp hexact).symm.trans hv)
    exact ⟨List.forall₂_same.mpr fun _ _ => le_rfl, List.forall₂_same.mpr fun _ _ => le_rfl⟩
  | @ball name center radius hlen hradius =>
    rw [env.hullSem_ball] at hB
    obtain ⟨cent, hcent, hB⟩ := bind_eq_ok.mp hB
    obtain ⟨r, hr, hB⟩ := bind_eq_ok.mp hB
    obtain rfl := Outcome.ok.inj hB
    rw [memberSem_ball, membershipBall] at hp
    obtain ⟨_, hassert, hp⟩ := bind_eq_ok.mp hp
    rw [hcent, ok_bind, hr, ok_bind] at hp
    have hle : squaredNorm (vecSub cent p) ≤ r * r := by simpa using hp
    have hlen' : p.length = (center.map env.evalSem).length := by
      simpa using assert_eq_ok hassert
    exact contains_of_ball ((collect_length hcent).trans hlen'.symm) (hradius r hr) hle
  | @rectangle name rect hlen =>
    rw [env.hullSem_rectangle] at hB
    obtain ⟨bounds, hbounds, rfl⟩ := hullRectangle_ok hB
    rw [memberSem_rectangle, membershipRectangle] at hp
    obtain ⟨_, hassert, hp⟩ := bind_eq_ok.mp hp
    exact contains_of_bounds hbounds (by simpa using assert_eq_ok hassert) hp
  | @intersection name sets hne hsets ih =>
    rw [memberSem_intersection_eq_true] at hp
    have hmembers : sets.map (member env.sem (env.hullSem lp))
        = sets.map fun s => .other (env.hullSem lp s) :=
      List.map_congr_left fun s hs => (hsets s hs).member_eq
    -- no member is a polytope, so the system stays empty and no linear program is solved
    rw [hullSem_intersection, hullIntersection, intersectionSystem, hmembers] at hB
    obtain ⟨system, hsystem, hB⟩ := bind_eq_ok.mp hB
    obtain ⟨st, hst, hsystem⟩ := bind_eq_ok.mp hsystem
    obtain ⟨hpoly, hcontains, hsome⟩ := mergeMembers_contains hst
      (fun s hs B hB => ih s hs hB (hp s hs) (hexact.member hs)) (fun B hB => by simp at hB)
    obtain ⟨C, hC⟩ := Option.isSome_iff_exists.mp (hsome (Or.inr hne))
    rw [hpoly, hC] at hsystem
    obtain rfl := Outcome.ok.inj hsystem
    obtain rfl : C = B := Outcome.ok.inj hB
    exact hcontains C hC

end Contains

/-! ### The box of a basic set is the smallest one -/

section Runs

variable {σ : Type} {st : σ} {B : AlignedBox ℝ} {p : List ℝ}

theorem isApprox_self (x : List ℝ) : isApprox x x = true := by
  have hzero : squaredNorm (vecSub x x) = 0 := by
    rw [squaredNorm_eq rfl, toVec_vecSub (x := x) (y := x) (by simp [vecSub]) (by simp [vecSub]),
      sub_self, norm_zero, zero_pow two_ne_zero]
  rw [isApprox, hzero, le_real, stdMin_real]
  exact mul_nonneg (mul_self_nonneg _) (le_min (squaredNorm_nonneg x) (squaredNorm_nonneg x))

/-- A singleton accepts its corner. -/
theorem membershipSingleton_of_hull {point : List (Run σ Err ℝ)}
    (h : (hullSingleton point st).1 = ok B) :
    B.min = B.max ∧ B.min.length = point.length ∧
      (membershipSingleton point B.min st).1 = ok true := by
  obtain ⟨v, st₁, hv, h⟩ := Run.of_bind_ok h
  obtain rfl := Outcome.ok.inj h
  have hlen := Run.collect_length hv
  refine ⟨rfl, hlen, ?_⟩
  show (membershipSingleton point v st).1 = ok true
  rw [membershipSingleton, decide_eq_true hlen]
  show ((evalToVector point >>= fun sing => pure (isApprox v sing)) st).1 = ok true
  rw [Run.bind_ok hv, isApprox_self]
  rfl

/-- A ball accepts the points at most `r` away from the centre. -/
theorem membershipBall_of_hull {center : List (Run σ Err ℝ)} {radius : Run σ Err ℝ}
    (h : (hullBall center radius st).1 = ok B) :
    ∃ cent r, B = ⟨cent.map (· - r), cent.map (· + r)⟩ ∧ cent.length = center.length ∧
      ∀ p, p.length = center.length → squaredNorm (vecSub cent p) ≤ r * r →
        (membershipBall center radius p st).1 = ok true := by
  obtain ⟨cent, st₁, hcent, h⟩ := Run.of_bind_ok h
  obtain ⟨r, st₂, hr, h⟩ := Run.of_bind_ok h
  obtain rfl := Outcome.ok.inj h
  refine ⟨cent, r, rfl, Run.collect_length hcent, fun p hlen hp => ?_⟩
  rw [membershipBall, decide_eq_true hlen]
  show ((evalToVector center >>= fun cent => radius >>= fun r =>
    pure (Double.le (squaredNorm (vecSub cent p)) (r * r))) st).1 = ok true
  rw [Run.bind_ok hcent, Run.bind_ok hr]
  exact congrArg ok (by simpa using hp)

/-- One step of the loop over the bounds. -/
theorem insideBounds_cons {b : Run σ Err ℝ × Run σ Err ℝ} {st₁ st₂ : σ} {val1 val2 : ℝ}
    (h1 : b.1 st = (ok val1, st₁)) (h2 : b.2 st₁ = (ok val2, st₂))
    (rect : List (Run σ Err ℝ × Run σ Err ℝ)) (x : ℝ) (p : List ℝ) :
    insideBounds (b :: rect) (x :: p) st =
      if min val1 val2 ≤ x ∧ x ≤ max val1 val2 then insideBounds rect p st₂
      else (ok false, st₂) := by
  rw [insideBounds, Run.bind_ok h1, Run.bind_ok h2]
  by_cases hin : min val1 val2 ≤ x ∧ x ≤ max val1 val2
  · rw [if_pos hin, if_neg fun h => outOfBounds_real.mp h hin]
  · rw [if_neg hin, if_pos (outOfBounds_real.mpr hin)]
    rfl

/-- A rectangle accepts the points between its bounds. -/
theorem insideBounds_of_hull {rect : List (Run σ Err ℝ × Run σ Err ℝ)}
    (h : (hullRectangle rect st).1 = ok B) (hp : B.Contains p) :
    p.length = rect.length ∧ (insideBounds rect p st).1 = ok true := by
  obtain ⟨pairs, st₁, hpairs, heq⟩ := Run.of_bind_ok h
  obtain rfl := Outcome.ok.inj heq
  clear h heq
  replace hpairs : (collect (m := Run σ Err) _ st).1 = ok pairs := congrArg Prod.fst hpairs
  induction rect generalizing pairs st p with
  | nil =>
    obtain rfl : [] = pairs := Outcome.ok.inj hpairs
    obtain rfl : p = [] := List.forall₂_nil_left_iff.mp hp.1
    exact ⟨rfl, rfl⟩
  | cons b rect ih =>
    rw [List.map_cons, collect_cons, Run.bind_assoc] at hpairs
    obtain ⟨val1, st₂, hval1, hpairs⟩ := Run.of_bind_ok hpairs
    rw [Run.bind_assoc] at hpairs
    obtain ⟨val2, st₃, hval2, hpairs⟩ := Run.of_bind_ok hpairs
    rw [Run.pure_bind] at hpairs
    obtain ⟨rest, st₄, hrest, hpairs⟩ := Run.of_bind_ok hpairs
    obtain rfl := Outcome.ok.inj hpairs
    obtain ⟨hmin, hmax⟩ := hp
    obtain - | ⟨hx, hmin⟩ := hmin
    obtain - | ⟨hx', hmax⟩ := hmax
    rename_i x p
    obtain ⟨hlen, hin⟩ := ih rest ⟨hmin, hmax⟩ (congrArg Prod.fst hrest)
    refine ⟨congrArg (· + 1) hlen, ?_⟩
    rw [stdMin_real] at hx
    rw [stdMax_real] at hx'
    rw [insideBounds_cons hval1 hval2, if_pos ⟨hx, hx'⟩]
    exact hin

end Runs

/-- The corners of a box that is not empty. -/
theorem AlignedBox.contains_corners {B : AlignedBox ℝ}
    (h : List.Forall₂ (· ≤ ·) B.min B.max) : B.Contains B.min ∧ B.Contains B.max :=
  ⟨⟨List.forall₂_same.mpr fun _ _ => le_rfl, h⟩, ⟨h, List.forall₂_same.mpr fun _ _ => le_rfl⟩⟩

theorem squaredNorm_vecSub_self (x : List ℝ) : squaredNorm (vecSub x x) = 0 := by
  induction x with
  | nil => rfl
  | cons a x ih =>
    have hcons : squaredNorm (vecSub (a :: x) (a :: x))
        = (a - a) * (a - a) + squaredNorm (vecSub x x) := squaredNorm_cons _ _
    rw [hcons, ih, sub_self, zero_mul, zero_add]

/-- Changing one coordinate of the centre. -/
theorem squaredNorm_vecSub_set (cent : List ℝ) {i : ℕ} (hi : i < cent.length) (x : ℝ) :
    squaredNorm (vecSub cent (cent.set i x)) = (cent[i] - x) * (cent[i] - x) := by
  induction cent generalizing i with
  | nil => simp at hi
  | cons c cent ih =>
    cases i with
    | zero =>
      have hcons : squaredNorm (vecSub (c :: cent) (x :: cent))
          = (c - x) * (c - x) + squaredNorm (vecSub cent cent) := squaredNorm_cons _ _
      rw [squaredNorm_vecSub_self, add_zero] at hcons
      exact hcons
    | succ i =>
      have hcons : squaredNorm (vecSub (c :: cent) (c :: cent.set i x))
          = (c - c) * (c - c) + squaredNorm (vecSub cent (cent.set i x)) := squaredNorm_cons _ _
      rw [ih (by simpa using hi), sub_self, zero_mul, zero_add] at hcons
      exact hcons

/-- The coordinate of a contained point that has been set. -/
theorem AlignedBox.Contains.coordinate {C : AlignedBox ℝ} {cent : List ℝ} {i : ℕ} {x : ℝ}
    (h : C.Contains (cent.set i x)) (hi : i < cent.length) :
    (∀ hlo : i < C.min.length, C.min.get ⟨i, hlo⟩ ≤ x) ∧
      ∀ hhi : i < C.max.length, x ≤ C.max.get ⟨i, hhi⟩ := by
  constructor
  · intro hlo
    have hle := (List.forall₂_iff_get.mp h.1).2 i hlo (by simpa using hi)
    simpa using hle
  · intro hhi
    have hle := (List.forall₂_iff_get.mp h.2).2 i (by simpa using hi) hhi
    simpa using hle

/-- A box that contains a ball. -/
theorem inside_of_ball {cent : List ℝ} {r : ℝ} {C : AlignedBox ℝ}
    (h : ∀ p, p.length = cent.length → squaredNorm (vecSub cent p) ≤ r * r → C.Contains p) :
    (⟨cent.map (· - r), cent.map (· + r)⟩ : AlignedBox ℝ).Inside C := by
  obtain ⟨hmin, hmax⟩ := h cent rfl (by rw [squaredNorm_vecSub_self]; exact mul_self_nonneg r)
  -- the points that differ from the centre in one coordinate, by `r`
  have hpoint : ∀ i (hi : i < cent.length) x, (cent[i] - x) * (cent[i] - x) ≤ r * r →
      C.Contains (cent.set i x) := by
    intro i hi x hx
    apply h
    · exact List.length_set
    · rw [squaredNorm_vecSub_set cent hi]
      exact hx
  constructor
  · apply List.forall₂_iff_get.mpr
    refine ⟨by rw [hmin.length_eq, List.length_map], fun i hlo hi => ?_⟩
    have hi' : i < cent.length := by simpa using hi
    have hleft := hpoint i hi' (cent[i] - r) (by ring_nf; rfl)
    simpa using (hleft.coordinate hi').1 hlo
  · apply List.forall₂_iff_get.mpr
    refine ⟨by rw [← hmax.length_eq, List.length_map], fun i hi hhi => ?_⟩
    have hi' : i < cent.length := by simpa using hi
    have hright := hpoint i hi' (cent[i] + r) (by ring_nf; rfl)
    simpa using (hright.coordinate hi').2 hhi

section Object

variable {af : AdvFunc ℝ} {bv : ValueMap ℝ} {lp : LpSolver ℝ} {n : ℕ} {s : SetExpr ℝ}
  {B C : AlignedBox ℝ}

/-- A fuel that a bounding box query returns with is not zero. -/
theorem exists_fuel_of_hull {fuel : ℕ} (hv : af.advValid = true)
    (h : (AdvFunc.rectangularHull lp fuel s bv af).1 = ok B) : ∃ k, fuel = k + 1 := by
  cases fuel with
  | zero =>
    rw [AdvFunc.rectangularHull, AdvFunc.query_fst hv] at h
    exact absurd h (by simp [rectHull])
  | succ k => exact ⟨k, rfl⟩

/-- A rectangle accepts the points of its box. -/
theorem accepts_rectangle (hv : af.advValid = true) {name : Option String}
    {rect : List (RealExpr ℝ × RealExpr ℝ)} {fuel : ℕ} {p : List ℝ}
    (hB : (AdvFunc.rectangularHull lp fuel (.rectangle name rect) bv af).1 = ok B)
    (hp : B.Contains p) :
    p.length = rect.length ∧ af.AcceptsExactly bv (.rectangle name rect) p := by
  obtain ⟨k, rfl⟩ := exists_fuel_of_hull hv hB
  rw [rectangularHull_entered hv] at hB
  obtain ⟨hlen, hrun⟩ := insideBounds_of_hull hB hp
  refine ⟨by rw [hlen, List.length_map], ⟨k + 1, ?_⟩, equalsSingletons_rectangle _⟩
  rw [testMembership_entered hv]
  show (membershipRectangle (m := Method ℝ) (rect.map _) p _).1 = ok true
  rw [membershipRectangle, decide_eq_true hlen]
  exact hrun

/-- **The box of a basic set is inside every box that contains the accepted points.** -/
theorem inside_of_accepts (hv : af.advValid = true) (hs : (af.env bv).Boxed n s)
    (hbasic : s.isBasic = true) {fuel : ℕ}
    (hB : (AdvFunc.rectangularHull lp fuel s bv af).1 = ok B)
    (hC : ∀ p, p.length = n → af.AcceptsExactly bv s p → C.Contains p) : B.Inside C := by
  have hsem := sem_of_returned hv (refines_hull (af.env bv) lp s) hB
  cases hs with
  | @singleton name point hlen =>
    obtain ⟨k, rfl⟩ := exists_fuel_of_hull hv hB
    rw [rectangularHull_entered hv] at hB
    obtain ⟨heq, hlen', hrun⟩ := membershipSingleton_of_hull hB
    -- both corners are the value, which is accepted
    have haccepts : af.AcceptsExactly bv (.singleton name point) B.min := by
      refine ⟨⟨k + 1, ?_⟩, equalsSingletons_singleton.mpr ?_⟩
      · rw [testMembership_entered hv]
        exact hrun
      · rw [hullSem_singleton] at hsem
        obtain ⟨v, hvalue, hsem⟩ := bind_eq_ok.mp hsem
        obtain rfl := Outcome.ok.inj hsem
        exact hvalue
    obtain ⟨hmin, hmax⟩ := hC B.min (by rw [hlen', List.length_map, hlen]) haccepts
    exact ⟨hmin, heq ▸ hmax⟩
  | @ball name center radius hlen hradius =>
    obtain ⟨k, rfl⟩ := exists_fuel_of_hull hv hB
    rw [rectangularHull_entered hv] at hB
    obtain ⟨cent, r, rfl, hlen', hrun⟩ := membershipBall_of_hull hB
    rw [List.length_map] at hlen'
    apply inside_of_ball
    intro p hp hle
    refine hC p (hp.trans (hlen'.trans hlen)) ⟨⟨k + 1, ?_⟩, equalsSingletons_ball _ _⟩
    rw [testMembership_entered hv]
    exact hrun p (by rw [List.length_map, hp, hlen']) hle
  | @rectangle name rect hlen =>
    -- all points of the box are accepted, among them its corners
    have hmember : ∀ p, B.Contains p → C.Contains p := by
      intro p hp
      obtain ⟨hlen', haccepts⟩ := accepts_rectangle hv hB hp
      exact hC p (hlen'.trans hlen) haccepts
    rw [hullSem_rectangle] at hsem
    obtain ⟨bounds, -, rfl⟩ := hullRectangle_ok hsem
    have hle : List.Forall₂ (· ≤ ·) (bounds.map fun b => min b.1 b.2)
        (bounds.map fun b => max b.1 b.2) := by
      rw [List.forall₂_map_left_iff, List.forall₂_map_right_iff]
      exact List.forall₂_same.mpr fun _ _ => min_le_max
    obtain ⟨hmin, hmax⟩ := AlignedBox.contains_corners (B := ⟨_, _⟩) hle
    exact ⟨(hmember _ hmin).1, (hmember _ hmax).2⟩
  | intersection => simp [SetExpr.isBasic] at hbasic

end Object

/-- **The bounding box contains the set**: every accepted point is in the box that
`rectangularHull` returns, and for a single singleton, ball or rectangle no smaller box
contains them all. -/
theorem rectangularHull_contains {af : AdvFunc ℝ} (hv : af.advValid = true) {bv : ValueMap ℝ}
    {lp : LpSolver ℝ} {n : ℕ} {s : SetExpr ℝ} (hs : (af.env bv).Boxed n s) {fuel : ℕ}
    {B : AlignedBox ℝ} (hB : (AdvFunc.rectangularHull lp fuel s bv af).1 = ok B) :
    (∀ p, p.length = n → af.AcceptsExactly bv s p → B.Contains p) ∧
      (s.isBasic = true → ∀ C : AlignedBox ℝ,
        (∀ p, p.length = n → af.AcceptsExactly bv s p → C.Contains p) → B.Inside C) := by
  refine ⟨fun p _ hp => ?_, fun hbasic C hC => inside_of_accepts hv hs hbasic hB hC⟩
  have hsem := sem_of_returned hv (refines_hull (af.env bv) lp s) hB
  exact hs.contains hsem (hp.1.memberSem hv) hp.2

/-- The box of the square from 0 to 2. -/
theorem hull_square : (AdvFunc.rectangularHull echoLp 2 square (bindPQ 0 0) emptyAdv).1
    = ok ⟨[stdMin 0 2, stdMin 0 2], [stdMax 0 2, stdMax 0 2]⟩ := rfl

theorem rectangularHull_contains_sample :
    (∀ p, p.length = 2 → emptyAdv.AcceptsExactly (bindPQ 0 0) square p →
      (⟨[stdMin 0 2, stdMin 0 2], [stdMax 0 2, stdMax 0 2]⟩ : AlignedBox ℝ).Contains p) ∧
    (square.isBasic = true → ∀ C : AlignedBox ℝ,
      (∀ p, p.length = 2 → emptyAdv.AcceptsExactly (bindPQ 0 0) square p → C.Contains p) →
      AlignedBox.Inside ⟨[stdMin 0 2, stdMin 0 2], [stdMax 0 2, stdMax 0 2]⟩ C) := by
  have hboxed : (emptyAdv.env (bindPQ 0 0)).Boxed 2 square := .rectangle rfl
  exact rectangularHull_contains rfl hboxed hull_square

end Commelec
