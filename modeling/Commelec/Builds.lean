/-
Commelec/Builds.lean

The build with assertions, and the build without.

`Release` has the operations on sets as a build without checks carries them out.  Where Eigen's
checks end the process, Eigen does its worst; so what is left of the other build are the
assertions that the methods begin with (`Task.asserted`), and one loop that leaves a coordinate
unassigned where the build without checks is said to go outside.  Up to that (`faulty`) a method
with assertions is its assertion, followed by the method without (`membershipSetExpr_faulty`,
`projPoint_faulty`, `hullSetExpr_eq`).
-/
import Commelec.Misfits

namespace Commelec

open Effectful Outcome Double

variable {R : Type}

/-! ### How a query ends -/

/-- What is not returned is an exception. -/
def Catchable {α : Type} (x : Outcome Err α) : Prop := ∀ e, x = .throw e → IsException e

/-- Two runs that end alike, but for the way in which the process is lost. -/
def faulty : EffectRel Err (Outcome Err) (Outcome Err) where
  rel x y := x = y ∨ ¬ Catchable x ∧ ¬ Catchable y
  rel_pure _ := .inl rfl
  rel_raise _ := .inl rfl
  rel_bind := by
    intro α β x y f g hx hf
    have hbind : ∀ {x : Outcome Err α} (f : α → Outcome Err β), ¬ Catchable x →
        ¬ Catchable (x >>= f) := by
      intro x f hlost
      simp only [Catchable, not_forall] at hlost ⊢
      obtain ⟨e, he, hne⟩ := hlost
      exact ⟨e, by rw [he]; rfl, hne⟩
    rcases hx with rfl | ⟨hx, hy⟩
    · cases x with
      | ok a => exact hf a
      | throw e => exact .inl rfl
      | outOfFuel => exact .inl rfl
    · exact .inr ⟨hbind f hx, hbind g hy⟩

section Faulty

variable {α : Type} {x y z : Outcome Err α}

theorem faulty_refl (x : Outcome Err α) : faulty.rel x x := .inl rfl

theorem faulty_trans (h : faulty.rel x y) (h' : faulty.rel y z) : faulty.rel x z := by
  rcases h with rfl | ⟨hx, hy⟩
  · exact h'
  · rcases h' with rfl | ⟨-, hz⟩
    · exact .inr ⟨hx, hy⟩
    · exact .inr ⟨hx, hz⟩

theorem catchable_iff_of_faulty (h : faulty.rel x y) : Catchable x ↔ Catchable y := by
  rcases h with rfl | ⟨hx, hy⟩
  · rfl
  · exact iff_of_false hx hy

@[simp] theorem catchable_ok (a : α) : Catchable (ok a : Outcome Err α) := fun _ h => nomatch h

@[simp] theorem catchable_outOfFuel : Catchable (outOfFuel : Outcome Err α) := fun _ h => nomatch h

@[simp] theorem catchable_throw_iff {e : Err} :
    Catchable (.throw e : Outcome Err α) ↔ IsException e :=
  ⟨fun h => h e rfl, fun h _ he => Outcome.throw.inj he ▸ h⟩

theorem not_catchable_throw {e : Err} (he : ¬ IsException e) :
    ¬ Catchable (.throw e : Outcome Err α) := mt catchable_throw_iff.mp he

theorem not_isException_outside : ¬ IsException outside := fun h => h.2.1 rfl

end Faulty

/-! ### Assertions -/

variable [Double R]

omit [Double R] in
/-- An assertion, and what follows it. -/
theorem assert_bind {α : Type} (b : Bool) (f : Unit → Outcome Err α) :
    (assert b >>= f) = if b then f () else .throw .assertion := by
  cases b <;> rfl

omit [Double R] in
/-- Two sequences that go on alike with what is returned. -/
theorem bind_congr_ok {α β : Type} {x : Outcome Err α} {f g : α → Outcome Err β}
    (h : ∀ a, x = ok a → f a = g a) : (x >>= f) = x >>= g := by
  cases x with
  | ok a => exact h a rfl
  | throw e => rfl
  | outOfFuel => rfl

/-- An operation of Eigen, and what follows it. -/
theorem perform_bind {α β : Type} (op : EigenOp R α) (f : α → Outcome Err β) :
    (op.perform .worst >>= f) = if op.fits then f op.value else .throw .assertion := by
  rw [perform_worst]
  cases op.fits <;> rfl

/-! ### Membership -/

section Membership

variable {pt : List R}

theorem membershipSingleton_eq {xs : List (Outcome Err R)} (h : xs.length = pt.length) :
    membershipSingleton xs pt = Release.membershipSingleton .worst xs pt := by
  rw [membershipSingleton, assert_bind, if_pos (decide_eq_true h.symm)]
  refine bind_congr_ok fun sing hsing => ?_
  have hfits : (EigenOp.isApprox pt sing).fits = true :=
    decide_eq_true (h.symm.trans (collect_length hsing).symm)
  exact (perform_worst_of_fits hfits).symm

theorem membershipBall_eq {xs : List (Outcome Err R)} (r : Outcome Err R)
    (h : xs.length = pt.length) :
    membershipBall xs r pt = Release.membershipBall .worst xs r pt := by
  rw [membershipBall, assert_bind, if_pos (decide_eq_true h.symm)]
  refine bind_congr_ok fun cent hcent => congrArg _ (funext fun r => ?_)
  have hfits : (EigenOp.sub cent pt).fits = true :=
    decide_eq_true ((collect_length hcent).trans h)
  rw [perform_bind, if_pos hfits]
  rfl

theorem insideBounds_eq {bs : List (Outcome Err R × Outcome Err R)}
    (h : bs.length = pt.length) : insideBounds bs pt = Release.membershipRectangle bs pt := by
  induction bs generalizing pt with
  | nil => cases pt <;> rfl
  | cons b bs ih =>
    cases pt with
    | nil => exact absurd h (Nat.succ_ne_zero _)
    | cons x pt =>
      simp only [insideBounds, Release.membershipRectangle, ih (Nat.succ.inj h)]

theorem membershipRectangle_eq {bs : List (Outcome Err R × Outcome Err R)}
    (h : bs.length = pt.length) :
    membershipRectangle bs pt = Release.membershipRectangle bs pt := by
  rw [membershipRectangle, assert_bind, if_pos (decide_eq_true h.symm)]
  exact insideBounds_eq h

omit [Double R] in
/-- The rows of an evaluated matrix have the length of its columns. -/
theorem all_length_eq {A : List (List R)} (hne : A ≠ [])
    (hrows : ∀ row ∈ A, row.length = (A.headD []).length) (n : ℕ) :
    (A.all fun row => row.length = n) = decide ((Matrix.ofRows A).cols = n) := by
  rw [Bool.eq_iff_iff, List.all_eq_true]
  simp only [decide_eq_true_eq]
  obtain ⟨row, A, rfl⟩ := List.exists_cons_of_ne_nil hne
  exact ⟨fun h => h row (by simp), fun h row' hrow' => (hrows row' hrow').trans h⟩

omit [Double R] in
/-- The rows of an evaluated matrix have one length. -/
theorem rows_of_evalToMatrix {a : List (List (Outcome Err R))} {A : List (List R)}
    (h : evalToMatrix a = ok A) : ∀ row ∈ A, row.length = (A.headD []).length := by
  have hshape : (checkCapnpMatrix a).1 = false := by
    rw [evalToMatrix] at h
    split at h
    · exact absurd h (by simp)
    · next hfalse => simpa using hfalse
  have hA : (checkCapnpMatrix A).1 = false := by
    rw [checkCapnpMatrix] at hshape ⊢
    rwa [Release.lengths_of_evalToMatrix h]
  exact Release.length_of_checkCapnpMatrix hA

theorem membershipConvexPolytope_eq (a : List (List (Outcome Err R)))
    (b : List (Outcome Err R)) :
    membershipConvexPolytope a b pt = Release.membershipConvexPolytope .worst a b pt := by
  refine bind_congr_ok fun A hA => congrArg _ (funext fun bs => ?_)
  have hrows := rows_of_evalToMatrix hA
  rw [assert_bind, perform_bind, all_length_eq (ne_nil_of_evalToMatrix hA) hrows]
  refine if_congr Iff.rfl ?_ rfl
  have hfits : (EigenOp.allLe (A.map (dot · pt)) bs).fits = decide (A.length = bs.length) := by
    rw [← List.length_map (dot · pt)]
    rfl
  rw [assert_bind, ← hfits]
  exact (perform_worst _).symm

end Membership

/-! ### Projection -/

section Projection

variable {pt : List R}

theorem length_normalized (x : List R) : (normalized x).length = x.length := by
  rw [normalized]
  split
  · exact List.length_map _
  · rfl

theorem projBall_eq {xs : List (Outcome Err R)} (r : Outcome Err R) (h : xs.length = pt.length) :
    projBall xs r pt = Release.projBall .worst xs r pt := by
  rw [projBall, Release.projBall, membershipBall_eq r h]
  refine congrArg _ (funext fun inside => if_congr Iff.rfl rfl ?_)
  refine bind_congr_ok fun cent hcent => congrArg _ (funext fun r => ?_)
  have hlen : cent.length = pt.length := (collect_length hcent).trans h
  have hsub : (EigenOp.sub pt cent).fits = true := decide_eq_true hlen.symm
  have hvalue : (EigenOp.sub pt cent).value = vecSub pt cent := rfl
  have hdiff : (vecSub pt cent).length = cent.length := by
    rw [vecSub, List.length_zipWith, hlen, min_self]
  have hadd : (EigenOp.add cent (vecScale r (normalized (vecSub pt cent)))).fits = true := by
    refine decide_eq_true ?_
    rw [vecScale, List.length_map, length_normalized, hdiff]
  rw [perform_bind, if_pos hsub, hvalue]
  exact (perform_worst_of_fits hadd).symm

/-- The loop that leaves a coordinate unassigned. -/
theorem clampBounds_faulty (bs : List (Outcome Err R × Outcome Err R)) (pt : List R) :
    faulty.rel (clampBounds bs pt) (Release.projRectangle bs pt) := by
  have hlost : ∀ e, ¬ IsException e → ¬ Catchable (.throw e : Outcome Err (List R)) :=
    fun e he => not_catchable_throw he
  induction bs generalizing pt with
  | nil =>
    cases pt with
    | nil => exact faulty_refl _
    | cons x pt =>
      -- too few pairs: a coordinate is unassigned here, and read outside there
      exact .inr ⟨hlost _ fun h => h.2.2 rfl, hlost _ not_isException_outside⟩
  | cons b bs ih =>
    cases pt with
    | nil => exact faulty_refl _
    | cons x pt =>
      exact faulty.rel_bind (faulty_refl _) fun v => faulty.rel_bind (faulty_refl _) fun w =>
        faulty.rel_map (ih pt) _

theorem projHalfSpace_eq (hs : HalfSpace R) :
    (projHalfSpace hs : List R → Outcome Err (List R)) = Release.projHalfSpace .worst hs := by
  funext pt
  rw [projHalfSpace, Release.projHalfSpace, membershipHalfSpace, assert_bind, perform_bind]
  -- if the sizes differ, the assertion fails before Eigen is asked
  by_cases h : hs.a.length = pt.length
  · have hdot : (EigenOp.dot hs.a pt).fits = true := decide_eq_true h
    have hvalue : (EigenOp.dot hs.a pt).value = dot hs.a pt := rfl
    have hsub : (EigenOp.sub pt (vecScale (dot hs.a pt - hs.b)
        (hs.a.map (· / squaredNorm hs.a)))).fits = true := by
      refine decide_eq_true ?_
      rw [vecScale, List.length_map, List.length_map, h]
    rw [if_pos (decide_eq_true h), if_pos hdot, hvalue]
    exact if_congr Iff.rfl rfl (perform_worst_of_fits hsub).symm
  · have hdot : (EigenOp.dot hs.a pt).fits = false := decide_eq_false h
    rw [if_neg (by simpa using h), hdot]
    rfl

theorem dykstraSweep_eq (ps : List (List R → Outcome Err (List R))) (ys : List (List R))
    (x : List R) : dykstraSweep ps ys x = Release.dykstraSweep .worst ps ys x := by
  induction ps generalizing ys x with
  | nil => rfl
  | cons p ps ih =>
    cases ys with
    | nil => rfl
    | cons y ys =>
      rw [dykstraSweep, Release.dykstraSweep, assert_bind, perform_bind]
      refine if_congr Iff.rfl ?_ rfl
      show (p (vecAdd x y) >>= _) = p (vecAdd x y) >>= _
      refine bind_congr_ok fun x' _ => ?_
      rw [assert_bind, perform_bind]
      exact if_congr Iff.rfl (congrArg (· >>= _) (ih ys x')) rfl

/-- A sweep keeps the size of the point. -/
theorem length_dykstraSweep {ps : List (List R → Outcome Err (List R))} {ys : List (List R)}
    {x : List R} {xs ys' : List (List R)} (h : dykstraSweep ps ys x = ok (xs, ys')) :
    ∀ x' ∈ xs, x'.length = x.length := by
  induction ps generalizing ys x xs ys' with
  | nil =>
    obtain ⟨rfl, rfl⟩ := Prod.mk.inj (Outcome.ok.inj h)
    simp
  | cons p ps ih =>
    cases ys with
    | nil =>
      obtain ⟨rfl, rfl⟩ := Prod.mk.inj (Outcome.ok.inj h)
      simp
    | cons y ys =>
      -- both assertions of the step hold
      obtain ⟨u, hxy, h⟩ := bind_eq_ok.mp h
      obtain ⟨x', -, h⟩ := bind_eq_ok.mp h
      obtain ⟨u', hzx, h⟩ := bind_eq_ok.mp h
      obtain ⟨⟨xs', ys''⟩, hrest, h⟩ := bind_eq_ok.mp h
      obtain ⟨rfl, rfl⟩ := Prod.mk.inj (Outcome.ok.inj h)
      have hxy : x.length = y.length := of_decide_eq_true (assert_eq_ok hxy)
      have hzx : (vecAdd x y).length = x'.length := of_decide_eq_true (assert_eq_ok hzx)
      have hlen : x'.length = x.length := by
        rw [← hzx, vecAdd, List.length_zipWith, ← hxy, min_self]
      exact List.forall_mem_cons.mpr ⟨hlen, fun x'' hx'' => (ih hrest x'' hx'').trans hlen⟩

theorem dykstra_eq (ps : List (List R → Outcome Err (List R))) (pt : List R) :
    dykstraProjectionAlgorithm ps pt = Release.dykstraProjectionAlgorithm .worst ps pt := by
  have hloop : ∀ iter ys result,
      dykstraLoop ps iter ys result = Release.dykstraLoop .worst ps iter ys result := by
    intro iter
    induction iter with
    | zero => exact fun _ _ => rfl
    | succ iter ih =>
      intro ys result
      rw [dykstraLoop, Release.dykstraLoop, ← dykstraSweep_eq]
      refine bind_congr_ok fun swept hsweep => ?_
      obtain ⟨xs, ys'⟩ := swept
      -- the subtraction of two successive results fits
      have hfits : (EigenOp.sub (xs.getLast?.getD result) result).fits = true := by
        refine decide_eq_true ?_
        cases hlast : xs.getLast? with
        | none => rfl
        | some x => exact length_dykstraSweep hsweep x (List.mem_of_getLast? hlast)
      have hvalue : norm (EigenOp.sub (xs.getLast?.getD result) result).value
          = dist (xs.getLast?.getD result) result := rfl
      dsimp only
      rw [perform_bind, if_pos hfits, hvalue]
      exact if_congr Iff.rfl rfl (ih _ _)
  exact hloop _ _ _

omit [Double R] in
theorem halfSpaces_eq {a : List (List (Outcome Err R))} {b : List (Outcome Err R)}
    (h : a.length ≤ b.length) : halfSpaces a b = Release.halfSpaces a b := by
  induction a generalizing b with
  | nil => rfl
  | cons row a ih =>
    cases b with
    | nil => exact absurd h (Nat.not_succ_le_zero _)
    | cons bi b =>
      simp only [halfSpaces, Release.halfSpaces, ih (Nat.le_of_succ_le_succ h)]

/-- A membership test that returns has compared the number of bounds with that of the rows. -/
theorem length_of_membershipConvexPolytope {a : List (List (Outcome Err R))}
    {b : List (Outcome Err R)} {inside : Bool} (h : membershipConvexPolytope a b pt = ok inside) :
    a.length = b.length := by
  obtain ⟨A, hA, h⟩ := bind_eq_ok.mp h
  obtain ⟨bs, hbs, h⟩ := bind_eq_ok.mp h
  obtain ⟨u, -, h⟩ := bind_eq_ok.mp h
  obtain ⟨u', hassert, -⟩ := bind_eq_ok.mp h
  have hlen : A.length = bs.length := of_decide_eq_true (assert_eq_ok hassert)
  have hAlen : A.length = a.length := by
    simpa using collect_length (collect_of_evalToMatrix hA)
  rw [← hAlen, hlen, collect_length hbs]

theorem projConvexPolytope_eq (a : List (List (Outcome Err R))) (b : List (Outcome Err R)) :
    projConvexPolytope a b pt = Release.projConvexPolytope .worst a b pt := by
  rw [projConvexPolytope, Release.projConvexPolytope, ← membershipConvexPolytope_eq]
  refine bind_congr_ok fun inside hinside => if_congr Iff.rfl rfl ?_
  rw [halfSpaces_eq (length_of_membershipConvexPolytope hinside).le]
  refine congrArg _ (funext fun hss => ?_)
  rw [dykstra_eq, funext projHalfSpace_eq]

theorem projIntersection_eq (members : List (Outcome Err Bool))
    (ps : List (List R → Outcome Err (List R))) :
    projIntersection members ps pt = Release.projIntersection .worst members ps pt := by
  rw [projIntersection, Release.projIntersection, dykstra_eq]

end Projection

/-! ### Bounding boxes -/

section Box

variable {lp : LpSolver R}

theorem intersection_eq (a b : AlignedBox R) :
    (a.intersection b : Outcome Err (AlignedBox R))
      = (EigenOp.intersection a b).perform .worst := by
  rw [AlignedBox.intersection, assert_bind, assert_bind, perform_worst, EigenOp.fits]
  by_cases hmin : a.min.length = b.min.length
  · by_cases hmax : a.max.length = b.max.length
    · simp only [hmin, hmax, and_self, decide_true, if_true]
      rfl
    · simp only [hmin, hmax, and_false, decide_true, decide_false, if_true, Bool.false_eq_true,
        if_false]
      rfl
  · simp only [hmin, false_and, decide_false, Bool.false_eq_true, if_false]
    rfl

theorem commaInit_eq (rows cols : ℕ) (blocks : List (Matrix R)) :
    (commaInit rows cols blocks : Outcome Err (Matrix R))
      = (EigenOp.comma rows cols blocks).perform .worst := by
  rw [commaInit, assert_bind, assert_bind, perform_worst, EigenOp.fits]
  cases (blocks.filter Matrix.nonEmpty).all fun B => B.cols = cols <;> rfl

theorem commaInitVec_eq (size : ℕ) (blocks : List (List R)) :
    (commaInitVec size blocks : Outcome Err (List R))
      = (EigenOp.commaVec size blocks).perform .worst := by
  rw [commaInitVec, assert_bind, perform_worst]
  rfl

theorem position_eq {v : List R} {i : ℕ} (h : i < v.length) :
    (position v i : Outcome Err R) = ok (v.getD i 0) := by
  rw [position, List.getD_eq_getElem?_getD, List.getElem?_eq_getElem h]
  rfl

variable (htwo : ∀ {halves sol : List R} {x y : R}, lp halves [x, y] = ok sol → sol.length = 2)

include htwo

theorem computeAABB_eq (A : Matrix R) (b : List R) :
    (computeAABBConvexPolytope lp A b : Outcome Err (AlignedBox R))
      = Release.computeAABBConvexPolytope .worst lp A b := by
  rw [computeAABBConvexPolytope, Release.computeAABBConvexPolytope, perform_bind, assert_bind]
  have hvalue : ((EigenOp.halves A b).value.map normalized).flatten
      = (List.zipWith (fun row bi => normalized (row ++ [bi])) A.rows b).flatten :=
    congrArg List.flatten (List.map_zipWith ..)
  -- what is asserted is that the block of half-spaces fits
  by_cases h : A.cols = 2 ∧ A.rows.length = b.length
  · have hfits : (EigenOp.halves A b).fits = true := decide_eq_true h
    rw [if_pos (decide_eq_true h.1), assert_bind, if_pos (decide_eq_true h.2), if_pos hfits]
    dsimp only
    rw [hvalue]
    -- the solver is asked four times
    refine bind_congr_ok fun sol hsol => ?_
    rw [lift_self] at hsol
    rw [position_eq (htwo hsol ▸ Nat.two_pos), ok_bind]
    refine bind_congr_ok fun sol2 hsol2 => ?_
    rw [lift_self] at hsol2
    rw [position_eq (htwo hsol2 ▸ Nat.two_pos), ok_bind]
    refine bind_congr_ok fun sol3 hsol3 => ?_
    rw [lift_self] at hsol3
    rw [position_eq (htwo hsol3 ▸ Nat.one_lt_two), ok_bind]
    refine bind_congr_ok fun sol4 hsol4 => ?_
    rw [lift_self] at hsol4
    rw [position_eq (htwo hsol4 ▸ Nat.one_lt_two), ok_bind]
  · have hfits : (EigenOp.halves A b).fits = false := decide_eq_false h
    rw [hfits]
    by_cases hcols : A.cols = 2
    · rw [if_pos (decide_eq_true hcols), assert_bind,
        if_neg (by simpa using fun hrows => h ⟨hcols, hrows⟩)]
      rfl
    · rw [if_neg (by simpa using hcols)]
      rfl

omit htwo in
theorem mergeMembers_eq (st : Merged R) (members : List (Member R (Outcome Err))) :
    mergeMembers st members = Release.mergeMembers .worst st members := by
  have hmember : ∀ (st : Merged R) (x : Member R (Outcome Err)),
      mergeMember st x = Release.mergeMember .worst st x := by
    intro st x
    cases x with
    | convexPolytope a b =>
      rw [mergeMember, Release.mergeMember]
      refine congrArg _ (funext fun bs => congrArg _ (funext fun A => ?_))
      dsimp only
      cases st.poly with
      | none => rfl
      | some p =>
        dsimp only
        rw [commaInit_eq]
        simp only [commaInitVec_eq]
    | other hull =>
      rw [mergeMember, Release.mergeMember]
      refine congrArg _ (funext fun box => ?_)
      cases st.tempResult with
      | none => rfl
      | some temp =>
        dsimp only
        rw [intersection_eq]
  induction members generalizing st with
  | nil => rfl
  | cons x members ih => rw [mergeMembers, Release.mergeMembers, hmember, funext ih]

theorem hullIntersection_eq (members : List (Member R (Outcome Err))) :
    hullIntersection lp members = Release.hullIntersection .worst lp members := by
  rw [hullIntersection, intersectionSystem, Release.hullIntersection, mergeMembers_eq,
    Outcome.bind_assoc]
  refine congrArg _ (funext fun st => ?_)
  rw [Release.boundMerged]
  dsimp only
  cases st.poly with
  | none => rfl
  | some p =>
    dsimp only
    simp only [Outcome.bind_assoc, commaInit_eq, commaInitVec_eq, pure_eq, ok_bind,
      computeAABB_eq htwo]

theorem hullSetExpr_eq (env : Env R) (c : Calls R (Outcome Err))
    (rh : SetExpr R → Outcome Err (AlignedBox R)) (s : SetExpr R) :
    hullSetExpr env.self lp c rh s = Release.hullSetExpr .worst env.self lp c rh s := by
  refine congrArg _ (funext fun _ => ?_)
  cases s with
  | convexPolytope n a b =>
    show hullConvexPolytope _ _ _ = Release.hullConvexPolytope _ _ _ _
    rw [hullConvexPolytope, Release.hullConvexPolytope]
    refine congrArg _ (funext fun A => congrArg _ (funext fun bs => ?_))
    exact computeAABB_eq htwo _ _
  | intersection n ss => exact hullIntersection_eq htwo _
  | _ => rfl

end Box

/-! ### Methods -/

omit [Double R] in
/-- What the method of a task asserts before anything else: the sizes of a singleton and of a
rectangle for a membership test, and that of a ball for a projection, too. -/
def Task.asserted : Task R → Bool
  | .membership (.singleton _ as) pt => as.length = pt.length
  | .membership (.ball _ center _) pt => center.length = pt.length
  | .membership (.rectangle _ rect) pt => rect.length = pt.length
  | .proj (.ball _ center _) pt => center.length = pt.length
  | _ => true

section Methods

variable (env : Env R) (c : Calls R (Outcome Err)) (s : SetExpr R) (pt : List R)

/-- **`membership`**, where its assertion holds. -/
theorem membershipSetExpr_of_asserted (h : (Task.membership s pt).asserted = true) :
    membershipSetExpr env.self c s pt = Release.membershipSetExpr .worst env.self c s pt := by
  refine congrArg _ (funext fun _ => ?_)
  cases s with
  | singleton n as =>
    exact membershipSingleton_eq ((List.length_map _).trans (of_decide_eq_true h))
  | ball n center r =>
    exact membershipBall_eq _ ((List.length_map _).trans (of_decide_eq_true h))
  | rectangle n bs =>
    exact membershipRectangle_eq ((List.length_map _).trans (of_decide_eq_true h))
  | convexPolytope n a b => exact membershipConvexPolytope_eq _ _
  | _ => rfl

omit [Double R] in
theorem assert_of_ne {α : Type} {n k : ℕ} (h : decide (n = k) = false)
    (f : Unit → Outcome Err α) : (assert (decide (k = n)) >>= f) = .throw .assertion := by
  rw [assert_bind, if_neg]
  simpa using Ne.symm (of_decide_eq_false h)

/-- `membership`, where it does not. -/
theorem membershipSetExpr_of_not_asserted (h : (Task.membership s pt).asserted = false) :
    membershipSetExpr env.self c s pt = .throw .assertion := by
  cases s with
  | singleton n as => exact assert_of_ne ((List.length_map c.eval).symm ▸ h) _
  | ball n center r => exact assert_of_ne ((List.length_map c.eval).symm ▸ h) _
  | rectangle n bs =>
    have hlen : (bs.map fun b => (c.eval b.1, c.eval b.2)).length = bs.length := List.length_map _
    exact assert_of_ne (hlen.symm ▸ h) _
  | _ => exact absurd h (by simp [Task.asserted])

/-- A projection whose result is written to a vector of the size of the point. -/
theorem checked_eq (proj : List R → Outcome Err (List R)) (pt : List R) :
    Release.checked proj pt
      = (proj pt >>= fun res => assert (res.length = pt.length) >>= fun _ => pure res) := by
  refine congrArg _ (funext fun res => ?_)
  rw [assert_bind, perform_worst]
  rfl

variable (pr : SetExpr R → List R → Outcome Err (List R))

/-- **`proj`**, where its assertion holds, up to a coordinate that is never assigned. -/
theorem projSetExpr_of_asserted (h : (Task.proj s pt).asserted = true) :
    faulty.rel (projSetExpr env.self c pr s pt)
      (Release.projSetExpr .worst env.self c pr s pt) := by
  refine faulty.rel_bind (faulty_refl _) fun _ => ?_
  cases s with
  | ball n center r =>
    exact .inl (projBall_eq _ ((List.length_map _).trans (of_decide_eq_true h)))
  | rectangle n bs => exact clampBounds_faulty _ _
  | convexPolytope n a b => exact .inl (projConvexPolytope_eq _ _)
  | intersection n ss => exact .inl (projIntersection_eq _ _)
  | _ => exact faulty_refl _

/-- `proj`, where it does not. -/
theorem projSetExpr_of_not_asserted (h : (Task.proj s pt).asserted = false) :
    projSetExpr env.self c pr s pt = .throw .assertion := by
  cases s with
  | ball n center r =>
    -- the projection begins with a membership test, which asserts
    have hball : membershipBall (center.map c.eval) (c.eval r) pt = Outcome.throw Err.assertion :=
      assert_of_ne ((List.length_map c.eval).symm ▸ h) _
    show projBall (center.map c.eval) (c.eval r) pt = _
    rw [projBall, hball]
    rfl
  | _ => exact absurd h (by simp [Task.asserted])

end Methods

/-! ### The procedures of a build -/

namespace Env

variable (env : Env R) (asserts : Bool)

/-- The methods in a build with or without assertions, with the worst behaviour of Eigen. -/
def build : Procedures Err (Task R) Task.Result where
  body call t := if asserts && !t.asserted then raise .assertion else env.releaseBody call t
  rel_body S hstop _ _ h _ :=
    S.rel_ite (S.rel_raise _) (env.rel_releaseBody S hstop fun t' _ => h t')

omit asserts in
theorem build_false : env.build false = env.release := rfl

theorem build_invokes {t t' : Task R} (hcall : (env.build asserts).Invokes t t') :
    t.MayCall t' := by
  refine (env.build asserts).of_invokes (p := fun t' => t.MayCall t')
    (y := (env.build asserts).body (env.build asserts).sem t) ?_ hcall
  exact (Procedures.logsOnly _).rel_ite ((Procedures.logsOnly _).rel_raise _)
    (env.rel_releaseBody (Procedures.logsOnly fun t' => t.MayCall t')
      (Procedures.logsOnly_stop _) fun _ hmay => Procedures.logsOnly_logging _ hmay)

/-- A body on related calls. -/
theorem releaseBody_faulty {call call' : (t : Task R) → Outcome Err t.Result} {t : Task R}
    (h : ∀ t', t.MayCall t' → faulty.rel (call t') (call' t')) :
    faulty.rel (env.releaseBody call t) (env.releaseBody call' t) :=
  env.rel_releaseBody faulty (faulty_refl _) h

/-- The method of a task with assertions, with recursive calls up to depth `n`. -/
def methodAt (n : ℕ) : (t : Task R) → Outcome Err t.Result
  | .eval e => ((env.callsAt n).eval e : Outcome Err R)
  | .evalPartialDerivative x e => (evalPartialDerivative env.self x n e : Outcome Err R)
  | .membership s pt => ((env.callsAt n).membership s pt : Outcome Err Bool)
  | .proj s pt => (projPoint env.self n s pt : Outcome Err (List R))
  | .rectHull lp s => (rectHull env.self lp n s : Outcome Err (AlignedBox R))

/-- One level of the recursion. -/
theorem methodAt_succ {t : Task R} (ht : t.SolvesBy LpSolver.Sound) (n : ℕ) :
    faulty.rel (env.methodAt (n + 1) t) ((env.build true).body (env.methodAt n) t) := by
  -- either the assertion fails, or what follows it is the body without it
  have hfails : ∀ {x : Outcome Err t.Result}, t.asserted = false → x = .throw .assertion →
      faulty.rel x ((env.build true).body (env.methodAt n) t) := by
    rintro x h rfl
    refine .inl ?_
    show _ = if (true && !t.asserted) = true then _ else _
    rw [h]
    rfl
  have hholds : ∀ {x : Outcome Err t.Result}, t.asserted = true →
      faulty.rel x (env.releaseBody (env.methodAt n) t) →
      faulty.rel x ((env.build true).body (env.methodAt n) t) := by
    intro x h hx
    show faulty.rel x (if (true && !t.asserted) = true then _ else _)
    rwa [h]
  cases t with
  | eval e => exact faulty_refl _
  | evalPartialDerivative x e => exact faulty_refl _
  | membership s pt =>
    cases h : (Task.membership s pt).asserted with
    | false => exact hfails h (membershipSetExpr_of_not_asserted env _ s pt h)
    | true => exact hholds h (.inl (membershipSetExpr_of_asserted env _ s pt h))
  | proj s pt =>
    -- the recursive calls may be checked
    have hchecked : (fun s => Release.checked (proj env.self n s))
        = fun s pt => (env.methodAt n (.proj s pt) : Outcome Err (List R)) :=
      funext fun s => funext fun pt => checked_eq _ pt
    have hproj : env.methodAt (n + 1) (.proj s pt)
        = Release.checked (projSetExpr env.self (env.callsAt n) (proj env.self n) s) pt :=
      (checked_eq _ pt).symm
    rw [hproj]
    cases h : (Task.proj s pt).asserted with
    | false =>
      refine hfails h ?_
      rw [Release.checked, projSetExpr_of_not_asserted env _ s pt _ h]
      rfl
    | true =>
      refine hholds h ?_
      show faulty.rel _ (Release.checked (Release.projSetExpr .worst env.self
        (env.callsAt n) (fun s pt => (env.methodAt n (.proj s pt) : Outcome Err (List R))) s) pt)
      rw [← hchecked, Release.checked, Release.checked, Release.projSetExpr_checked]
      exact faulty.rel_bind (projSetExpr_of_asserted env _ s pt _ h) fun _ => faulty_refl _
  | rectHull lp s => exact .inl (hullSetExpr_eq ht.two env _ _ s)

/-- **The methods with assertions are the procedures**, up to how the process is lost. -/
theorem methodAt_faulty {t : Task R} (ht : t.SolvesBy LpSolver.Sound) (n : ℕ) :
    faulty.rel (env.methodAt n t) ((env.build true).run n t) := by
  induction n generalizing t with
  | zero => cases t <;> exact faulty_refl _
  | succ n ih =>
    refine faulty_trans (env.methodAt_succ ht n) ?_
    exact faulty.rel_ite (faulty_refl _) (env.releaseBody_faulty fun t' hmay =>
      ih (ht.of_mayCall hmay))

end Env

end Commelec
