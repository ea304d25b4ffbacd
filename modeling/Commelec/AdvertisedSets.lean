/-
Commelec/AdvertisedSets.lean

What the sets in the advertisements of the high-level API mean.

A set of an advertisement is interpreted by building the advertisement, collecting its names
and testing membership.  For the disk, the polytopes and the rectangle around a setpoint each
has one lemma that says what the test answers and how many visits it makes at most
(`tests_disk`, `tests_polytope`, `tests_rectangle`); an intersection adds up those of its
members (`tests_intersection`).  So a test answers the documented inequalities, within the
budget of visits, for every parameter and every point (`advertised_sets`).
-/
import Commelec.BuilderMeaning
import Commelec.Hlapi
import Commelec.PolynomialRoundTrip
import Commelec.References
import Commelec.StoppingTest

namespace Commelec

open Effectful Outcome

/-- The test makes at most `N` visits, and answers whether `P` holds. -/
def Tests (N : ℕ) (P : Prop) (x : Method ℝ Bool) : Prop :=
  ∃ b, SpendsUpTo N b x ∧ (b = true ↔ P)

namespace Tests

variable {N K : ℕ} {P Q : Prop} {x : Method ℝ Bool}

theorem mono (h : Tests N P x) (hNK : N ≤ K) : Tests K P x := by
  obtain ⟨b, hx, hb⟩ := h
  exact ⟨b, hx.mono hNK, hb⟩

theorem congr (h : Tests N P x) (hPQ : P ↔ Q) : Tests N Q x := by
  obtain ⟨b, hx, hb⟩ := h
  exact ⟨b, hx, hb.trans hPQ⟩

end Tests

section Membership

variable {boundVars : ValueMap ℝ} {realExprRefs : RealExprRefMap ℝ} {fuel : ℕ}

/-- A membership test visits the set first. -/
theorem tests_set {set : SetExpr ℝ} {point : List ℝ} {N : ℕ} {P : Prop}
    (h : Tests N P
      (membershipSetExpr { methods boundVars realExprRefs with visitSet := pure () }
        (calls (methods boundVars realExprRefs) fuel) set point)) :
    Tests (1 + N) P
      ((calls (methods boundVars realExprRefs) (fuel + 1)).membership set point) := by
  obtain ⟨b, h, hb⟩ := h
  exact ⟨b, SpendsUpTo.bind (.of_spends .visitSet le_rfl) h, hb⟩

variable (boundVars realExprRefs fuel)

/-- The disk around the origin. -/
theorem tests_disk (r p q : ℝ) :
    Tests 4 (p ^ 2 + q ^ 2 ≤ r ^ 2)
      ((calls (methods boundVars realExprRefs) (fuel + 2)).membership (disk r) [p, q]) := by
  refine tests_set (N := 3) ⟨Double.le (squaredNorm (vecSub [0, 0] [p, q])) (r * r),
    .of_spends ?_ le_rfl, ?_⟩
  · show Spends 3 _ (membershipBall (([0, 0].map (RealExpr.real none)).map
      (calls (methods boundVars realExprRefs) (fuel + 1)).eval) _ [p, q])
    refine Spends.bind (n := 0) (k := 3) (.assert rfl) ?_
    refine Spends.bind (n := 2) (k := 1) (spends_reals [0, 0]) ?_
    exact Spends.bind (n := 1) (k := 0) (.of_metered (metered_real r)) (.pure _)
  · simp only [Double.le, squaredNorm, dot, vecSub, List.zipWith_cons_cons,
      List.zipWith_nil_left, List.sum_cons, List.sum_nil]
    ring_nf
    exact decide_eq_true_iff

/-- Rows of one length are a matrix. -/
theorem checkCapnpMatrix_ok {α : Type} {mx : List (List α)} {n : ℕ} (hne : mx ≠ [])
    (h : ∀ row ∈ mx, row.length = n) : (checkCapnpMatrix mx).1 = false := by
  have hsizes : mx.map List.length = List.replicate mx.length n := by
    rw [List.eq_replicate_iff]
    refine ⟨List.length_map _, fun k hk => ?_⟩
    obtain ⟨row, hrow, rfl⟩ := List.mem_map.mp hk
    exact h row hrow
  have hlen : mx.length ≠ 0 := by simpa using hne
  simp [checkCapnpMatrix, hsizes, List.replicate_dedup hlen]

/-- A polytope in the plane. -/
theorem tests_polytope {A : Matrix ℝ} {b : List ℝ} {set : SetExpr ℝ}
    (hset : (buildConvexPolytope A b : Outcome Err (SetExpr ℝ)) = ok set)
    (hne : A.rows ≠ []) (hrows : ∀ row ∈ A.rows, row.length = 2) (p q : ℝ) :
    Tests (1 + 3 * b.length) (List.Forall₂ (fun row bound => dot row [p, q] ≤ bound) A.rows b)
      ((calls (methods boundVars realExprRefs) (fuel + 2)).membership set [p, q]) := by
  obtain ⟨_, hassert, hset⟩ := bind_eq_ok.mp hset
  obtain rfl := Outcome.ok.inj hset
  -- the builder has checked that there is a bound for each row
  have hlen : A.rows.length = b.length := by simpa using assert_eq_ok hassert
  have hsum : (A.rows.map List.length).sum = 2 * b.length := by
    have hconst : A.rows.map List.length = A.rows.map fun _ => 2 := List.map_congr_left hrows
    rw [hconst, List.map_const', List.sum_replicate, hlen, smul_eq_mul, Nat.mul_comm]
  have hmatrix : (checkCapnpMatrix ((initFromEigenMatrix A).map (List.map
      (calls (methods boundVars realExprRefs) (fuel + 1)).eval))).1 = false := by
    apply checkCapnpMatrix_ok (n := 2)
    · simpa [initFromEigenMatrix] using hne
    · simpa [initFromEigenMatrix] using hrows
  refine tests_set ⟨allLe (A.rows.map (dot · [p, q])) b,
    .of_spends ?_ (n := 2 * b.length + b.length) (by omega), ?_⟩
  · show Spends _ _ (membershipConvexPolytope _ _ [p, q])
    refine Spends.bind (n := 2 * b.length) (k := b.length) (a := A.rows) ?_ ?_
    · rw [evalToMatrix_eq hmatrix, List.map_map, ← hsum]
      exact spends_matrix A.rows
    refine Spends.bind (n := b.length) (k := 0) (a := b) (spends_reals b) ?_
    refine Spends.bind (n := 0) (k := 0) (.assert (by simpa using hrows)) ?_
    exact Spends.bind (n := 0) (k := 0) (.assert (by simpa using hlen)) (.pure _)
  · rw [allLe_iff (by simpa using hlen), List.forall₂_map_left_iff]

variable {boundVars realExprRefs fuel}

/-- The loop over the members of an intersection. -/
theorem tests_members {N : ℕ} {members : List (Method ℝ Bool)} {Ps : List Prop}
    (h : List.Forall₂ (fun x P => Tests N P x) members Ps) :
    Tests (N * Ps.length) (Ps.Forall id) (membershipIntersection members) := by
  induction h with
  | nil => exact ⟨true, .pure true, by simp [List.Forall]⟩
  | @cons x P members Ps hx _ ih =>
    obtain ⟨b, hx, hb⟩ := hx
    obtain ⟨c, hmembers, hc⟩ := ih
    have hlen : N + N * Ps.length = N * (P :: Ps).length := by
      rw [List.length_cons, Nat.mul_add_one, Nat.add_comm]
    rw [membershipIntersection, ← hlen]
    refine ⟨b && c, SpendsUpTo.bind hx ?_, ?_⟩
    · cases b with
      | true => exact hmembers
      | false =>
        -- the members behind it are not visited
        exact .pure false
    · rw [Bool.and_eq_true, hb, hc, List.forall_cons, id_eq]

theorem tests_intersection {N : ℕ} {n : Option String} {sets : List (SetExpr ℝ)}
    {point : List ℝ} {Ps : List Prop}
    (h : List.Forall₂ (fun s P => Tests N P
      ((calls (methods boundVars realExprRefs) fuel).membership s point)) sets Ps) :
    Tests (1 + N * Ps.length) (Ps.Forall id)
      ((calls (methods boundVars realExprRefs) (fuel + 1)).membership (.intersection n sets)
        point) := by
  refine tests_set (tests_members ?_)
  rw [List.forall₂_map_left_iff]
  exact h

/-- The point is between the bounds in every coordinate. -/
def Between (vals : List (ℝ × ℝ)) (point : List ℝ) : Prop :=
  List.Forall₂ (fun v x => min v.1 v.2 ≤ x ∧ x ≤ max v.1 v.2) vals point

/-- The loop over the bounds of a rectangle. -/
theorem tests_insideBounds {N : ℕ} {rect : List (Method ℝ ℝ × Method ℝ ℝ)}
    {vals : List (ℝ × ℝ)} {point : List ℝ}
    (h : List.Forall₂ (fun x v => SpendsUpTo N v.1 x.1 ∧ SpendsUpTo N v.2 x.2) rect vals)
    (hlen : point.length = vals.length) :
    Tests (2 * N * vals.length) (Between vals point) (insideBounds rect point) := by
  induction h generalizing point with
  | nil =>
    obtain rfl : point = [] := List.length_eq_zero_iff.mp hlen
    exact ⟨true, .pure true, by simp [Between]⟩
  | @cons x v rect vals hx _ ih =>
    obtain ⟨y, point, rfl⟩ := List.exists_cons_of_length_eq_add_one hlen
    obtain ⟨b, hrest, hb⟩ := ih (by simpa using hlen)
    have hcost : N + (N + 2 * N * vals.length) = 2 * N * (v :: vals).length := by
      rw [List.length_cons]
      ring
    have hcons : Between (v :: vals) (y :: point)
        ↔ (min v.1 v.2 ≤ y ∧ y ≤ max v.1 v.2) ∧ Between vals point := List.forall₂_cons
    have hout : (Double.lt y (stdMin v.1 v.2) || Double.lt (stdMax v.1 v.2) y) = false
        ↔ min v.1 v.2 ≤ y ∧ y ≤ max v.1 v.2 := by
      rw [← Bool.not_eq_true, outOfBounds_real, not_not]
    rw [← hcost]
    refine ⟨!(Double.lt y (stdMin v.1 v.2) || Double.lt (stdMax v.1 v.2) y) && b,
      SpendsUpTo.bind hx.1 (SpendsUpTo.bind hx.2 ?_), ?_⟩
    · dsimp only
      split
      · next h =>
        -- the loop returns at the first coordinate that is outside
        rw [h]
        exact .pure false
      · next h =>
        rw [Bool.eq_false_of_not_eq_true h]
        exact hrest
    · rw [Bool.and_eq_true, Bool.not_eq_true', hout, hb, hcons]

/-- A rectangle, from the values of its bounds. -/
theorem tests_rectangle {N : ℕ} {n : Option String} {rect : List (RealExpr ℝ × RealExpr ℝ)}
    {vals : List (ℝ × ℝ)} {point : List ℝ}
    (h : List.Forall₂ (fun b v =>
      SpendsUpTo N v.1 ((calls (methods boundVars realExprRefs) fuel).eval b.1) ∧
        SpendsUpTo N v.2 ((calls (methods boundVars realExprRefs) fuel).eval b.2)) rect vals)
    (hlen : point.length = vals.length) :
    Tests (1 + 2 * N * vals.length) (Between vals point)
      ((calls (methods boundVars realExprRefs) (fuel + 1)).membership (.rectangle n rect)
        point) := by
  have hinside : List.Forall₂ (fun x v => SpendsUpTo N v.1 x.1 ∧ SpendsUpTo N v.2 x.2)
      (rect.map fun b => ((calls (methods boundVars realExprRefs) fuel).eval b.1,
        (calls (methods boundVars realExprRefs) fuel).eval b.2)) vals := by
    rw [List.forall₂_map_left_iff]
    exact h
  obtain ⟨b, hb, hiff⟩ := tests_insideBounds hinside hlen
  refine tests_set ⟨b, ?_, hiff⟩
  show SpendsUpTo _ _ (membershipRectangle (m := Method ℝ) (rect.map _) point)
  rw [membershipRectangle, ← Nat.zero_add (2 * N * vals.length)]
  refine SpendsUpTo.bind (.of_spends (.assert ?_) le_rfl) hb
  rw [List.length_map, h.length_eq]
  exact decide_eq_true hlen

end Membership

/-! ### From an advertisement to its tests -/

/-- The membership test ends, and accepts the point exactly if `P` holds. -/
def AdvFunc.Decides (af : AdvFunc ℝ) (bv : ValueMap ℝ) (set : SetExpr ℝ) (point : List ℝ)
    (P : Prop) : Prop :=
  ∃ b, AdvFunc.Ends (fun n => AdvFunc.testMembership n set point bv) af (ok b) ∧ (b = true ↔ P)

/-- The advertisement is built and can be interpreted, and the set that is one of its parts
accepts the points of the plane for which `P` holds. -/
def Advertises (adv : Outcome Err (Advertisement ℝ))
    (part : Advertisement ℝ → Option (SetExpr ℝ)) (bv : ValueMap ℝ) (P : ℝ → ℝ → Prop) : Prop :=
  ∃ built af set, adv = ok built ∧ AdvFunc.new built = (ok (), af) ∧ part built = some set ∧
    ∀ p q, af.Decides bv set [p, q] (P p q)

theorem AdvFunc.Decides.of_tests {af : AdvFunc ℝ} {bv : ValueMap ℝ} {set : SetExpr ℝ}
    {point : List ℝ} {P : Prop} {k N : ℕ} (hv : af.advValid = true)
    (h : ∀ fuel, Tests N P
      ((calls (methods bv af.realExprRefs) (fuel + k)).membership set point))
    (hN : N ≤ MAX_NESTING_DEPTH) : af.Decides bv set point P := by
  classical
  refine ⟨decide P, SpendsUpTo.ends (k := k) hv (fun fuel => ?_) hN, decide_eq_true_iff⟩
  obtain ⟨b, hb, hP⟩ := h fuel
  have hdecide : decide P = b := by rw [← hP, Bool.decide_eq_true]
  rw [hdecide]
  exact hb

/-! ### Cost functions can be built -/

/-- A polynomial of two terms, each a power of degree at most 2. -/
theorem fits_two {R : Type} {v w : PolyVar} {j k : ℤ} (hj : 0 ≤ j ∧ j ≤ 2)
    (hk : 0 ≤ k ∧ k ≤ 2) (c d : R) : (MonomialSum.mk [⟨c, [⟨v, j⟩]⟩, ⟨d, [⟨w, k⟩]⟩]).Fits := by
  have hdeg : (MonomialSum.mk [⟨c, [⟨v, j⟩]⟩, ⟨d, [⟨w, k⟩]⟩]).maxVarDegree = max j k := rfl
  refine ⟨?_, ?_, ?_, ?_⟩
  · simp [hj.1, hk.1]
  · simp
  · rw [hdeg]
    omega
  · rw [hdeg]
    calc (max j k + 1) ^ (MonomialSum.mk [⟨c, [⟨v, j⟩]⟩, ⟨d, [⟨w, k⟩]⟩]).vars.length
        ≤ 3 ^ (MonomialSum.mk [⟨c, [⟨v, j⟩]⟩, ⟨d, [⟨w, k⟩]⟩]).vars.length :=
          pow_le_pow_left₀ (by omega) (by omega) _
      _ ≤ 3 ^ 2 := pow_le_pow_right₀ (by norm_num) (MonomialSum.length_vars_le _)
      _ ≤ 2 ^ 31 := by norm_num

theorem normalizedCost_ok {R : Type} [Double R] (linear squared : R) :
    ∃ cf, (normalizedCost linear squared : Outcome Err (RealExpr R)) = ok cf ∧
      cf.nodes.length = 1 := by
  rw [normalizedCost]
  split
  · have hpoly := (fits_two (v := ⟨"P"⟩) (w := ⟨"P"⟩) (j := 2) (k := 1) (by norm_num)
      (by norm_num) (1 * Double.lit (1 / 2))
      (1 * (linear / (Double.lit 2 * squared)))).writable.buildPolynomial_eq
    refine ⟨.polynomial none _, congrArg (· >>= fun poly => ok (RealExpr.polynomial none poly))
      hpoly, rfl⟩
  · exact ⟨_, rfl, rfl⟩

theorem pVCost_ok {R : Type} [Double R] (a_pv b_pv : R) :
    ∃ poly : Polynomial R, (buildPolynomial (((PolyVar.mk "P").monomial.scale (-a_pv)).add
      (((PolyVar.mk "Q").pow 2).scale b_pv)) : Outcome Err (Polynomial R)) = ok poly :=
  ⟨_, (fits_two (v := ⟨"P"⟩) (w := ⟨"Q"⟩) (j := 1) (k := 2) (by norm_num) (by norm_num)
    (1 * -a_pv) (1 * b_pv)).writable.buildPolynomial_eq⟩

/-! ### The advertisements -/

/-- An advertisement that is built, and small enough to be collected. -/
theorem Advertises.intro {adv : Outcome Err (Advertisement ℝ)}
    {part : Advertisement ℝ → Option (SetExpr ℝ)} {bv : ValueMap ℝ} {P : ℝ → ℝ → Prop}
    {built : Advertisement ℝ} {set : SetExpr ℝ} (hadv : adv = ok built)
    (hcollect : built.Collectable) (hpart : part built = some set)
    (h : ∀ af : AdvFunc ℝ, af.advValid = true → ∀ p q, af.Decides bv set [p, q] (P p q)) :
    Advertises adv part bv P := by
  have hnew := AdvFunc.setAdv_of_collectable hcollect AdvFunc.blank
  exact ⟨built, _, set, hadv, hnew, hpart, h _ rfl⟩

theorem Advertises.congr {adv : Outcome Err (Advertisement ℝ)}
    {part : Advertisement ℝ → Option (SetExpr ℝ)} {bv : ValueMap ℝ} {P P' : ℝ → ℝ → Prop}
    (h : Advertises adv part bv P) (hP : ∀ p q, P p q ↔ P' p q) :
    Advertises adv part bv P' := by
  obtain ⟨built, af, set, hadv, hnew, hpart, h⟩ := h
  refine ⟨built, af, set, hadv, hnew, hpart, fun p q => ?_⟩
  obtain ⟨b, hends, hb⟩ := h p q
  exact ⟨b, hends, hb.trans (hP p q)⟩

/-- The PQ profile of a battery is the part of the disk between two vertical lines. -/
theorem battery_pQProfile (Pmin Pmax Srated coeffP coeffPsquared Pimp Qimp : ℝ)
    (bv : ValueMap ℝ) :
    Advertises (batteryAdvertisement Pmin Pmax Srated coeffP coeffPsquared Pimp Qimp)
      Advertisement.pQProfile bv
      fun p q => p ^ 2 + q ^ 2 ≤ Srated ^ 2 ∧ Pmin ≤ p ∧ p ≤ Pmax := by
  obtain ⟨cf, hcf, hnodes⟩ := normalizedCost_ok coeffP coeffPsquared
  let A : Matrix ℝ := ⟨2, [[1, 0], [-1, 0]]⟩
  let band : SetExpr ℝ :=
    .convexPolytope none (initFromEigenMatrix A) (initFromEigenVector [Pmax, -Pmin])
  have hbuilt := congrArg (· >>= fun cf => ok (Advertisement.mk
    (some (.intersection none [disk Srated, band]))
    (some (.singleton none [.var none "P", .var none "Q"])) (some cf) [Pimp, Qimp])) hcf
  refine .intro hbuilt ⟨?_, ?_, ?_⟩ rfl fun af hv p q => ?_
  · show 12 ≤ 10000
    norm_num
  · show 3 ≤ 10000
    norm_num
  · show cf.nodes.length ≤ 10000
    omega
  refine .of_tests (N := 1 + 7 * 2) (k := 3) hv (fun fuel => ?_) (by decide)
  have hset : (buildConvexPolytope A [Pmax, -Pmin] : Outcome Err (SetExpr ℝ)) = ok band := rfl
  have hband := tests_polytope bv af.realExprRefs fuel hset (by simp [A]) (by simp [A]) p q
  have hdisk := (tests_disk bv af.realExprRefs fuel Srated p q).mono (show 4 ≤ 7 by norm_num)
  refine (tests_intersection (.cons hdisk (.cons hband .nil))).congr ?_
  simp [A, dot, List.Forall, and_comm]

/-- The message for the rectangle that a photovoltaic panel believes in. -/
def pVBelief (Pdelta tanPhi : ℝ) : SetExpr ℝ :=
  .rectangle none
    [(.var none "P", .binaryOperation (some "a") .max (.real none 0)
        (.binaryOperation none .sum (.var none "P") (.real none (-Pdelta)))),
      (.var none "Q", .binaryOperation none .prod (.unaryOperation none .sign (.var none "Q"))
        (.binaryOperation none .min (.unaryOperation none .abs (.var none "Q"))
          (.binaryOperation none .prod (.reference none "a") (.real none tanPhi))))]

/-- The triangle of the PQ profile. -/
def pVTriangle (Pmax tanPhi : ℝ) : SetExpr ℝ :=
  .convexPolytope none (initFromEigenMatrix ⟨2, [[1, 0], [-tanPhi, 1], [-tanPhi, -1]]⟩)
    (initFromEigenVector [Pmax, 0, 0])

/-- The advertisement of a photovoltaic panel; it can be collected. -/
theorem pVAdvertisement_built (Srated Pmax Pdelta tanPhi a_pv b_pv Pimp Qimp : ℝ) :
    ∃ built : Advertisement ℝ,
      pVAdvertisement Srated Pmax Pdelta tanPhi a_pv b_pv Pimp Qimp = ok built ∧
      built.Collectable ∧
      built.pQProfile = some (.intersection none [pVTriangle Pmax tanPhi, disk Srated]) ∧
      built.beliefFunction = some (pVBelief Pdelta tanPhi) ∧
      ∃ poly, built.costFunction = some (.polynomial none poly) := by
  obtain ⟨poly, hpoly⟩ := pVCost_ok a_pv b_pv
  refine ⟨⟨some (.intersection none [pVTriangle Pmax tanPhi, disk Srated]),
    some (pVBelief Pdelta tanPhi), some (.polynomial none poly), [Pimp, Qimp]⟩, ?_, ⟨?_, ?_, ?_⟩,
    rfl, rfl, poly, rfl⟩
  · simp only [pVAdvertisement]
    rw [hpoly]
    rfl
  · show 15 ≤ 10000
    norm_num
  · show 17 ≤ 10000
    norm_num
  · show 1 ≤ 10000
    norm_num

/-- The PQ profile of a photovoltaic panel is the part of the disk in a triangle with a vertex
at the origin. -/
theorem pV_pQProfile (Srated Pmax Pdelta tanPhi a_pv b_pv Pimp Qimp : ℝ) (bv : ValueMap ℝ) :
    Advertises (pVAdvertisement Srated Pmax Pdelta tanPhi a_pv b_pv Pimp Qimp)
      Advertisement.pQProfile bv
      fun p q => p ^ 2 + q ^ 2 ≤ Srated ^ 2 ∧ p ≤ Pmax ∧ q ≤ tanPhi * p ∧ -q ≤ tanPhi * p := by
  obtain ⟨built, hbuilt, hcollect, hprofile, -⟩ :=
    pVAdvertisement_built Srated Pmax Pdelta tanPhi a_pv b_pv Pimp Qimp
  let A : Matrix ℝ := ⟨2, [[1, 0], [-tanPhi, 1], [-tanPhi, -1]]⟩
  refine .intro hbuilt hcollect hprofile fun af hv p q => ?_
  refine .of_tests (N := 1 + 10 * 2) (k := 3) hv (fun fuel => ?_) (by decide)
  have hset : (buildConvexPolytope A [Pmax, 0, 0] : Outcome Err (SetExpr ℝ))
    = ok (pVTriangle Pmax tanPhi) := rfl
  have htriangle := tests_polytope bv af.realExprRefs fuel hset (by simp [A]) (by simp [A]) p q
  have hdisk := (tests_disk bv af.realExprRefs fuel Srated p q).mono (show 4 ≤ 10 by norm_num)
  refine (tests_intersection (.cons htriangle (.cons hdisk .nil))).congr ?_
  simp [A, dot, List.Forall, and_comm]
  exact fun _ _ _ => neg_le

/-- The message for `v - d`. -/
def minus (v : String) (d : ℝ) : RealExpr ℝ :=
  .binaryOperation none .sum (.var none v) (.unaryOperation none .negate (.real none d))

/-- The message for `v + d`. -/
def plus (v : String) (d : ℝ) : RealExpr ℝ :=
  .binaryOperation none .sum (.var none v) (.real none d)

section Bounds

variable {boundVars : ValueMap ℝ} {realExprRefs : RealExprRefMap ℝ} {v : String} {x : ℝ}
  {fuel : ℕ}

theorem spends_minus (hv : boundVars v = some x) (d : ℝ) :
    SpendsUpTo 4 (x - d)
      ((calls (methods boundVars realExprRefs) (fuel + 4)).eval (minus v d)) := by
  have hneg : unaryFun .negate = some fun x : ℝ => -x := rfl
  have hsum : binaryFun .sum = some fun x y : ℝ => x + y := rfl
  have hvar : BuildsTo boundVars realExprRefs (.var v) (.var none v) 1 x := .var hv
  have hbuilt := BuildsTo.binaryOp hsum hvar (.unaryOp hneg (.real d))
  exact .of_spends (.of_metered (hbuilt.metered _ (by omega))) (by norm_num)

theorem spends_plus (hv : boundVars v = some x) (d : ℝ) :
    SpendsUpTo 4 (x + d)
      ((calls (methods boundVars realExprRefs) (fuel + 4)).eval (plus v d)) := by
  have hsum : binaryFun .sum = some fun x y : ℝ => x + y := rfl
  have hvar : BuildsTo boundVars realExprRefs (.var v) (.var none v) 1 x := .var hv
  have hbuilt := BuildsTo.binaryOp hsum hvar (.real d)
  exact .of_spends (.of_metered (hbuilt.metered _ (by omega))) (by norm_num)

variable (realExprRefs fuel)

/-- The rectangle around a setpoint. -/
theorem tests_around (P Q dPdown dPup dQdown dQup p q : ℝ) :
    Tests 17 (Between [(P - dPdown, P + dPup), (Q - dQdown, Q + dQup)] [p, q])
      ((calls (methods (bindPQ P Q) realExprRefs) (fuel + 5)).membership (.rectangle none
        [(minus "P" dPdown, plus "P" dPup), (minus "Q" dQdown, plus "Q" dQup)]) [p, q]) := by
  have hP : bindPQ P Q "P" = some P := rfl
  have hQ : bindPQ P Q "Q" = some Q := rfl
  refine (tests_rectangle (N := 4) ?_ ?_).mono ?_
  · exact .cons ⟨spends_minus hP dPdown, spends_plus hP dPup⟩
      (.cons ⟨spends_minus hQ dQdown, spends_plus hQ dQup⟩ .nil)
  · rfl
  · rfl

end Bounds

/-- The belief function of an uncontrollable resource: a rectangle around the setpoint, cut off
by the disk and by a vertical line. -/
theorem uncontrollableResource_beliefFunction (Pexp Qexp Srated dPup dPdown dQup dQdown Pimp
    Qimp : ℝ) {resType : ResourceType} (htype : resType ≠ .bidirectional) (Pgap P Q : ℝ) :
    Advertises (uncontrollableResource Pexp Qexp Srated dPup dPdown dQup dQdown Pimp Qimp
        resType Pgap) Advertisement.beliefFunction (bindPQ P Q)
      fun p q => Between [(P - dPdown, P + dPup), (Q - dQdown, Q + dQup)] [p, q] ∧
        p ^ 2 + q ^ 2 ≤ Srated ^ 2 ∧ (if resType = .load then 1 else -1) * p ≤ Pgap := by
  let A : Matrix ℝ := ⟨2, [[if resType = .load then 1 else -1, 0]]⟩
  let halfplane : SetExpr ℝ :=
    .convexPolytope none (initFromEigenMatrix A) (initFromEigenVector [Pgap])
  let rect : SetExpr ℝ := .rectangle none
    [(minus "P" dPdown, plus "P" dPup), (minus "Q" dQdown, plus "Q" dQup)]
  have hbuilt : uncontrollableResource Pexp Qexp Srated dPup dPdown dQup dQdown Pimp Qimp
      resType Pgap = ok ⟨some (.singleton none [.real none Pexp, .real none Qexp]),
        some (.intersection none [rect, disk Srated, halfplane]), some (.real none 0),
        [Pimp, Qimp]⟩ := by
    simp only [uncontrollableResource, if_pos htype]
    rfl
  refine .intro hbuilt ⟨?_, ?_, ?_⟩ rfl fun af hv p q => ?_
  · show 3 ≤ 10000
    norm_num
  · show 24 ≤ 10000
    norm_num
  · show 1 ≤ 10000
    norm_num
  -- the rectangle needs the most visits, at most 17, and the deepest recursion
  refine .of_tests (N := 1 + 17 * 3) (k := 6) hv (fun fuel => ?_) (by decide)
  have hset : (buildConvexPolytope A [Pgap] : Outcome Err (SetExpr ℝ)) = ok halfplane := rfl
  have hhalfplane := (tests_polytope (bindPQ P Q) af.realExprRefs (fuel + 3) hset (by simp [A])
    (by simp [A]) p q).mono (show 4 ≤ 17 by norm_num)
  have hdisk := (tests_disk (bindPQ P Q) af.realExprRefs (fuel + 3) Srated p q).mono
    (show 4 ≤ 17 by norm_num)
  have hrect := tests_around af.realExprRefs fuel P Q dPdown dPup dQdown dQup p q
  refine (tests_intersection (.cons hrect (.cons hdisk (.cons hhalfplane .nil)))).congr ?_
  simp [A, dot, List.Forall]

theorem between_pair {a a' b b' p q : ℝ} :
    Between [(a, a'), (b, b')] [p, q]
      ↔ (min a a' ≤ p ∧ p ≤ max a a') ∧ min b b' ≤ q ∧ q ≤ max b b' := by
  simp [Between]

/-- **The advertised sets** are what they are documented to be, for all parameters. -/
theorem advertised_sets :
    (∀ (Pmin Pmax Srated coeffP coeffPsquared Pimp Qimp : ℝ) (bv : ValueMap ℝ),
      Advertises (batteryAdvertisement Pmin Pmax Srated coeffP coeffPsquared Pimp Qimp)
        Advertisement.pQProfile bv
        fun p q => p ^ 2 + q ^ 2 ≤ Srated ^ 2 ∧ Pmin ≤ p ∧ p ≤ Pmax) ∧
    (∀ (Srated Pmax Pdelta tanPhi a_pv b_pv Pimp Qimp : ℝ) (bv : ValueMap ℝ),
      Advertises (pVAdvertisement Srated Pmax Pdelta tanPhi a_pv b_pv Pimp Qimp)
        Advertisement.pQProfile bv
        fun p q => p ^ 2 + q ^ 2 ≤ Srated ^ 2 ∧ p ≤ Pmax ∧ q ≤ tanPhi * p ∧ -q ≤ tanPhi * p) ∧
    (∀ Pexp Qexp Srated dPup dPdown dQup dQdown Pimp Qimp P Q : ℝ,
      Advertises (uncontrollableLoad Pexp Qexp Srated dPup dPdown dQup dQdown Pimp Qimp)
        Advertisement.beliefFunction (bindPQ P Q)
        fun p q => ((min (P - dPdown) (P + dPup) ≤ p ∧ p ≤ max (P - dPdown) (P + dPup)) ∧
          min (Q - dQdown) (Q + dQup) ≤ q ∧ q ≤ max (Q - dQdown) (Q + dQup)) ∧
          p ^ 2 + q ^ 2 ≤ Srated ^ 2 ∧ p ≤ 0) ∧
    (∀ Pexp Qexp Srated dPup dPdown dQup dQdown Pimp Qimp Pgap P Q : ℝ,
      Advertises (uncontrollableGenerator Pexp Qexp Srated dPup dPdown dQup dQdown Pimp Qimp Pgap)
        Advertisement.beliefFunction (bindPQ P Q)
        fun p q => ((min (P - dPdown) (P + dPup) ≤ p ∧ p ≤ max (P - dPdown) (P + dPup)) ∧
          min (Q - dQdown) (Q + dQup) ≤ q ∧ q ≤ max (Q - dQdown) (Q + dQup)) ∧
          p ^ 2 + q ^ 2 ≤ Srated ^ 2 ∧ -Pgap ≤ p) := by
  refine ⟨battery_pQProfile, pV_pQProfile, ?_, ?_⟩
  · intro Pexp Qexp Srated dPup dPdown dQup dQdown Pimp Qimp P Q
    have h := uncontrollableResource_beliefFunction Pexp Qexp Srated dPup dPdown dQup dQdown Pimp
      Qimp (show ResourceType.load ≠ .bidirectional by decide) 0 P Q
    refine h.congr fun p q => ?_
    rw [between_pair, if_pos rfl, one_mul]
  · intro Pexp Qexp Srated dPup dPdown dQup dQdown Pimp Qimp Pgap P Q
    have h := uncontrollableResource_beliefFunction Pexp Qexp Srated dPup dPdown dQup dQdown Pimp
      Qimp (show ResourceType.generator ≠ .bidirectional by decide) Pgap P Q
    refine h.congr fun p q => ?_
    rw [between_pair, if_neg (by decide), neg_one_mul, neg_le]

end Commelec
