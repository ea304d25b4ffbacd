/-
Commelec/DiscreteBelief.lean

What a discrete device believes.

The belief function sends `(P, Q)` to the single point `(s, Q)`, where `s` is a point of the list
that is nearest to `P - error`.  The message says this with overlapping intervals, one for each
point of the sorted list: the interpreter tries them in this order, and the first one that
contains `P` ends at the middle between its point and the next, shifted by the error
(`ProjBelief.cases`).

* `nearestIn x points` — the point that the intervals select, for a sorted list;
* `spends_cases` — the case distinction evaluates to it, at three visits a case;
* `belief_nearest` — the rectangular hull of the advertised belief is that point.

The intervals have infinite bounds, so the scalars are the extended reals.
-/
import Mathlib.Data.EReal.Inv
import Commelec.AdvertisedSets

namespace Commelec

open Effectful Outcome

/-! ### Extended reals -/

/-- A function of the finite numbers, with its values at the infinities. -/
noncomputable def extend (f : ℝ → ℝ) (bot top x : EReal) : EReal :=
  if x = ⊥ then bot else if x = ⊤ then top else f x.toReal

theorem extend_coe (f : ℝ → ℝ) (bot top : EReal) (x : ℝ) :
    extend f bot top (x : EReal) = ((f x : ℝ) : EReal) := by
  rw [extend, if_neg (EReal.coe_ne_bot x), if_neg (EReal.coe_ne_top x), EReal.toReal_coe]

/-- Where a function has no limit at an infinity, or a sum or product is not defined, the value
is a default. -/
noncomputable instance : Double EReal where
  lit q := ((q : ℝ) : EReal)
  lt x y := decide (x < y)
  le x y := decide (x ≤ y)
  exp := extend Real.exp 0 ⊤
  sin := extend Real.sin 0 0
  cos := extend Real.cos 0 0
  tan := extend Real.tan 0 0
  sqrt := extend Real.sqrt 0 ⊤
  log10 := extend (fun x => Real.log x / Real.log 10) 0 ⊤
  log := extend Real.log 0 ⊤
  round := extend roundHalfAway ⊥ ⊤
  floor := extend (fun x => ⌊x⌋) ⊥ ⊤
  ceil := extend (fun x => ⌈x⌉) ⊥ ⊤
  abs := extend abs ⊤ ⊤
  pow x y := ((x.toReal ^ y.toReal : ℝ) : EReal)
  fmod x y := ((truncatedRemainder x.toReal y.toReal : ℝ) : EReal)
  log10e := ((1 / Real.log 10 : ℝ) : EReal)
  dummyPrecision := ((1 / 10 ^ 12 : ℝ) : EReal)
  callOrder := .unspecified

/-! ### Points of a sorted list -/

section Nearest

variable {K : Type} [Field K] [LinearOrder K] [IsStrictOrderedRing K]

/-- The first point that is at least as near to `x` as the next one. -/
def nearestIn (x : K) : List K → K
  | [] => 0
  | [p] => p
  | p :: q :: points => if x ≤ (p + q) / 2 then p else nearestIn x (q :: points)

/-- The first point of a sorted list is at least as near as any other, if it is as near as the
second one. -/
theorem first_nearest {x p q s : K} (hpq : p ≤ q) (hx : x ≤ (p + q) / 2) (hs : q ≤ s) :
    |p - x| ≤ |s - x| := by
  have hmid : x ≤ q := by linarith
  rw [abs_of_nonneg (show 0 ≤ s - x by linarith), abs_le]
  constructor
  · linarith
  · linarith

/-- The second point of a sorted list is nearer than the first, beyond their middle. -/
theorem second_nearest {x p q : K} (hpq : p ≤ q) (hx : (p + q) / 2 < x) :
    |q - x| ≤ |p - x| := by
  rw [abs_sub_comm p x, abs_of_nonneg (show 0 ≤ x - p by linarith), abs_le]
  constructor
  · linarith
  · linarith

/-- **The point selected from a sorted list is nearest.** -/
theorem nearestIn_spec (x : K) {points : List K} (hne : points ≠ [])
    (hsorted : points.Pairwise (· ≤ ·)) :
    nearestIn x points ∈ points ∧ ∀ s ∈ points, |nearestIn x points - x| ≤ |s - x| := by
  induction points with
  | nil => exact absurd rfl hne
  | cons p points ih =>
    obtain ⟨hp, hrest⟩ := List.pairwise_cons.mp hsorted
    obtain - | ⟨q, points⟩ := points
    · simp [nearestIn]
    have hpq : p ≤ q := hp q List.mem_cons_self
    obtain ⟨hmem, hnear⟩ := ih (by simp) hrest
    rw [nearestIn]
    -- up to the middle of the first two points it is the first one, beyond it one of the rest
    split
    · next hx =>
      refine ⟨List.mem_cons_self, fun s hs => ?_⟩
      rcases List.mem_cons.mp hs with rfl | hs
      · exact le_rfl
      rcases List.mem_cons.mp hs with rfl | hs
      · exact first_nearest hpq hx le_rfl
      · exact first_nearest hpq hx ((List.pairwise_cons.mp hrest).1 s hs)
    · next hx =>
      refine ⟨List.mem_cons_of_mem _ hmem, fun s hs => ?_⟩
      rcases List.mem_cons.mp hs with rfl | hs
      · exact (hnear q List.mem_cons_self).trans (second_nearest hpq (not_le.mp hx))
      · exact hnear s hs

end Nearest

/-! ### The intervals -/

section Intervals

/-- The end of an interval that is not the last one. -/
theorem boundary_eq (p q error : ℝ) :
    ((p : EReal) + q) / Double.lit 2 + error = (((p + q) / 2 + error : ℝ) : EReal) := by
  have htwo : (Double.lit 2 : EReal) = ((2 : ℝ) : EReal) := by
    show (((2 : ℚ) : ℝ) : EReal) = _
    norm_num
  rw [htwo, EReal.coe_add, EReal.coe_div, EReal.coe_add]

theorem cases_cons (error p q : ℝ) (points : List ℝ) :
    ProjBelief.cases (error : EReal) ⊤ ((p :: q :: points).map Real.toEReal)
      = addCase (p : EReal) (-⊤) (((p + q) / 2 + error : ℝ) : EReal)
        :: ProjBelief.cases (error : EReal) ⊤ ((q :: points).map Real.toEReal) := by
  rw [List.map_cons, List.map_cons, ProjBelief.cases, boundary_eq]

variable (boundVars : ValueMap EReal) (realExprRefs : RealExprRefMap EReal) (fuel : ℕ)

/-- An interval, with its bounds in either order. -/
theorem spends_between (a b P : EReal) :
    Spends 3 (decide (min a b ≤ P ∧ P ≤ max a b))
      ((calls (methods boundVars realExprRefs) (fuel + 2)).membership
        (.rectangle none [(.real none a, .real none b)]) [P]) := by
  refine Spends.bind (n := 1) (k := 2) .visitSet ?_
  refine Spends.bind (n := 0) (k := 2) (.assert rfl) ?_
  refine Spends.bind (n := 1) (k := 1) (.of_metered (metered_real a)) ?_
  refine Spends.bind (n := 1) (k := 0) (.of_metered (metered_real b)) ?_
  have hmin : stdMin a b = min a b := by
    rw [min_comm, min_def_lt]
    simp [stdMin, Double.lt]
  have hmax : stdMax a b = max a b := by
    rw [max_def_lt]
    simp [stdMax, Double.lt]
  dsimp only
  rw [hmin, hmax]
  by_cases hP : min a b ≤ P ∧ P ≤ max a b
  · have hin : (Double.lt P (min a b) || Double.lt (max a b) P) = false := by
      simp only [Double.lt, not_lt.mpr hP.1, not_lt.mpr hP.2, decide_false, Bool.or_self]
    rw [hin, decide_eq_true hP]
    exact .pure true
  · have hout : (Double.lt P (min a b) || Double.lt (max a b) P) = true := by
      rw [not_and_or, not_le, not_le] at hP
      simpa only [Double.lt, Bool.or_eq_true, decide_eq_true_eq] using hP
    rw [hout, decide_eq_false hP]
    exact .pure false

/-- An interval without lower bound. -/
theorem spends_interval (b P : EReal) :
    Spends 3 (decide (P ≤ b)) ((calls (methods boundVars realExprRefs) (fuel + 2)).membership
      (.rectangle none [(.real none (-⊤), .real none b)]) [P]) := by
  have h := spends_between boundVars realExprRefs fuel (-⊤) b P
  simpa only [EReal.neg_top, bot_le, min_eq_left, max_eq_right, true_and] using h

/-- An interval without upper bound. -/
theorem spends_fromBound (a P : EReal) :
    Spends 3 (decide (a ≤ P)) ((calls (methods boundVars realExprRefs) (fuel + 2)).membership
      (.rectangle none [(.real none a, .real none ⊤)]) [P]) := by
  have h := spends_between boundVars realExprRefs fuel a ⊤ P
  simpa only [le_top, min_eq_left, max_eq_right, and_true] using h

/-- **The case distinction** selects the nearest point. -/
theorem spends_cases (error P : ℝ) {points : List ℝ} (hne : points ≠ []) :
    SpendsUpTo (3 * points.length + 1) ((nearestIn (P - error) points : ℝ) : EReal)
      (firstCase ((ProjBelief.cases (error : EReal) ⊤ (points.map Real.toEReal)).map fun c =>
        ((calls (methods boundVars realExprRefs) (fuel + 2)).membership c.1 [(P : EReal)],
          (calls (methods boundVars realExprRefs) (fuel + 2)).eval c.2))) := by
  induction points with
  | nil => exact absurd rfl hne
  | cons p points ih =>
    have hvalue : ∀ x : EReal, SpendsUpTo 1 x
        ((calls (methods boundVars realExprRefs) (fuel + 2)).eval (.real none x)) :=
      fun x => .of_spends (.of_metered (metered_real x)) le_rfl
    obtain - | ⟨q, points⟩ := points
    · -- the last interval has no end
      have hinterval := spends_interval boundVars realExprRefs fuel ⊤ (P : EReal)
      rw [decide_eq_true le_top] at hinterval
      exact SpendsUpTo.bind (.of_spends hinterval le_rfl) (hvalue p)
    · have hinterval := spends_interval boundVars realExprRefs fuel
        (((p + q) / 2 + error : ℝ) : EReal) (P : EReal)
      have hshift : (P : EReal) ≤ (((p + q) / 2 + error : ℝ) : EReal)
          ↔ P - error ≤ (p + q) / 2 := by
        rw [EReal.coe_le_coe_iff, sub_le_iff_le_add]
      have hcost : 3 + (3 * (q :: points).length + 1) = 3 * (p :: q :: points).length + 1 := by
        simp only [List.length_cons]
        ring
      have hrest := ih (by simp)
      -- the first interval ends at the middle, and the cases behind it are those of the rest
      rw [cases_cons, nearestIn, ← hcost]
      by_cases hx : P - error ≤ (p + q) / 2
      · rw [decide_eq_true (hshift.mpr hx)] at hinterval
        rw [if_pos hx]
        exact SpendsUpTo.bind (.of_spends hinterval le_rfl) ((hvalue p).mono (by omega))
      · rw [decide_eq_false fun h => hx (hshift.mp h)] at hinterval
        rw [if_neg hx]
        exact SpendsUpTo.bind (.of_spends hinterval le_rfl) hrest

/-- The belief of a device with these points, in increasing order. -/
noncomputable def beliefOf (error : ℝ) (points : List ℝ) : SetExpr EReal :=
  .singleton none [.caseDistinction none ["P"]
    (ProjBelief.cases (error : EReal) ⊤ (points.map Real.toEReal)), .var none "Q"]

variable {realExprRefs fuel}

/-- The hull of a point whose active power is given by cases. -/
theorem spends_casesHull (lp : LpSolver EReal) {P Q x : EReal} {N : ℕ}
    {cases : List (SetExpr EReal × RealExpr EReal)}
    (hcases : SpendsUpTo N x (firstCase (cases.map fun c =>
      ((calls (methods (bindPQ P Q) realExprRefs) fuel).membership c.1 [P],
        (calls (methods (bindPQ P Q) realExprRefs) fuel).eval c.2)))) :
    SpendsUpTo (N + 3) ⟨[x, Q], [x, Q]⟩
      (rectHull (methods (bindPQ P Q) realExprRefs) lp (fuel + 2)
        (.singleton none [.caseDistinction none ["P"] cases, .var none "Q"])) := by
  have heval : SpendsUpTo (1 + N) x
      ((calls (methods (bindPQ P Q) realExprRefs) (fuel + 1)).eval
        (.caseDistinction none ["P"] cases)) := by
    refine SpendsUpTo.bind (.of_spends .visit le_rfl) ?_
    show SpendsUpTo _ _ (firstCase (List.map _ (List.map _ _)))
    rw [List.map_map]
    exact hcases
  have hvar : SpendsUpTo 1 Q
      ((calls (methods (bindPQ P Q) realExprRefs) (fuel + 1)).eval (.var none "Q")) :=
    .of_spends (.of_metered (metered_var rfl)) le_rfl
  have hvector : SpendsUpTo (1 + N + (1 + (0 + 0) + 0)) [x, Q]
      (evalToVector ([.caseDistinction none ["P"] cases, .var none "Q"].map
        (calls (methods (bindPQ P Q) realExprRefs) (fuel + 1)).eval)) :=
    SpendsUpTo.bind heval (SpendsUpTo.bind (a := [Q])
      (SpendsUpTo.bind hvar (SpendsUpTo.bind (.pure []) (.pure _))) (.pure _))
  have hhull := SpendsUpTo.bind (K := 0) hvector (f := fun p => pure (AlignedBox.mk p p))
    (.pure _)
  have hvisit : SpendsUpTo 1 () (methods (bindPQ P Q) realExprRefs).visit :=
    .of_spends .visit le_rfl
  refine SpendsUpTo.mono (SpendsUpTo.bind hvisit hhull) ?_
  omega

variable (realExprRefs fuel)

/-- The hull of the belief. -/
theorem spends_hull (lp : LpSolver EReal) (error P Q : ℝ) {points : List ℝ} (hne : points ≠ []) :
    SpendsUpTo (3 * points.length + 4)
      ⟨[((nearestIn (P - error) points : ℝ) : EReal), Q],
        [((nearestIn (P - error) points : ℝ) : EReal), Q]⟩
      (rectHull (methods (bindPQ (P : EReal) Q) realExprRefs) lp (fuel + 4)
        (beliefOf error points)) :=
  spends_casesHull lp (spends_cases (bindPQ (P : EReal) Q) realExprRefs fuel error P hne)

end Intervals

/-! ### The advertisement -/

theorem length_caseNodes (error : EReal) (points : List EReal) :
    (realCaseNodes (ProjBelief.cases error ⊤ points)).length = 4 * points.length := by
  induction points with
  | nil => rfl
  | cons p points ih =>
    obtain - | ⟨q, points⟩ := points
    · rfl
    · rw [ProjBelief.cases]
      show (realCaseNodes _).length + 4 = _
      rw [ih]
      rfl

theorem length_beliefOf (error : ℝ) (points : List ℝ) :
    (beliefOf error points).nodes.length = 4 * points.length + 3 := by
  have hcases := length_caseNodes (error : EReal) (points.map Real.toEReal)
  show (Node.set _ :: ((Node.real _ :: realCaseNodes (ProjBelief.cases (error : EReal) ⊤
    (points.map Real.toEReal))) ++ [Node.real _])).length = _
  rw [List.length_cons, List.length_append, List.length_cons, hcases, List.length_map,
    List.length_singleton]

/-- Sorting the points as extended reals. -/
theorem exists_sorted (points : List ℝ) : ∃ sorted : List ℝ, sorted.Perm points ∧
    sorted.Pairwise (· ≤ ·) ∧
    (points.map Real.toEReal).mergeSort Double.le = sorted.map Real.toEReal := by
  refine ⟨points.mergeSort (fun p q => decide (p ≤ q)), List.mergeSort_perm _ _, ?_, ?_⟩
  · have htrans : ∀ p q r : ℝ, decide (p ≤ q) = true → decide (q ≤ r) = true →
        decide (p ≤ r) = true := by
      simpa using fun _ _ _ => le_trans
    have htotal : ∀ p q : ℝ, (decide (p ≤ q) || decide (q ≤ p)) = true := by
      simpa using le_total
    simpa using List.pairwise_mergeSort htrans htotal points
  · symm
    apply List.map_mergeSort
    intro p _ q _
    simp [Double.le]

/-- The advertisement of a discrete device; one with 2499 points can be collected. -/
theorem discreteDevice_built {points : List ℝ} (hne : points ≠ [])
    (error Pmin Pmax alpha beta Pimp Qimp : ℝ) :
    ∃ (built : Advertisement EReal) (sorted : List ℝ),
      (realDiscreteDeviceAdvertisement ⊤ Pmin Pmax (points.map Real.toEReal) error alpha beta Pimp
        Qimp : Outcome Err (Advertisement EReal)) = ok built ∧
      built.beliefFunction = some (beliefOf error sorted) ∧ sorted.Perm points ∧
      sorted.Pairwise (· ≤ ·) ∧
      (built.Collectable ↔ 4 * points.length + 3 ≤ MAX_NESTING_DEPTH) := by
  obtain ⟨sorted, hperm, hsorted, hsort⟩ := exists_sorted points
  obtain ⟨cf, hcf, hnodes⟩ := normalizedCost_ok (beta : EReal) alpha
  have hlen : sorted.length ≠ 0 := by
    rw [hperm.length_eq]
    exact List.length_eq_zero_iff.not.mpr hne
  have hbelief : (ProjBelief.makeBelief ⊤ (points.map Real.toEReal) (error : EReal)
      : Outcome Err (SetExpr EReal)) = ok (beliefOf error sorted) := by
    rw [ProjBelief.makeBelief, hsort, List.length_map, if_neg hlen]
    rfl
  refine ⟨⟨some (.rectangle none
      [(.real none Pmin, .real none Pmax), (.real none 0, .real none 0)]),
    some (beliefOf error sorted), some cf, [(Pimp : EReal), Qimp]⟩, sorted, ?_, rfl, hperm,
    hsorted, ?_⟩
  · rw [realDiscreteDeviceAdvertisement, makeAdvertisement, hbelief, ok_bind, hcf, ok_bind]
    rfl
  · rw [← hperm.length_eq, ← length_beliefOf error sorted]
    -- the belief is the largest part
    refine ⟨fun h => h.2.1, fun h => ⟨?_, h, ?_⟩⟩
    · show 5 ≤ 10000
      norm_num
    · show cf.nodes.length ≤ 10000
      omega

/-- **A discrete device believes in the nearest implementable setpoint.** -/
theorem belief_nearest {points : List ℝ} (hne : points ≠ [])
    (error Pmin Pmax alpha beta Pimp Qimp : ℝ) (lp : LpSolver EReal) :
    ∃ built belief, (realDiscreteDeviceAdvertisement ⊤ Pmin Pmax (points.map Real.toEReal) error
        alpha beta Pimp Qimp : Outcome Err (Advertisement EReal)) = ok built ∧
      built.beliefFunction = some belief ∧
      ∀ af, AdvFunc.new built = (ok (), af) → ∀ P Q : ℝ,
        ∃ s ∈ points, (∀ s' ∈ points, |s - (P - error)| ≤ |s' - (P - error)|) ∧
          AdvFunc.Ends (fun n => AdvFunc.rectangularHull lp n belief (bindPQ (P : EReal) Q)) af
            (ok ⟨[(s : EReal), Q], [(s : EReal), Q]⟩) := by
  obtain ⟨built, sorted, hbuilt, hbelief, hperm, hsorted, hsize⟩ :=
    discreteDevice_built hne error Pmin Pmax alpha beta Pimp Qimp
  have hsortedNe : sorted ≠ [] := by
    rintro rfl
    exact hne hperm.symm.eq_nil
  refine ⟨built, _, hbuilt, hbelief, fun af hnew P Q => ?_⟩
  obtain ⟨hmem, hnear⟩ := nearestIn_spec (P - error) hsortedNe hsorted
  refine ⟨_, hperm.mem_iff.mp hmem, fun s' hs' => hnear s' (hperm.mem_iff.mpr hs'), ?_⟩
  -- the advertisement could be collected, so its belief is small enough
  have hcollect := AdvFunc.collectable_of_setAdv (congrArg Prod.fst hnew)
  have hnodes := hsize.mp hcollect
  rw [← hperm.length_eq] at hnodes
  have hpos := List.length_pos_of_ne_nil hsortedNe
  have haf : af = AdvFunc.collected _ _ :=
    congrArg Prod.snd (hnew.symm.trans (AdvFunc.setAdv_of_collectable hcollect _))
  have hv : af.advValid = true := by
    rw [haf]
    rfl
  exact SpendsUpTo.ends (k := 4) hv (fun fuel => spends_hull _ fuel lp error P Q hsortedNe)
    (by omega)

/-- Of the points 3 and 1, the one nearest to 0 is 1. -/
theorem belief_nearest_sample :
    ∃ (built : Advertisement EReal) (belief : SetExpr EReal) (af : AdvFunc EReal),
      (realDiscreteDeviceAdvertisement ⊤ ((1 : ℝ) : EReal) ((3 : ℝ) : EReal)
        ([3, 1].map Real.toEReal) ((0 : ℝ) : EReal) ((0 : ℝ) : EReal) ((0 : ℝ) : EReal)
        ((0 : ℝ) : EReal) ((0 : ℝ) : EReal) : Outcome Err (Advertisement EReal)) = ok built ∧
      built.beliefFunction = some belief ∧ AdvFunc.new built = (ok (), af) ∧
      AdvFunc.Ends (fun n => AdvFunc.rectangularHull (fun _ c => ok c) n belief
        (bindPQ ((0 : ℝ) : EReal) ((5 : ℝ) : EReal))) af
        (ok ⟨[((1 : ℝ) : EReal), ((5 : ℝ) : EReal)], [((1 : ℝ) : EReal), ((5 : ℝ) : EReal)]⟩) := by
  have hne : [(3 : ℝ), 1] ≠ [] := by simp
  obtain ⟨built, belief, hbuilt, hbelief, h⟩ := belief_nearest hne 0 1 3 0 0 0 0 fun _ c => ok c
  obtain ⟨built', _, hbuilt', -, -, -, hsize⟩ := discreteDevice_built hne 0 1 3 0 0 0 0
  obtain rfl : built = built' := Outcome.ok.inj (hbuilt.symm.trans hbuilt')
  have hcollect : built.Collectable := hsize.mpr (by norm_num [MAX_NESTING_DEPTH])
  have hnew := AdvFunc.setAdv_of_collectable hcollect AdvFunc.blank
  obtain ⟨s, hs, hnear, hends⟩ := h _ hnew 0 5
  have h1 := hnear 1 (by simp)
  obtain rfl | rfl : s = 3 ∨ s = 1 := by simpa using hs
  · norm_num at h1
  · exact ⟨built, belief, _, hbuilt, hbelief, hnew, hends⟩

end Commelec
