/-
Commelec/PVBelief.lean

What a photovoltaic panel believes.

The belief function at `(P, Q)` is a rectangle, with `(P, Q)` in one corner.  In the other the
active power has dropped by `Pdelta`, but not below zero, and the reactive power is what the
power factor allows there.  The bound of the reactive power refers to the active one by its
name, so the advertisement has to be collected first (`pV_reference`).

* `pV_beliefFunction` — the test accepts the points of this rectangle, for all parameters;
* `dropped_between` — the points of all smaller drops are in it;
* `pV_belief_covers` — so they are accepted.
-/
import Commelec.AdvertisedSets

namespace Commelec

open Effectful Outcome

/-! ### The bounds -/

/-- The active power after a drop by `t`, which ends at zero. -/
noncomputable def droppedP (P t : ℝ) : ℝ := max 0 (P - t)

/-- The reactive power that is kept when the active power is `p`. -/
noncomputable def keptQ (tanPhi Q p : ℝ) : ℝ := SignType.sign Q * min |Q| (p * tanPhi)

/-- The expression that the panel's belief names `a`. -/
def namedBound (Pdelta : ℝ) : RealExpr ℝ :=
  .binaryOperation (some "a") .max (.real none 0)
    (.binaryOperation none .sum (.var none "P") (.real none (-Pdelta)))

/-- Following a reference takes one visit more. -/
theorem metered_reference {R : Type} [Double R] {boundVars : ValueMap R}
    {realExprRefs : RealExprRefMap R} {fuel : ℕ} {name : Option String} {ref : String}
    {e : RealExpr R} (href : realExprRefs ref = some e) {n : ℕ} {x : R}
    (he : Metered n x ((calls (methods boundVars realExprRefs) fuel).eval e)) :
    Metered (1 + n) x
      ((calls (methods boundVars realExprRefs) (fuel + 1)).eval (.reference name ref)) := by
  refine Metered.visit.bind ?_
  show Metered n x (evalRef (methods boundVars realExprRefs) _ ref)
  have hself : (methods boundVars realExprRefs).realExprRefs ref = some e := href
  rw [evalRef, derefReal, hself]
  exact he

section Bounds

variable {realExprRefs : RealExprRefMap ℝ} (P Q Pdelta tanPhi : ℝ) (fuel : ℕ)

theorem metered_namedBound :
    Metered 5 (droppedP P Pdelta)
      ((calls (methods (bindPQ P Q) realExprRefs) (fuel + 3)).eval (namedBound Pdelta)) := by
  have hmax : binaryFun .max = some fun x y : ℝ => max x y :=
    congrArg some (funext fun x => funext fun y => stdMax_real x y)
  have hsum : binaryFun .sum = some fun x y : ℝ => x + y := rfl
  show Metered (1 + (1 + (1 + (1 + 1)))) (max 0 (P + -Pdelta)) _
  refine metered_binary hmax (metered_real 0) ?_
  exact metered_binary hsum (metered_var (bindPQ_P P Q)) (metered_real (-Pdelta))

/-- The bound of the reactive power refers to the one of the active power. -/
theorem metered_keptQ (href : realExprRefs "a" = some (namedBound Pdelta)) :
    Metered 14 (keptQ tanPhi Q (droppedP P Pdelta))
      ((calls (methods (bindPQ P Q) realExprRefs) (fuel + 7)).eval
        (.binaryOperation none .prod (.unaryOperation none .sign (.var none "Q"))
          (.binaryOperation none .min (.unaryOperation none .abs (.var none "Q"))
            (.binaryOperation none .prod (.reference none "a") (.real none tanPhi))))) := by
  have hmin : binaryFun .min = some fun x y : ℝ => min x y :=
    congrArg some (funext fun x => funext fun y => stdMin_real x y)
  have hprod : binaryFun .prod = some fun x y : ℝ => x * y := rfl
  have habs : unaryFun .abs = some fun x : ℝ => |x| := rfl
  have hsign : unaryFun .sign = some fun x : ℝ => (SignType.sign x : ℝ) :=
    congrArg some (funext sgn_real)
  show Metered (1 + (1 + 1 + (1 + (1 + 1 + (1 + (1 + 5 + 1)))))) _ _
  refine metered_binary hprod (metered_unary hsign (metered_var (bindPQ_Q P Q))) ?_
  refine metered_binary hmin (metered_unary habs (metered_var (bindPQ_Q P Q))) ?_
  refine metered_binary hprod (metered_reference href ?_) (metered_real tanPhi)
  exact metered_namedBound P Q Pdelta fuel

end Bounds

/-! ### The test -/

/-- Once the advertisement is collected, the name `a` stands for the bound that carries it. -/
theorem pV_reference {built : Advertisement ℝ} {Pdelta tanPhi : ℝ}
    (hbelief : built.beliefFunction = some (pVBelief Pdelta tanPhi))
    (hcost : ∃ poly, built.costFunction = some (.polynomial none poly)) (af : AdvFunc ℝ) :
    (AdvFunc.collected built.nodes af).realExprRefs "a" = some (namedBound Pdelta) := by
  obtain ⟨poly, hcost⟩ := hcost
  show (AdvFunc.lastReal built.nodes "a").or _ = _
  have hnodes : AdvFunc.lastReal (built.beliefNodes ++ built.costNodes) "a"
      = some (namedBound Pdelta) := by
    rw [Advertisement.beliefNodes, Advertisement.costNodes, hbelief, hcost]
    rfl
  rw [Advertisement.nodes, AdvFunc.lastReal_append, hnodes]
  rfl

/-- **The belief of a photovoltaic panel** is a rectangle between the setpoint and the point
of the largest drop. -/
theorem pV_beliefFunction (Srated Pmax Pdelta tanPhi a_pv b_pv Pimp Qimp P Q : ℝ) :
    Advertises (pVAdvertisement Srated Pmax Pdelta tanPhi a_pv b_pv Pimp Qimp)
      Advertisement.beliefFunction (bindPQ P Q)
      fun p q => Between [(P, droppedP P Pdelta),
        (Q, keptQ tanPhi Q (droppedP P Pdelta))] [p, q] := by
  obtain ⟨built, hbuilt, hcollect, -, hbelief, hcost⟩ :=
    pVAdvertisement_built Srated Pmax Pdelta tanPhi a_pv b_pv Pimp Qimp
  have hnew := AdvFunc.setAdv_of_collectable hcollect AdvFunc.blank
  refine ⟨built, _, _, hbuilt, hnew, hbelief, fun p q => ?_⟩
  refine .of_tests (N := 1 + 2 * 14 * 2) (k := 8) rfl (fun fuel => ?_) (by decide)
  have hbudget {n : ℕ} {x : ℝ} {y : Method ℝ ℝ} (h : Metered n x y) (hn : n ≤ 14) :
      SpendsUpTo 14 x y := .of_spends (.of_metered h) hn
  have href := pV_reference hbelief hcost
    { AdvFunc.blank with adv := built, advValid := true }
  refine tests_rectangle (.cons ⟨?_, ?_⟩ (.cons ⟨?_, ?_⟩ .nil)) rfl
  · exact hbudget (metered_var (bindPQ_P P Q)) (by norm_num)
  · exact hbudget (metered_namedBound P Q Pdelta (fuel + 4)) (by norm_num)
  · exact hbudget (metered_var (bindPQ_Q P Q)) (by norm_num)
  · exact hbudget (metered_keptQ P Q Pdelta tanPhi fuel href) le_rfl

/-! ### The points of a drop -/

section Drop

variable {P Q Pdelta tanPhi t : ℝ}

/-- Without a drop the point is the setpoint. -/
theorem dropped_zero (hP : 0 ≤ P) (hQ : |Q| ≤ P * tanPhi) :
    droppedP P 0 = P ∧ keptQ tanPhi Q (droppedP P 0) = Q := by
  have hdrop : droppedP P 0 = P := by
    rw [droppedP, sub_zero, max_eq_right hP]
  refine ⟨hdrop, ?_⟩
  rw [hdrop, keptQ, min_eq_left hQ]
  exact sign_mul_abs Q

/-- A larger drop leaves less active power. -/
theorem droppedP_anti {s : ℝ} (h : s ≤ t) : droppedP P t ≤ droppedP P s := by
  apply max_le_max le_rfl
  linarith

/-- A product with a sign is between those with larger and smaller factors. -/
theorem sign_mul_between {x y z : ℝ} (hxy : x ≤ y) (hyz : y ≤ z) (Q : ℝ) :
    min (SignType.sign Q * z) (SignType.sign Q * x) ≤ SignType.sign Q * y ∧
      SignType.sign Q * y ≤ max (SignType.sign Q * z) (SignType.sign Q * x) := by
  rcases lt_trichotomy Q 0 with h | rfl | h
  · simp only [sign_neg h, SignType.coe_neg, SignType.coe_one, neg_one_mul]
    exact ⟨(min_le_left _ _).trans (neg_le_neg hyz), (neg_le_neg hxy).trans (le_max_right _ _)⟩
  · simp
  · simp only [sign_pos h, SignType.coe_one, one_mul]
    exact ⟨(min_le_right _ _).trans hxy, hyz.trans (le_max_left _ _)⟩

/-- **The points of all smaller drops are between the setpoint and the point of the largest
one.** -/
theorem dropped_between (hP : 0 ≤ P) (htan : 0 ≤ tanPhi) (hQ : |Q| ≤ P * tanPhi) (ht : 0 ≤ t)
    (htd : t ≤ Pdelta) :
    Between [(P, droppedP P Pdelta), (Q, keptQ tanPhi Q (droppedP P Pdelta))]
      [droppedP P t, keptQ tanPhi Q (droppedP P t)] := by
  obtain ⟨hP0, hQ0⟩ := dropped_zero hP hQ
  have hupper : droppedP P t ≤ P := (droppedP_anti ht).trans_eq hP0
  have hlower : droppedP P Pdelta ≤ droppedP P t := droppedP_anti htd
  rw [between_pair]
  refine ⟨⟨(min_le_right _ _).trans hlower, hupper.trans (le_max_left _ _)⟩, ?_⟩
  have hkept : min |Q| (droppedP P Pdelta * tanPhi) ≤ min |Q| (droppedP P t * tanPhi) :=
    min_le_min le_rfl (mul_le_mul_of_nonneg_right hlower htan)
  have hkept' : min |Q| (droppedP P t * tanPhi) ≤ min |Q| (droppedP P 0 * tanPhi) :=
    min_le_min le_rfl (mul_le_mul_of_nonneg_right (droppedP_anti ht) htan)
  -- `Q` is what is kept without a drop
  have hbetween := sign_mul_between hkept hkept' Q
  rw [← keptQ, ← keptQ, ← keptQ, hQ0] at hbetween
  exact hbetween

end Drop

/-- **The belief covers every admissible drop**: what is left after a drop of at most `Pdelta`
is accepted, and so is the setpoint itself. -/
theorem pV_belief_covers (Srated Pmax a_pv b_pv Pimp Qimp : ℝ) {Pdelta tanPhi P Q : ℝ}
    (hPdelta : 0 ≤ Pdelta) (htan : 0 ≤ tanPhi) (hP : 0 ≤ P) (hQ : |Q| ≤ P * tanPhi) :
    ∃ built af belief,
      pVAdvertisement Srated Pmax Pdelta tanPhi a_pv b_pv Pimp Qimp = ok built ∧
      AdvFunc.new built = (ok (), af) ∧ built.beliefFunction = some belief ∧
      (∀ t, 0 ≤ t → t ≤ Pdelta → AdvFunc.Ends (fun n => AdvFunc.testMembership n belief
        [max 0 (P - t), SignType.sign Q * min |Q| (max 0 (P - t) * tanPhi)] (bindPQ P Q)) af
        (ok true)) ∧
      AdvFunc.Ends (fun n => AdvFunc.testMembership n belief [P, Q] (bindPQ P Q)) af
        (ok true) := by
  obtain ⟨built, af, belief, hbuilt, hnew, hbelief, htests⟩ :=
    pV_beliefFunction Srated Pmax Pdelta tanPhi a_pv b_pv Pimp Qimp P Q
  have hdrop : ∀ t, 0 ≤ t → t ≤ Pdelta → AdvFunc.Ends (fun n => AdvFunc.testMembership n belief
      [droppedP P t, keptQ tanPhi Q (droppedP P t)] (bindPQ P Q)) af (ok true) := by
    intro t ht htd
    obtain ⟨b, hends, hb⟩ := htests (droppedP P t) (keptQ tanPhi Q (droppedP P t))
    obtain rfl : b = true := hb.mpr (dropped_between hP htan hQ ht htd)
    exact hends
  refine ⟨built, af, belief, hbuilt, hnew, hbelief, hdrop, ?_⟩
  have hsetpoint := hdrop 0 le_rfl hPdelta
  obtain ⟨hP0, hQ0⟩ := dropped_zero hP hQ
  rwa [hQ0, hP0] at hsetpoint

/-- A panel at `(3, 2)` that may lose 1 believes in `(3, 2)`. -/
theorem pV_belief_covers_sample :
    ∃ built af belief, pVAdvertisement 10 5 1 1 1 1 0 0 = ok built ∧
      AdvFunc.new built = (ok (), af) ∧ built.beliefFunction = some belief ∧
      (∀ t : ℝ, 0 ≤ t → t ≤ 1 → AdvFunc.Ends (fun n => AdvFunc.testMembership n belief
        [max 0 (3 - t), SignType.sign (2 : ℝ) * min |2| (max 0 (3 - t) * 1)] (bindPQ 3 2)) af
        (ok true)) ∧
      AdvFunc.Ends (fun n => AdvFunc.testMembership n belief [3, 2] (bindPQ 3 2)) af (ok true) :=
  pV_belief_covers 10 5 1 1 0 0 (by norm_num) (by norm_num) (by norm_num) (by norm_num)

end Commelec
