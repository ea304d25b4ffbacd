/-
Commelec/CostPreference.lean

Which setpoints an advertised cost function prefers.

The builders for batteries and discrete devices are asked for the cost `squared * P^2 +
linear * P`, and divide it by `2 * squared` before they write it to the message.  A factor
changes no preference if it is positive; this one has the sign of `squared`.

* `normalizedCost_value` — the message evaluates to the quotient, over all scalars in which
  the reals are exact;
* `battery_costs`, `discreteDevice_costs` — so do the advertised cost functions, on every
  object;
* `cost_order_iff` — the order of two setpoints is the one asked for if `squared` is positive,
  or if the two have equal costs.
-/
import Commelec.RoundBelief

namespace Commelec

open Effectful Outcome

/-- The reals are exact among the extended reals. -/
theorem exact_coe : Exact Real.toEReal where
  zero := rfl
  one := rfl
  add x y := (EReal.coe_add x y).symm
  mul x y := (EReal.coe_mul x y).symm
  lit _ := rfl
  pow x k := by
    show ((((x : EReal).toReal ^ ((k : ℝ) : EReal).toReal : ℝ)) : EReal) = _
    rw [EReal.toReal_coe, EReal.toReal_coe, Real.rpow_natCast]

/-! ### The cost function that is written -/

/-- The cost that the caller asks for. -/
def requestedCost (linear squared P : ℝ) : ℝ := squared * P ^ 2 + linear * P

section Value

variable {R : Type} [Double R] {φ : ℝ → R}

/-- The polynomial that `normalizedCost` writes. -/
noncomputable def normalizedSum (linear squared : ℝ) : MonomialSum ℝ :=
  ⟨[⟨1 / 2, [⟨⟨"P"⟩, 2⟩]⟩, ⟨linear / (2 * squared), [⟨⟨"P"⟩, 1⟩]⟩]⟩

theorem normalizedSum_value {linear squared : ℝ} (h : squared ≠ 0) (ρ : String → ℝ) :
    (normalizedSum linear squared).value ρ
      = requestedCost linear squared (ρ "P") / (2 * squared) := by
  have htwo : Int.toNat 2 = 2 := rfl
  have hone : Int.toNat 1 = 1 := rfl
  simp only [MonomialSum.value, normalizedSum, requestedCost, List.map_cons, List.map_nil,
    List.sum_cons, List.sum_nil, List.prod_cons, List.prod_nil, htwo, hone]
  field_simp
  ring

/-- Any object evaluates the expression, with `P` and `Q` bound, to the cost of `P`. -/
def EvaluatesToCost (φ : ℝ → R) (cf : RealExpr R) (cost : ℝ → ℝ) : Prop :=
  ∀ af : AdvFunc R, af.advValid = true → ∀ P Q : ℝ,
    AdvFunc.Ends (fun n => AdvFunc.evaluate n cf (bindPQ (φ P) (φ Q))) af (ok (φ (cost P)))

/-- **The value of a normalised cost function.** -/
theorem normalizedCost_value (hφ : Exact φ) {linear squared : ℝ} (hne : squared ≠ 0)
    (hlarge : Double.lt (Double.lit (1 / 10 ^ 6)) (Double.abs (φ squared)) = true)
    (hdiv : φ linear / φ (2 * squared) = φ (linear / (2 * squared))) :
    ∃ cf, (normalizedCost (φ linear) (φ squared) : Outcome Err (RealExpr R)) = ok cf ∧
      EvaluatesToCost φ cf fun P => requestedCost linear squared P / (2 * squared) := by
  let s := normalizedSum linear squared
  have hhalf : (1 : R) * Double.lit (1 / 2) = φ (1 / 2) := by
    rw [hφ.lit, ← hφ.one, hφ.mul, one_mul]
    norm_num
  have hratio : (1 : R) * (φ linear / (Double.lit 2 * φ squared)) = φ (linear / (2 * squared)) := by
    rw [hφ.lit, hφ.mul, Rat.cast_ofNat, hdiv, ← hφ.one, hφ.mul, one_mul]
  have hfits : s.Fits := fits_two (by norm_num) (by norm_num) _ _
  have hbuilt : (buildPolynomial ((((PolyVar.mk "P").pow 2).scale (Double.lit (1 / 2))).add
      ((PolyVar.mk "P").monomial.scale (φ linear / (Double.lit 2 * φ squared))))
        : Outcome Err (Polynomial R)) = ok (s.map φ).encoded := by
    show buildPolynomial (MonomialSum.mk [⟨1 * _, _⟩, ⟨1 * _, _⟩]) = _
    rw [hhalf, hratio]
    exact (fits_two (by norm_num) (by norm_num) _ _).writable.buildPolynomial_eq
  refine ⟨.polynomial none (s.map φ).encoded, ?_, ?_⟩
  · rw [normalizedCost, if_pos hlarge]
    exact congrArg (· >>= fun poly => ok (RealExpr.polynomial none poly)) hbuilt
  · intro af hv P Q
    -- the only variable is `P`
    have hvars : ∀ v ∈ s.vars, bindPQ (φ P) (φ Q) v = some (φ ((bindPQ P Q v).getD 0)) := by
      intro v hv
      have hP : "P" = v := by simpa [s, normalizedSum] using s.mem_vars.mp hv
      rw [← hP]
      rfl
    have heval := hfits.legible.evalPolynomial_eq hφ hvars
    rw [normalizedSum_value hne] at heval
    refine SpendsUpTo.ends (N := 1) (k := 1) hv (fun fuel => ?_) (by decide)
    exact .of_spends (.of_metered (metered_polynomial heval)) le_rfl

end Value

/-! ### The advertised cost functions -/

/-- The cost function of the advertisement evaluates to `cost`. -/
def AdvertisesCost {R : Type} [Double R] (φ : ℝ → R) (adv : Outcome Err (Advertisement R))
    (cost : ℝ → ℝ) : Prop :=
  ∃ built cf, adv = ok built ∧ built.costFunction = some cf ∧ EvaluatesToCost φ cf cost

section Advertisements

variable {linear squared : ℝ} (hlarge : 1 / 10 ^ 6 < |squared|)

include hlarge

theorem squared_ne_zero : squared ≠ 0 := by
  rintro rfl
  rw [abs_zero] at hlarge
  norm_num at hlarge

/-- Batteries. -/
theorem battery_costs (Pmin Pmax Srated Pimp Qimp : ℝ) :
    AdvertisesCost id (batteryAdvertisement Pmin Pmax Srated linear squared Pimp Qimp)
      fun P => requestedCost linear squared P / (2 * squared) := by
  have hlarge' : Double.lt (Double.lit (1 / 10 ^ 6)) (Double.abs (id squared)) = true := by
    simpa using hlarge
  obtain ⟨cf, hcf, hvalue⟩ :=
    normalizedCost_value exact_id (squared_ne_zero hlarge) hlarge' rfl
  exact ⟨_, cf, congrArg (· >>= fun cf => ok (Advertisement.mk
    (some (.intersection none [disk Srated, _])) _ (some cf) [Pimp, Qimp])) hcf, rfl, hvalue⟩

/-- Discrete devices, of any belief policy. -/
theorem discreteDevice_costs {makeBelief : Outcome Err (SetExpr EReal)} {bf : SetExpr EReal}
    (hbf : makeBelief = ok bf) (Pmin Pmax Pimp Qimp : ℝ) :
    AdvertisesCost Real.toEReal (makeAdvertisement makeBelief (Pmin : EReal) Pmax squared linear
      Pimp Qimp) fun P => requestedCost linear squared P / (2 * squared) := by
  have hlarge' : Double.lt (Double.lit (1 / 10 ^ 6)) (Double.abs (squared : EReal)) = true := by
    have habs : Double.abs (squared : EReal) = ((|squared| : ℝ) : EReal) :=
      extend_coe abs ⊤ ⊤ squared
    rw [habs]
    apply decide_eq_true
    apply EReal.coe_lt_coe_iff.mpr
    simpa using hlarge
  have hdiv : (linear : EReal) / ((2 * squared : ℝ) : EReal)
      = ((linear / (2 * squared) : ℝ) : EReal) := (EReal.coe_div _ _).symm
  obtain ⟨cf, hcf, hvalue⟩ :=
    normalizedCost_value exact_coe (squared_ne_zero hlarge) hlarge' hdiv
  refine ⟨⟨some (.rectangle none
    [(.real none Pmin, .real none Pmax), (.real none 0, .real none 0)]), some bf, some cf,
    [(Pimp : EReal), Qimp]⟩, cf, ?_, rfl, hvalue⟩
  rw [makeAdvertisement, hbf, ok_bind, hcf, ok_bind]
  rfl

end Advertisements

/-! ### Preferences -/

/-- A quotient keeps the order of two numbers if the divisor is positive or they are equal. -/
theorem div_order_iff {a x y : ℝ} (ha : a ≠ 0) :
    ((x / (2 * a) ≤ y / (2 * a)) ↔ x ≤ y) ↔ 0 < a ∨ x = y := by
  rcases lt_or_gt_of_ne ha with h | h
  · have hneg : 2 * a < 0 := by linarith
    rw [div_le_div_right_of_neg hneg, or_iff_right h.not_gt]
    constructor
    · intro hiff
      rcases le_total x y with hxy | hyx
      · exact le_antisymm hxy (hiff.mpr hxy)
      · exact le_antisymm (hiff.mp hyx) hyx
    · rintro rfl
      rfl
  · have hpos : 0 < 2 * a := by linarith
    exact iff_of_true (div_le_div_iff_of_pos_right hpos) (Or.inl h)

/-- The advertised cost function orders two active powers as the cost that the caller asked for,
if and only if they satisfy `T`. -/
def OrdersIff {R : Type} [Double R] (φ : ℝ → R) (adv : Outcome Err (Advertisement R))
    (linear squared : ℝ) (T : ℝ → ℝ → Prop) : Prop :=
  ∃ cost, AdvertisesCost φ adv cost ∧ ∀ P₁ P₂,
    ((cost P₁ ≤ cost P₂ ↔ requestedCost linear squared P₁ ≤ requestedCost linear squared P₂) ↔
      T P₁ P₂)

/-- The quadratic coefficient is positive, or the two cost the same. -/
def KeepsOrder (linear squared P₁ P₂ : ℝ) : Prop :=
  0 < squared ∨ requestedCost linear squared P₁ = requestedCost linear squared P₂

/-- **When a cost function keeps the order of preference**: if its quadratic coefficient is
positive, or if the two setpoints cost the same. -/
theorem cost_order_iff {linear squared : ℝ} (hlarge : 1 / 10 ^ 6 < |squared|) :
    (∀ Pmin Pmax Srated Pimp Qimp : ℝ, OrdersIff id
      (batteryAdvertisement Pmin Pmax Srated linear squared Pimp Qimp)
      linear squared (KeepsOrder linear squared)) ∧
    (∀ (Pmin Pmax : ℝ) (points : List ℝ) (error Pimp Qimp : ℝ), points ≠ [] →
      OrdersIff Real.toEReal (realDiscreteDeviceAdvertisement ⊤ Pmin Pmax
        (points.map Real.toEReal) error squared linear Pimp Qimp)
        linear squared (KeepsOrder linear squared)) ∧
    (∀ Pmin Pmax stepSize error Pimp Qimp : ℝ, OrdersIff Real.toEReal
      (uniformRealDiscreteDeviceAdvertisement ⊤ Pmin Pmax stepSize error squared linear Pimp Qimp)
      linear squared (KeepsOrder linear squared)) ∧
    (∀ Pmin Pmax stepSize error Pimp Qimp : ℝ, OrdersIff Real.toEReal
      (zenoneAdvertisement ⊤ Pmin Pmax stepSize error squared linear Pimp Qimp)
      linear squared (KeepsOrder linear squared)) := by
  have horder (P₁ P₂ : ℝ) := div_order_iff (x := requestedCost linear squared P₁)
    (y := requestedCost linear squared P₂) (squared_ne_zero hlarge)
  refine ⟨?_, ?_, ?_, ?_⟩
  · intro Pmin Pmax Srated Pimp Qimp
    exact ⟨_, battery_costs hlarge Pmin Pmax Srated Pimp Qimp, horder⟩
  · intro Pmin Pmax points error Pimp Qimp hne
    have hbelief : ∃ bf, (ProjBelief.makeBelief ⊤ (points.map Real.toEReal) (error : EReal)
        : Outcome Err (SetExpr EReal)) = ok bf := by
      have hlen : ((points.map Real.toEReal).mergeSort Double.le).length ≠ 0 := by
        simpa using hne
      rw [ProjBelief.makeBelief, if_neg hlen]
      exact ⟨_, rfl⟩
    obtain ⟨bf, hbf⟩ := hbelief
    exact ⟨_, discreteDevice_costs hlarge hbf Pmin Pmax Pimp Qimp, horder⟩
  · intro Pmin Pmax stepSize error Pimp Qimp
    exact ⟨_, discreteDevice_costs hlarge rfl Pmin Pmax Pimp Qimp, horder⟩
  · intro Pmin Pmax stepSize error Pimp Qimp
    exact ⟨_, discreteDevice_costs hlarge rfl Pmin Pmax Pimp Qimp, horder⟩

/-- A battery with the cost `-P^2 + P`. -/
theorem cost_order_iff_sample : OrdersIff id (batteryAdvertisement (-1) 1 1 1 (-1) 0 0)
    1 (-1) (KeepsOrder 1 (-1)) := by
  have hlarge : (1 : ℝ) / 10 ^ 6 < |-1| := by
    norm_num
  exact (cost_order_iff hlarge).1 (-1) 1 1 0 0

/-- **A negative coefficient reverses the order**: the cost `-P^2` of 0 is higher than that of 1,
and the advertised one is lower. -/
theorem cost_order_reversed :
    ∃ cost, AdvertisesCost id (batteryAdvertisement (-1) 1 1 0 (-1) 0 0) cost ∧
      cost 0 ≤ cost 1 ∧ ¬ requestedCost 0 (-1) 0 ≤ requestedCost 0 (-1) 1 := by
  have hlarge : (1 : ℝ) / 10 ^ 6 < |-1| := by
    norm_num
  refine ⟨_, battery_costs hlarge (-1) 1 1 0 0, ?_, ?_⟩
  · norm_num [requestedCost]
  · norm_num [requestedCost]

end Commelec
