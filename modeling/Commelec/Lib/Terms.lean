/-
Commelec/Lib/Terms.lean

Sums of terms.  A term is a pair of exponents and a coefficient, and the terms of a list
need not have different exponents.  The library names nothing of the program it is used
for.

* `value L ρ` — the value of the sum at the point `ρ`;
* `formal L` — the coefficient of every exponent, like terms collected.

Over an infinite domain two lists have the same values exactly when their coefficients
agree (`value_eq_iff`).  Storing terms may change their exponents: a format that can
hold the exponents in `S` only is a map onto `S` that leaves `S` alone.  What is stored
has the values of the sum exactly when all coefficients outside `S` cancel
(`value_map_eq_iff`).
-/
import Mathlib.Algebra.MvPolynomial.Funext

namespace Terms

variable {σ K : Type*}

/-- The coefficients, like terms collected. -/
noncomputable def formal [AddCommMonoid K] (L : List ((σ →₀ ℕ) × K)) : (σ →₀ ℕ) →₀ K :=
  (L.map fun t => Finsupp.single t.1 t.2).sum

/-- The value of the sum at the point `ρ`. -/
noncomputable def value [CommSemiring K] (L : List ((σ →₀ ℕ) × K)) (ρ : σ → K) : K :=
  (L.map fun t => t.2 * t.1.prod fun v k => ρ v ^ k).sum

/-! ### Collecting terms -/

section Formal

variable [AddCommMonoid K]

@[simp] theorem formal_nil : formal ([] : List ((σ →₀ ℕ) × K)) = 0 := rfl

@[simp] theorem formal_cons (t : (σ →₀ ℕ) × K) (L : List ((σ →₀ ℕ) × K)) :
    formal (t :: L) = Finsupp.single t.1 t.2 + formal L := by
  rw [formal, List.map_cons, List.sum_cons, formal]

/-- A coefficient is the sum over the like terms. -/
theorem formal_map_apply {α : Type*} {f : α → σ →₀ ℕ} (c : α → K) {e : σ →₀ ℕ}
    {like : α → Prop} [DecidablePred like] {L : List α} (h : ∀ t ∈ L, like t ↔ f t = e) :
    formal (L.map fun t => (f t, c t)) e = ((L.filter fun t => like t).map c).sum := by
  classical
  induction L with
  | nil => rfl
  | cons t L ih =>
    rw [List.map_cons, formal_cons, Finsupp.add_apply, ih fun u hu => h u (by simp [hu]),
      Finsupp.single_apply]
    by_cases ht : like t
    · rw [if_pos ((h t (by simp)).mp ht), List.filter_cons_of_pos (by simpa using ht),
        List.map_cons, List.sum_cons]
    · rw [if_neg fun he => ht ((h t (by simp)).mpr he),
        List.filter_cons_of_neg (by simpa using ht), zero_add]

/-- Changing the exponents. -/
theorem formal_map (G : (σ →₀ ℕ) → σ →₀ ℕ) (L : List ((σ →₀ ℕ) × K)) :
    formal (L.map (Prod.map G id)) = (formal L).mapDomain G := by
  induction L with
  | nil => simp
  | cons t L ih =>
    rw [List.map_cons, formal_cons, formal_cons, Finsupp.mapDomain_add,
      Finsupp.mapDomain_single, ih]
    rfl

end Formal

/-! ### Values and coefficients -/

section Value

variable [CommRing K]

theorem eval_sum_monomial (L : List ((σ →₀ ℕ) × K)) (ρ : σ → K) :
    MvPolynomial.eval ρ (L.map fun t => MvPolynomial.monomial t.1 t.2).sum = value L ρ := by
  simp [value, map_list_sum, List.map_map, Function.comp_def, MvPolynomial.eval_monomial]

theorem coeff_sum_monomial (L : List ((σ →₀ ℕ) × K)) (e : σ →₀ ℕ) :
    MvPolynomial.coeff e (L.map fun t => MvPolynomial.monomial t.1 t.2).sum
      = formal L e := by
  classical
  induction L with
  | nil => simp
  | cons t L ih =>
    rw [List.map_cons, List.sum_cons, MvPolynomial.coeff_add, ih, formal_cons,
      Finsupp.add_apply, MvPolynomial.coeff_monomial, Finsupp.single_apply]

/-- Like terms may be collected. -/
theorem value_congr {L L' : List ((σ →₀ ℕ) × K)} (h : formal L = formal L') (ρ : σ → K) :
    value L ρ = value L' ρ := by
  rw [← eval_sum_monomial, ← eval_sum_monomial]
  congr 1
  apply MvPolynomial.ext
  intro e
  rw [coeff_sum_monomial, coeff_sum_monomial, h]

/-- **Values determine the coefficients.** -/
theorem value_eq_iff [IsDomain K] [Infinite K] {L L' : List ((σ →₀ ℕ) × K)} :
    (∀ ρ, value L ρ = value L' ρ) ↔ formal L = formal L' := by
  constructor
  · intro h
    have hpoly : (L.map fun t => MvPolynomial.monomial t.1 t.2).sum
        = (L'.map fun t => MvPolynomial.monomial t.1 t.2).sum := by
      apply MvPolynomial.funext
      intro ρ
      rw [eval_sum_monomial, eval_sum_monomial, h ρ]
    ext e
    rw [← coeff_sum_monomial, hpoly, coeff_sum_monomial]
  · intro h ρ
    exact value_congr h ρ

/-- At the point where all variables are one, only the coefficients count. -/
theorem value_one (L : List ((σ →₀ ℕ) × K)) :
    value L (fun _ => 1) = (L.map Prod.snd).sum := by
  refine congrArg List.sum (List.map_congr_left fun t _ => ?_)
  simp [Finsupp.prod]

variable {S : Set (σ →₀ ℕ)} {G : (σ →₀ ℕ) → σ →₀ ℕ}

/-- Where the coefficients outside `S` cancel, a map that leaves `S` alone changes
nothing. -/
theorem value_map_of_cancel (hfix : ∀ e ∈ S, G e = e) {L : List ((σ →₀ ℕ) × K)}
    (h : ∀ e ∉ S, formal L e = 0) (ρ : σ → K) :
    value (L.map (Prod.map G id)) ρ = value L ρ := by
  apply value_congr
  have hid : ∀ e ∈ (formal L).support, G e = id e := by
    intro e he
    apply hfix
    by_contra hS
    exact Finsupp.mem_support_iff.mp he (h e hS)
  rw [formal_map, Finsupp.mapDomain_congr hid, Finsupp.mapDomain_id]

/-- **Storing a sum and adding a term.**  What is stored in `S` has the values of the sum
and `x` times one more monomial exactly when `x` is zero and all coefficients outside `S`
cancel. -/
theorem value_map_eq_iff [IsDomain K] [Infinite K] (hS : ∀ e, G e ∈ S)
    (hfix : ∀ e ∈ S, G e = e) (L : List ((σ →₀ ℕ) × K)) (e₀ : σ →₀ ℕ) (x : K) :
    (∀ ρ, value (L.map (Prod.map G id)) ρ = value L ρ + x * e₀.prod fun v k => ρ v ^ k)
      ↔ x = 0 ∧ ∀ e ∉ S, formal L e = 0 := by
  constructor
  · intro h
    -- the sum of all coefficients does not change
    have hx : x = 0 := by
      have h1 := h fun _ => 1
      have hsum : (L.map (Prod.map G id)).map Prod.snd = L.map Prod.snd := by
        rw [List.map_map]
        rfl
      rw [value_one, value_one, hsum] at h1
      simpa [Finsupp.prod] using h1
    refine ⟨hx, fun e he => ?_⟩
    have heq : formal (L.map (Prod.map G id)) = formal L := by
      apply value_eq_iff.mp
      intro ρ
      rw [h ρ, hx, zero_mul, add_zero]
    rw [← heq, formal_map]
    apply Finsupp.mapDomain_of_notMem_range
    rintro ⟨e', rfl⟩
    exact he (hS e')
  · rintro ⟨rfl, h⟩ ρ
    rw [value_map_of_cancel hfix h, zero_mul, add_zero]

end Value

end Terms
