/-
Commelec/MonomialProduct.lean

When the operator `|` multiplies (`polynomial-convenience.hpp`).

The summand `a | b` holds the powers of `a` and those of `b`.  It is the product of the
two monomials, with two exceptions:

* the operator starts from a copy of `a`, so that the coefficient of `b` is lost;
* the base of the offsets is one more than the largest *single* power.  When `a` and `b`
  share a variable, its exponent in the product may reach the base.  Then the digit
  carries over to the next variable, and another monomial is read.

A polynomial is `Writable` when no `int` overflows while it is written; `buildPolynomial`
returns for no other (`writable_of_buildPolynomial`).  The exponents that are read are
those of `reread`, which leaves the exponents below the base alone (`reread_of_mem`).  By
`Terms.value_map_eq_iff` the message evaluates to the sum with the product in it exactly
when no coefficient is lost and the summands that carry cancel
(`evaluatesTo_product_iff`).
-/
import Commelec.Lib.Terms
import Commelec.PolynomialRoundTrip

namespace Commelec

open Effectful Outcome

variable {R : Type}

/-! ### Overflow -/

theorem checkedInt_eq_ok {z z' : ℤ} (h : (checkedInt z : Outcome Err ℤ) = ok z') :
    z' = z ∧ z < 2 ^ 31 := by
  rw [checkedInt] at h
  split at h
  · next hz => exact ⟨(Outcome.ok.inj h).symm, hz.2⟩
  · simp at h

/-- Where the loop of the encoder returns, neither a place value nor the offset has
overflowed. -/
theorem lt_of_monomialOffset {d : ℕ} {vars : List String} (hvars : vars.Nodup)
    {powers : List Power} (hpow : ∀ p ∈ powers, 0 ≤ p.pow) {acc : ℕ} (hacc : acc < 2 ^ 31)
    {offset : ℤ} (h : (monomialOffset vars d powers acc : Outcome Err ℤ) = ok offset) :
    (∀ p ∈ powers, d ^ vars.idxOf p.var.getName < 2 ^ 31) ∧
      acc + offsetOf d vars powers < 2 ^ 31 := by
  induction powers generalizing acc with
  | nil => simpa [offsetOf, exponent_nil, Nat.ofDigits_replicate_zero] using hacc
  | cons p powers ih =>
    rw [monomialOffset] at h
    split at h
    · next hi =>
      obtain ⟨k, hk, h⟩ := bind_eq_ok.mp h
      obtain ⟨term, hterm, h⟩ := bind_eq_ok.mp h
      obtain ⟨sum, hsum, h⟩ := bind_eq_ok.mp h
      obtain ⟨rfl, hplace⟩ := checkedInt_eq_ok hk
      obtain ⟨rfl, -⟩ := checkedInt_eq_ok hterm
      obtain ⟨rfl, hlt⟩ := checkedInt_eq_ok hsum
      obtain ⟨n, hn⟩ : ∃ n : ℕ, p.pow = n := Int.eq_ofNat_of_zero_le (hpow p (by simp))
      rw [hn] at h hlt
      have hcast : (acc : ℤ) + n * (d : ℤ) ^ vars.idxOf p.var.getName
          = ((acc + n * d ^ vars.idxOf p.var.getName : ℕ) : ℤ) := by
        push_cast
        rfl
      rw [hcast] at h hlt
      obtain ⟨hplaces, hoffset⟩ := ih (fun q hq => hpow q (by simp [hq])) (by exact_mod_cast hlt) h
      have hmem : p.var.getName ∈ vars := List.idxOf_lt_length_iff.mp hi
      constructor
      · intro q hq
        rcases List.mem_cons.mp hq with rfl | hq
        · exact_mod_cast hplace
        · exact hplaces q hq
      · rw [offsetOf_cons d hvars hmem, hn, Int.toNat_natCast, ← add_assoc]
        exact hoffset
    · simp at h

namespace MonomialSum

variable {s : MonomialSum R}

/-- Polynomials that are not writable are not written. -/
theorem writable_of_buildPolynomial
    (hpow : ∀ t ∈ s.monomials, ∀ p ∈ t.prodOfPowers, 0 ≤ p.pow)
    (hdegree : s.maxVarDegree ≤ 255) {poly : Polynomial R}
    (h : (buildPolynomial s : Outcome Err _) = ok poly) : s.Writable := by
  rw [buildPolynomial, checkedInt_base hpow hdegree, ok_bind] at h
  obtain ⟨coeffs, hcoeffs, -⟩ := bind_eq_ok.mp h
  have hterm : ∀ t ∈ s.monomials,
      (∀ p ∈ t.prodOfPowers, s.base ^ s.vars.idxOf p.var.getName < 2 ^ 31) ∧
        offsetOf s.base s.vars t.prodOfPowers < 2 ^ 31 := by
    intro t ht
    obtain ⟨coeff, hcoeff⟩ := exists_of_collect_map hcoeffs ht
    obtain ⟨offset, hoffset, -⟩ := bind_eq_ok.mp hcoeff
    simpa using lt_of_monomialOffset s.nodup_vars (hpow t ht) (by norm_num) hoffset
  refine ⟨hpow, hdegree, ?_, fun t ht => (hterm t ht).2⟩
  intro i hi
  -- variable number `i` occurs somewhere
  obtain ⟨t, ht, p, hp, hv⟩ := s.mem_vars.mp (List.getElem_mem hi)
  have hplace := (hterm t ht).1 p hp
  rwa [hv, s.nodup_vars.idxOf_getElem] at hplace

end MonomialSum

/-! ### Values -/

/-- The value of a monomial at the point `ρ`. -/
noncomputable def Monomial.value (t : Monomial ℝ) (ρ : String → ℝ) : ℝ :=
  t.coeff * (t.prodOfPowers.map fun p => ρ p.var.getName ^ p.pow.toNat).prod

/-- The product of two monomials is the value of `a | b`, up to the coefficient of `b`. -/
theorem Monomial.value_mul_value (a b : Monomial ℝ) (ρ : String → ℝ) :
    a.value ρ * b.value ρ = b.coeff * (a.or b).value ρ := by
  simp only [value, Monomial.or, List.map_append, List.prod_append]
  ring

namespace MonomialSum

variable (s : MonomialSum ℝ)

/-- The polynomial is written, and wherever its variables are bound the message evaluates
to `f`. -/
def EvaluatesTo (f : (String → ℝ) → ℝ) : Prop :=
  ∃ poly, (buildPolynomial s : Outcome Err (Polynomial ℝ)) = ok poly ∧
    ∀ (af : AdvFunc ℝ) (bv : ValueMap ℝ) (name : Option String) (fuel : ℕ),
      af.advValid = true → (∀ v ∈ s.vars, (bv v).isSome) → 1 ≤ fuel →
        (AdvFunc.evaluate fuel (.polynomial name poly) bv af).1
          = ok (f fun v => (bv v).getD 0)

/-- The exponents of all variables. -/
def degrees (t : Monomial ℝ) : List ℕ := s.vars.map (exponent t.prodOfPowers)

/-- Some exponent exceeds the largest single power. -/
def Carries (t : Monomial ℝ) : Prop := ∃ v ∈ s.vars, s.base ≤ exponent t.prodOfPowers v

/-- The summands that carry cancel: the coefficients of those with the same exponents add
up to zero. -/
def Cancels : Prop :=
  ∀ t ∈ s.monomials, s.Carries t →
    ((s.monomials.filter fun u => s.degrees u = s.degrees t).map Monomial.coeff).sum = 0

variable {s}

theorem EvaluatesTo.writable {f : (String → ℝ) → ℝ} (h : s.EvaluatesTo f)
    (hpow : ∀ t ∈ s.monomials, ∀ p ∈ t.prodOfPowers, 0 ≤ p.pow)
    (hdegree : s.maxVarDegree ≤ 255) : s.Writable := by
  obtain ⟨poly, hpoly, -⟩ := h
  exact writable_of_buildPolynomial hpow hdegree hpoly

/-- What a writable polynomial evaluates to. -/
theorem Writable.evaluatesTo_iff (h : s.Writable) {f : (String → ℝ) → ℝ} :
    s.EvaluatesTo f ↔ ∀ ρ, s.readValue ρ (-1) = f ρ := by
  constructor
  · rintro ⟨poly, hpoly, hf⟩ ρ
    obtain rfl : s.encoded = poly := Outcome.ok.inj (h.buildPolynomial_eq.symm.trans hpoly)
    have hv : ((AdvFunc.new ⟨none, none, none, []⟩).2 : AdvFunc ℝ).advValid = true := rfl
    have hbv : ∀ v ∈ s.vars, ((fun v => some (ρ v) : ValueMap ℝ) v).isSome := fun v _ => rfl
    exact Outcome.ok.inj ((h.evaluate_eq hv hbv none le_rfl).symm.trans
      (hf _ _ none 1 hv hbv le_rfl))
  · intro hf
    refine ⟨s.encoded, h.buildPolynomial_eq, ?_⟩
    intro af bv name fuel hv hbv hfuel
    rw [h.evaluate_eq hv hbv name hfuel, hf]

end MonomialSum

/-! ### Exponents as they are written and read -/

/-- The exponents `f` of the variables `vars`. -/
noncomputable def exponents (vars : List String) (f : String → ℕ) : String →₀ ℕ :=
  Finsupp.onFinset vars.toFinset (fun v => if v ∈ vars then f v else 0) fun v hv => by
    rw [List.mem_toFinset]
    by_contra hnot
    exact hv (if_neg hnot)

theorem exponents_of_mem {vars : List String} (f : String → ℕ) {v : String} (h : v ∈ vars) :
    exponents vars f v = f v := if_pos h

theorem exponents_of_notMem {vars : List String} (f : String → ℕ) {v : String}
    (h : v ∉ vars) : exponents vars f v = 0 := if_neg h

theorem exponents_eq_iff {vars : List String} {f g : String → ℕ} :
    exponents vars f = exponents vars g ↔ vars.map f = vars.map g := by
  rw [List.map_inj_left]
  constructor
  · intro h v hv
    rw [← exponents_of_mem f hv, h, exponents_of_mem g hv]
  · intro h
    ext v
    by_cases hv : v ∈ vars
    · rw [exponents_of_mem f hv, exponents_of_mem g hv, h v hv]
    · rw [exponents_of_notMem f hv, exponents_of_notMem g hv]

theorem prod_exponents {vars : List String} (hvars : vars.Nodup) (f : String → ℕ)
    (ρ : String → ℝ) :
    ((exponents vars f).prod fun v k => ρ v ^ k) = (vars.map fun v => ρ v ^ f v).prod := by
  have hsupport : (exponents vars f).support ⊆ vars.toFinset := Finsupp.support_onFinset_subset
  rw [Finsupp.prod_of_support_subset _ hsupport _ fun v _ => pow_zero _,
    List.prod_toFinset _ hvars]
  refine congrArg List.prod (List.map_congr_left fun v hv => ?_)
  rw [exponents_of_mem f hv]

namespace MonomialSum

variable (s : MonomialSum ℝ)

/-- The summands as terms. -/
noncomputable def terms : List ((String →₀ ℕ) × ℝ) :=
  s.monomials.map fun t => (exponents s.vars (exponent t.prodOfPowers), t.coeff)

/-- The exponents that are read where the exponents `e` are written. -/
noncomputable def reread (e : String →₀ ℕ) : String →₀ ℕ :=
  exponents s.vars (readExponent s.base s.vars (Nat.ofDigits s.base (s.vars.map e)))

/-- The exponents that can be read. -/
def readable : Set (String →₀ ℕ) :=
  {e | (∀ v ∈ s.vars, e v < s.base) ∧ ∀ v ∉ s.vars, e v = 0}

theorem reread_mem (e : String →₀ ℕ) : s.reread e ∈ s.readable := by
  constructor
  · intro v hv
    rw [reread, exponents_of_mem _ hv]
    exact Nat.mod_lt _ (Nat.succ_pos _)
  · intro v hv
    exact exponents_of_notMem _ hv

/-- Exponents that can be read are read as they are. -/
theorem reread_of_mem {e : String →₀ ℕ} (h : e ∈ s.readable) : s.reread e = e := by
  ext v
  by_cases hv : v ∈ s.vars
  · rw [reread, exponents_of_mem _ hv, readExponent_ofDigits h.1 hv]
  · rw [reread, exponents_of_notMem _ hv, h.2 v hv]

variable {s}

/-- The value of a summand, as a product over all variables. -/
theorem value_eq_term {t : Monomial ℝ} (ht : t ∈ s.monomials) (ρ : String → ℝ) :
    t.value ρ = t.coeff *
      (exponents s.vars (exponent t.prodOfPowers)).prod fun v k => ρ v ^ k := by
  rw [Monomial.value, prod_powers_vars ρ ht, prod_exponents s.nodup_vars]

theorem value_terms (ρ : String → ℝ) : Terms.value s.terms ρ = s.value ρ := by
  rw [Terms.value, terms, List.map_map]
  exact congrArg List.sum (List.map_congr_left fun t ht => (value_eq_term ht ρ).symm)

theorem value_reread (ρ : String → ℝ) :
    Terms.value (s.terms.map (Prod.map s.reread id)) ρ = s.readValue ρ (-1) := by
  rw [Terms.value, terms, List.map_map, List.map_map, readValue]
  refine congrArg List.sum (List.map_congr_left fun t _ => ?_)
  have hmap : s.vars.map (exponents s.vars (exponent t.prodOfPowers))
      = s.vars.map (exponent t.prodOfPowers) :=
    List.map_congr_left fun v hv => exponents_of_mem _ hv
  show t.coeff * (s.reread (exponents s.vars (exponent t.prodOfPowers))).prod _ = _
  rw [reread, hmap, prod_exponents s.nodup_vars, powerProduct_value ρ _ _ (by simp), offsetOf]

/-- A summand carries when its exponents cannot be read. -/
theorem carries_iff {t : Monomial ℝ} :
    s.Carries t ↔ exponents s.vars (exponent t.prodOfPowers) ∉ s.readable := by
  constructor
  · rintro ⟨v, hv, hle⟩ hread
    have hlt := hread.1 v hv
    rw [exponents_of_mem _ hv] at hlt
    omega
  · intro h
    by_contra hcarry
    apply h
    constructor
    · intro v hv
      rw [exponents_of_mem _ hv]
      by_contra hle
      exact hcarry ⟨v, hv, Nat.le_of_not_lt hle⟩
    · intro v hv
      exact exponents_of_notMem _ hv

/-- Like summands are those with the same exponents. -/
theorem formal_terms (t : Monomial ℝ) :
    Terms.formal s.terms (exponents s.vars (exponent t.prodOfPowers))
      = ((s.monomials.filter fun u => s.degrees u = s.degrees t).map Monomial.coeff).sum :=
  Terms.formal_map_apply Monomial.coeff fun _ _ => exponents_eq_iff.symm

theorem cancels_iff : s.Cancels ↔ ∀ e ∉ s.readable, Terms.formal s.terms e = 0 := by
  constructor
  · intro h e he
    by_cases hterm : ∃ t ∈ s.monomials, exponents s.vars (exponent t.prodOfPowers) = e
    · obtain ⟨t, ht, rfl⟩ := hterm
      rw [formal_terms]
      exact h t ht (carries_iff.mpr he)
    · -- no summand has these exponents
      have hnone : ∀ t ∈ s.monomials,
          False ↔ exponents s.vars (exponent t.prodOfPowers) = e := fun t ht =>
        ⟨False.elim, fun heq => hterm ⟨t, ht, heq⟩⟩
      rw [terms, Terms.formal_map_apply Monomial.coeff hnone]
      simp
  · intro h t ht hcarry
    rw [← formal_terms]
    exact h _ (carries_iff.mp hcarry)

end MonomialSum

/-! ### The operator -/

/-- **When `|` multiplies.**  A sum with a summand `a | b` is written and evaluates to the
sum with the product of `a` and `b` in it exactly when no `int` overflows, the coefficient
of `b` is not missed, and the summands whose exponents exceed the largest single power
cancel. -/
theorem evaluatesTo_product_iff {s : MonomialSum ℝ} {pre post : List (Monomial ℝ)}
    {a b : Monomial ℝ} (hs : s.monomials = pre ++ a.or b :: post)
    (hpow : ∀ t ∈ s.monomials, ∀ p ∈ t.prodOfPowers, 0 ≤ p.pow)
    (hdegree : s.maxVarDegree ≤ 255) :
    s.EvaluatesTo (fun ρ => (pre.map fun t => t.value ρ).sum + a.value ρ * b.value ρ
        + (post.map fun t => t.value ρ).sum)
      ↔ s.Writable ∧ (b.coeff = 1 ∨ a.coeff = 0) ∧ s.Cancels := by
  have hmem : a.or b ∈ s.monomials := by simp [hs]
  -- the product is the summand and a multiple of its powers
  have hvalue : (fun ρ => (pre.map fun t => t.value ρ).sum + a.value ρ * b.value ρ
        + (post.map fun t => t.value ρ).sum)
      = fun ρ => Terms.value s.terms ρ + (b.coeff - 1) * a.coeff *
          (exponents s.vars (exponent (a.or b).prodOfPowers)).prod fun v k => ρ v ^ k := by
    funext ρ
    have hsum : s.value ρ = (pre.map fun t => t.value ρ).sum + (a.or b).value ρ
        + (post.map fun t => t.value ρ).sum := by
      show (s.monomials.map fun t => t.value ρ).sum = _
      rw [hs, List.map_append, List.map_cons, List.sum_append, List.sum_cons, add_assoc]
    have hor : (a.or b).value ρ = a.coeff *
        (exponents s.vars (exponent (a.or b).prodOfPowers)).prod fun v k => ρ v ^ k :=
      MonomialSum.value_eq_term hmem ρ
    rw [MonomialSum.value_terms, hsum, Monomial.value_mul_value, hor]
    ring
  have hzero : b.coeff = 1 ∨ a.coeff = 0 ↔ (b.coeff - 1) * a.coeff = 0 := by
    rw [mul_eq_zero, sub_eq_zero]
  rw [hvalue]
  refine (and_iff_right_of_imp fun h =>
    MonomialSum.EvaluatesTo.writable h hpow hdegree).symm.trans (and_congr_right fun h => ?_)
  rw [h.evaluatesTo_iff, hzero, MonomialSum.cancels_iff,
    ← Terms.value_map_eq_iff s.reread_mem (fun e he => s.reread_of_mem he) s.terms
      (exponents s.vars (exponent (a.or b).prodOfPowers))]
  simp only [MonomialSum.value_reread]

/-- The monomials `P` and `Q`. -/
noncomputable def monomialP : Monomial ℝ := (PolyVar.mk "P").monomial

noncomputable def monomialQ : Monomial ℝ := (PolyVar.mk "Q").monomial

/-- The polynomial `(P | P) + P^2`. -/
noncomputable def sampleProduct : MonomialSum ℝ :=
  (monomialP.or monomialP).add ((PolyVar.mk "P").pow 2)

theorem evaluatesTo_product_sample :
    sampleProduct.EvaluatesTo fun ρ => ρ "P" * ρ "P" + ρ "P" ^ 2 := by
  have hpow : ∀ t ∈ sampleProduct.monomials, ∀ p ∈ t.prodOfPowers, 0 ≤ p.pow := by
    simp [sampleProduct, Monomial.add, Monomial.or, monomialP, PolyVar.monomial, PolyVar.pow]
  have hvars : sampleProduct.vars = ["P"] := by decide
  have hwritable : sampleProduct.Writable := by
    refine ⟨hpow, by decide, by decide, ?_⟩
    simp only [sampleProduct, Monomial.add, List.forall_mem_cons, List.not_mem_nil]
    exact ⟨by decide, by decide, by simp⟩
  have hcancels : sampleProduct.Cancels := by
    -- the base is 3
    rintro t ht ⟨v, hv, hle⟩
    rw [hvars, List.mem_singleton] at hv
    subst hv
    simp only [sampleProduct, Monomial.add, List.mem_cons, List.not_mem_nil, or_false] at ht
    rcases ht with rfl | rfl
    · exact absurd hle (by decide)
    · exact absurd hle (by decide)
  have hs : sampleProduct.monomials
      = [] ++ monomialP.or monomialP :: [(PolyVar.mk "P").pow 2] := rfl
  have h := (evaluatesTo_product_iff hs hpow (by decide)).mpr ⟨hwritable, Or.inl rfl, hcancels⟩
  simpa [Monomial.value, monomialP, PolyVar.monomial, PolyVar.pow] using h

/-- In `(P | P) + Q` the square of `P` is read as `Q`, and in `((2 * P) | (3 * Q)) + P` the
coefficient 3 is missed. -/
theorem product_misread :
    (∃ poly, (buildPolynomial ((monomialP.or monomialP).add monomialQ) : Outcome Err _)
        = ok poly ∧
      (AdvFunc.evaluate 1 (.polynomial none poly) (bindPQ 3 5)
        (AdvFunc.new ⟨none, none, none, []⟩).2).1 = ok 10) ∧
    (∀ ρ : String → ℝ, ρ "P" = 3 → ρ "Q" = 5 →
      monomialP.value ρ * monomialP.value ρ + monomialQ.value ρ = 14) ∧
    (∃ poly, (buildPolynomial (((monomialP.scale 2).or (monomialQ.scale 3)).add monomialP) :
          Outcome Err _) = ok poly ∧
      (AdvFunc.evaluate 1 (.polynomial none poly) (bindPQ 3 5)
        (AdvFunc.new ⟨none, none, none, []⟩).2).1 = ok 33) ∧
    ∀ ρ : String → ℝ, ρ "P" = 3 → ρ "Q" = 5 →
      (monomialP.scale 2).value ρ * (monomialQ.scale 3).value ρ + monomialP.value ρ = 93 := by
  have hsquare : (evalPolynomial (bindPQ 3 5) ⟨["P", "Q"], 1, [⟨2, 1⟩, ⟨2, 1⟩]⟩ (-1) :
      Outcome Err ℝ) = ok 10 := by
    simp [evalPolynomial, boundVarAt, evalMonomial, intPow]
    norm_num [Double.pow]
  have hcoeff : (evalPolynomial (bindPQ 3 5) ⟨["P", "Q"], 1, [⟨3, 1 * 2⟩, ⟨1, 1⟩]⟩ (-1) :
      Outcome Err ℝ) = ok 33 := by
    simp [evalPolynomial, boundVarAt, evalMonomial, intPow]
    norm_num [Double.pow]
  refine ⟨⟨_, rfl, evaluate_polynomial hsquare rfl none le_rfl⟩, ?_,
    ⟨_, rfl, evaluate_polynomial hcoeff rfl none le_rfl⟩, ?_⟩
  · intro ρ hP hQ
    simp [Monomial.value, monomialP, monomialQ, PolyVar.monomial, hP, hQ]
    norm_num
  · intro ρ hP hQ
    simp [Monomial.value, Monomial.scale, monomialP, monomialQ, PolyVar.monomial, hP, hQ]
    norm_num

end Commelec
