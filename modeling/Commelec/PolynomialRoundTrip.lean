/-
Commelec/PolynomialRoundTrip.lean

What is written by `buildPolynomial` is read back by the interpreter: evaluating
the message gives the value of the polynomial, and differentiating it the value of
the formal partial derivative.

The offset of a monomial is the number whose base-`d` digits are the exponents of
the variables, in the order of `vars` (`monomialOffset_eq`).  The evaluation loop
takes the digits of the offset one by one (`evalMonomial_loop`).  These are the
exponents again when all exponents are below `d`; a polynomial may be `Writable`, that
is, written without overflow, and not meet this.
-/
import Mathlib.Algebra.MvPolynomial.PDeriv
import Mathlib.Data.Nat.Digits.Defs
import Commelec.Metered
import Commelec.PolynomialConvenience

namespace Commelec

open Effectful Outcome MvPolynomial

variable {R : Type}

/-! ### The polynomial that is meant -/

/-- The exponent of the variable `v` in a product of powers. -/
def exponent (powers : List Power) (v : String) : ℕ :=
  (powers.map fun p => if p.var.getName = v then p.pow.toNat else 0).sum

namespace MonomialSum

/-- The same polynomial with coefficients of another type. -/
def map {R' : Type} (f : R → R') (s : MonomialSum R) : MonomialSum R' :=
  ⟨s.monomials.map fun t => ⟨f t.coeff, t.prodOfPowers⟩⟩

/-- The value of the polynomial at the point `ρ`. -/
noncomputable def value (s : MonomialSum ℝ) (ρ : String → ℝ) : ℝ :=
  (s.monomials.map fun t =>
    t.coeff * (t.prodOfPowers.map fun p => ρ p.var.getName ^ p.pow.toNat).prod).sum

/-- The formal polynomial. -/
noncomputable def toMvPolynomial (s : MonomialSum ℝ) : MvPolynomial String ℝ :=
  (s.monomials.map fun t =>
    C t.coeff * (t.prodOfPowers.map fun p => X p.var.getName ^ p.pow.toNat).prod).sum

/-- Limits within which the message can hold a polynomial. -/
structure Fits (s : MonomialSum R) : Prop where
  nonneg : ∀ t ∈ s.monomials, ∀ p ∈ t.prodOfPowers, 0 ≤ p.pow
  distinct : ∀ t ∈ s.monomials, (t.prodOfPowers.map fun p => p.var.getName).Nodup
  degree : s.maxVarDegree ≤ 255
  size : (s.maxVarDegree + 1) ^ s.vars.length ≤ 2 ^ 31

theorem eval_toMvPolynomial (s : MonomialSum ℝ) (ρ : String → ℝ) :
    eval ρ s.toMvPolynomial = s.value ρ := by
  simp [toMvPolynomial, value, map_list_sum, map_list_prod, List.map_map, Function.comp_def]

end MonomialSum

/-! ### Exponents -/

theorem exponent_nil : exponent [] = fun _ => 0 := rfl

theorem exponent_cons (p : Power) (powers : List Power) (v : String) :
    exponent (p :: powers) v
      = (if p.var.getName = v then p.pow.toNat else 0) + exponent powers v := by
  simp [exponent]

theorem exponent_eq_zero {powers : List Power} {v : String}
    (h : v ∉ powers.map fun p => p.var.getName) : exponent powers v = 0 := by
  induction powers with
  | nil => rfl
  | cons p powers ih =>
    rw [List.map_cons, List.mem_cons, not_or] at h
    rw [exponent_cons, if_neg (Ne.symm h.1), ih h.2]

/-- Where no variable is repeated, an exponent is one of the powers. -/
theorem exponent_le {powers : List Power} {D : ℕ}
    (hnodup : (powers.map fun p => p.var.getName).Nodup)
    (hD : ∀ p ∈ powers, p.pow.toNat ≤ D) (v : String) : exponent powers v ≤ D := by
  induction powers with
  | nil => exact Nat.zero_le D
  | cons p powers ih =>
    rw [List.map_cons, List.nodup_cons] at hnodup
    rw [exponent_cons]
    split
    · next hv =>
      rw [exponent_eq_zero (hv ▸ hnodup.1), add_zero]
      exact hD p (by simp)
    · rw [zero_add]
      exact ih hnodup.2 fun q hq => hD q (by simp [hq])

/-- A product over the powers is a product over the variables. -/
theorem prod_powers {M : Type} [CommMonoid M] (f : String → M) {vars : List String}
    (hvars : vars.Nodup) {powers : List Power}
    (hin : ∀ p ∈ powers, p.var.getName ∈ vars) :
    (powers.map fun p => f p.var.getName ^ p.pow.toNat).prod
      = (vars.map fun v => f v ^ exponent powers v).prod := by
  induction powers with
  | nil => simp [exponent]
  | cons p powers ih =>
    have hsingle : (vars.map fun v => f v ^ if p.var.getName = v then p.pow.toNat else 0).prod
        = f p.var.getName ^ p.pow.toNat := by
      rw [List.prod_map_eq_pow_single p.var.getName _ fun v hv _ => by simp [Ne.symm hv],
        List.count_eq_one_of_mem hvars (hin p (by simp))]
      simp
    rw [List.map_cons, List.prod_cons, ih fun q hq => hin q (by simp [hq]), ← hsingle,
      ← List.prod_map_mul]
    simp only [exponent_cons, pow_add]

/-! ### Offsets are digits -/

theorem ofDigits_add (d : ℕ) (f g : String → ℕ) (vars : List String) :
    Nat.ofDigits d (vars.map fun v => f v + g v)
      = Nat.ofDigits d (vars.map f) + Nat.ofDigits d (vars.map g) := by
  induction vars with
  | nil => simp
  | cons v vars ih =>
    simp only [List.map_cons, Nat.ofDigits_cons, ih]
    ring

/-- One digit in its place. -/
theorem ofDigits_single (d a : ℕ) {vars : List String} (hvars : vars.Nodup) {w : String}
    (hw : w ∈ vars) :
    Nat.ofDigits d (vars.map fun v => if w = v then a else 0) = a * d ^ vars.idxOf w := by
  induction vars with
  | nil => simp at hw
  | cons v vars ih =>
    rw [List.nodup_cons] at hvars
    rw [List.map_cons, Nat.ofDigits_cons]
    by_cases hwv : w = v
    · have hzero : ∀ u ∈ vars, (if w = u then a else 0) = 0 := fun u hu =>
        if_neg (by rintro rfl; exact hvars.1 (hwv ▸ hu))
      rw [List.map_congr_left hzero, List.map_const', Nat.ofDigits_replicate_zero,
        if_pos hwv, hwv, List.idxOf_cons_self]
      ring
    · have hmem : w ∈ vars := (List.mem_cons.mp hw).resolve_left hwv
      rw [if_neg hwv, ih hvars.2 hmem, List.idxOf_cons_ne _ (Ne.symm hwv), pow_succ]
      ring

/-- Digits below `d` make a number below `d` to their number; `d` may be one. -/
theorem ofDigits_lt {d : ℕ} {digits : List ℕ} (h : ∀ k ∈ digits, k < d) :
    Nat.ofDigits d digits < d ^ digits.length := by
  induction digits with
  | nil => simp
  | cons k digits ih =>
    have hk : k < d := h k (by simp)
    have htail : Nat.ofDigits d digits + 1 ≤ d ^ digits.length :=
      ih fun j hj => h j (by simp [hj])
    rw [Nat.ofDigits_cons, List.length_cons, pow_succ]
    calc k + d * Nat.ofDigits d digits < d * (Nat.ofDigits d digits + 1) := by
          rw [mul_add]; omega
      _ ≤ d * d ^ digits.length := Nat.mul_le_mul_left d htail
      _ = d ^ digits.length * d := mul_comm _ _

/-- The number whose digits are the exponents of the variables. -/
def offsetOf (d : ℕ) (vars : List String) (powers : List Power) : ℕ :=
  Nat.ofDigits d (vars.map (exponent powers))

theorem offsetOf_cons (d : ℕ) {vars : List String} (hvars : vars.Nodup) {p : Power}
    (hp : p.var.getName ∈ vars) (powers : List Power) :
    offsetOf d vars (p :: powers)
      = p.pow.toNat * d ^ vars.idxOf p.var.getName + offsetOf d vars powers := by
  simp only [offsetOf, funext (exponent_cons p powers)]
  rw [ofDigits_add, ofDigits_single d _ hvars hp]

/-- Digit number `i` of `n` in base `d`. -/
def offsetDigit (d n i : ℕ) : ℕ := n / d ^ i % d

theorem offsetDigit_ofDigits {d : ℕ} {digits : List ℕ} (h : ∀ k ∈ digits, k < d) {i : ℕ}
    (hi : i < digits.length) : offsetDigit d (Nat.ofDigits d digits) i = digits[i] := by
  have hlt : digits[i] < d := h _ (List.getElem_mem hi)
  rw [offsetDigit, Nat.ofDigits_div_pow_eq_ofDigits_drop i (by omega) digits h,
    List.drop_eq_getElem_cons hi, Nat.ofDigits_cons, Nat.add_mul_mod_self_left,
    Nat.mod_eq_of_lt hlt]

/-- The exponent of the variable `v` that is read from an offset. -/
def readExponent (d : ℕ) (vars : List String) (offset : ℕ) (v : String) : ℕ :=
  offsetDigit d offset (vars.idxOf v)

/-- Taking the variables in order is counting them. -/
theorem map_readExponent (d : ℕ) {vars : List String} (hvars : vars.Nodup) (offset : ℕ) :
    vars.map (readExponent d vars offset)
      = (List.range vars.length).map (offsetDigit d offset) := by
  apply List.ext_getElem
  · simp
  · intro i h₁ h₂
    rw [List.getElem_map, List.getElem_map, List.getElem_range, readExponent,
      hvars.idxOf_getElem]

/-- Exponents below the base are read back. -/
theorem readExponent_ofDigits {d : ℕ} {vars : List String} {e : String → ℕ}
    (he : ∀ v ∈ vars, e v < d) {v : String} (hv : v ∈ vars) :
    readExponent d vars (Nat.ofDigits d (vars.map e)) v = e v := by
  have hdigits : ∀ k ∈ vars.map e, k < d := by
    intro k hk
    obtain ⟨w, hw, rfl⟩ := List.mem_map.mp hk
    exact he w hw
  have hi : vars.idxOf v < (vars.map e).length := by
    rw [List.length_map]
    exact List.idxOf_lt_length_iff.mpr hv
  rw [readExponent, offsetDigit_ofDigits hdigits hi, List.getElem_map, List.getElem_idxOf]

/-! ### Writing -/

theorem checkedInt_natCast {n : ℕ} (h : n < 2 ^ 31) :
    (checkedInt (n : ℤ) : Outcome Err ℤ) = ok (n : ℤ) := by
  rw [checkedInt, if_pos (by omega)]
  rfl

/-- The loop of the encoder adds the digits of the powers to the offset. -/
theorem monomialOffset_eq {d : ℕ} {vars : List String} (hvars : vars.Nodup)
    (hplace : ∀ i < vars.length, d ^ i < 2 ^ 31) {powers : List Power}
    (hpow : ∀ p ∈ powers, 0 ≤ p.pow) (hin : ∀ p ∈ powers, p.var.getName ∈ vars)
    {acc : ℕ} (hacc : acc + offsetOf d vars powers < 2 ^ 31) :
    (monomialOffset vars d powers acc : Outcome Err ℤ)
      = ok ((acc + offsetOf d vars powers : ℕ) : ℤ) := by
  induction powers generalizing acc with
  | nil =>
    have hzero : offsetOf d vars [] = 0 := by
      rw [offsetOf, exponent_nil, List.map_const', Nat.ofDigits_replicate_zero]
    rw [hzero, add_zero]
    rfl
  | cons p powers ih =>
    have hmem : p.var.getName ∈ vars := hin p (by simp)
    have hi : vars.idxOf p.var.getName < vars.length := List.idxOf_lt_length_iff.mpr hmem
    obtain ⟨n, hn⟩ : ∃ n : ℕ, p.pow = n := Int.eq_ofNat_of_zero_le (hpow p (by simp))
    rw [offsetOf_cons d hvars hmem, hn, Int.toNat_natCast, ← add_assoc] at hacc ⊢
    -- neither the place value, nor the term, nor the sum overflows
    have hk := checkedInt_natCast (hplace _ hi)
    have hterm := checkedInt_natCast
      (show n * d ^ vars.idxOf p.var.getName < 2 ^ 31 by omega)
    have hsum := checkedInt_natCast
      (show acc + n * d ^ vars.idxOf p.var.getName < 2 ^ 31 by omega)
    push_cast at hk hterm hsum
    rw [monomialOffset, if_pos hi, hk, ok_bind, hn, hterm, ok_bind, hsum, ok_bind]
    have := ih (fun q hq => hpow q (by simp [hq])) (fun q hq => hin q (by simp [hq])) hacc
    push_cast at this ⊢
    exact this

namespace MonomialSum

variable (s : MonomialSum R)

/-- The base of the offsets. -/
def base : ℕ := s.maxVarDegree.toNat + 1

/-- The message that is written for a polynomial that fits. -/
def encoded : Polynomial R :=
  ⟨s.vars, UInt8.ofInt s.maxVarDegree, s.monomials.map fun t =>
    ⟨UInt32.ofInt (offsetOf s.base s.vars t.prodOfPowers), t.coeff⟩⟩

/-- Nothing overflows while the polynomial is written. -/
structure Writable (s : MonomialSum R) : Prop where
  nonneg : ∀ t ∈ s.monomials, ∀ p ∈ t.prodOfPowers, 0 ≤ p.pow
  degree : s.maxVarDegree ≤ 255
  place : ∀ i < s.vars.length, s.base ^ i < 2 ^ 31
  offset : ∀ t ∈ s.monomials, offsetOf s.base s.vars t.prodOfPowers < 2 ^ 31

/-- The message can hold the polynomial: it is written without overflow, and the exponents are
digits of the offsets. -/
structure Legible (s : MonomialSum R) : Prop extends Writable s where
  exponent_lt : ∀ t ∈ s.monomials, ∀ v, exponent t.prodOfPowers v < s.base

variable {s}

section

variable (h : ∀ t ∈ s.monomials, ∀ p ∈ t.prodOfPowers, 0 ≤ p.pow)

include h

theorem maxVarDegree_nonneg : 0 ≤ s.maxVarDegree := by
  refine maxElement_nonneg fun q hq => ?_
  obtain ⟨t, ht, rfl⟩ := List.mem_map.mp hq
  refine maxElement_nonneg fun r hr => ?_
  obtain ⟨p, hp, rfl⟩ := List.mem_map.mp hr
  exact h t ht p hp

theorem natCast_base : (s.base : ℤ) = s.maxVarDegree + 1 := by
  rw [base]
  have := maxVarDegree_nonneg h
  omega

/-- The base is an `int`. -/
theorem checkedInt_base (hdegree : s.maxVarDegree ≤ 255) :
    (checkedInt (s.maxVarDegree + 1) : Outcome Err ℤ) = ok (s.base : ℤ) := by
  rw [← natCast_base h]
  refine checkedInt_natCast ?_
  rw [base]
  omega

end

/-- **A polynomial is written without overflow.** -/
theorem Writable.buildPolynomial_eq (h : s.Writable) :
    (buildPolynomial s : Outcome Err _) = ok s.encoded := by
  have hcoeffs : ∀ t ∈ s.monomials,
      (do
        let offset ← monomialOffset s.vars s.base t.prodOfPowers 0
        pure ⟨UInt32.ofInt offset, t.coeff⟩ : Outcome Err (SparseCoeff R))
      = ok ⟨UInt32.ofInt (offsetOf s.base s.vars t.prodOfPowers), t.coeff⟩ := by
    intro t ht
    have hin : ∀ p ∈ t.prodOfPowers, p.var.getName ∈ s.vars := fun p hp =>
      s.mem_vars.mpr ⟨t, ht, p, hp, rfl⟩
    have hlt : 0 + offsetOf s.base s.vars t.prodOfPowers < 2 ^ 31 := by
      rw [zero_add]
      exact h.offset t ht
    have hoff := monomialOffset_eq s.nodup_vars h.place (h.nonneg t ht) hin hlt
    rw [zero_add] at hoff
    rw [show (0 : ℤ) = ((0 : ℕ) : ℤ) from rfl, hoff]
    rfl
  rw [buildPolynomial, checkedInt_base h.nonneg h.degree, ok_bind, List.map_congr_left hcoeffs,
    collect_map_ok fun t : Monomial R => (⟨_, t.coeff⟩ : SparseCoeff R)]
  rfl

namespace Fits

variable (h : s.Fits)

include h

theorem base_pow_le : s.base ^ s.vars.length ≤ 2 ^ 31 := by
  have := h.size
  rw [← natCast_base h.nonneg] at this
  exact_mod_cast this

theorem exponent_lt {t : Monomial R} (ht : t ∈ s.monomials) (v : String) :
    exponent t.prodOfPowers v < s.base := by
  refine Nat.lt_succ_of_le (exponent_le (h.distinct t ht) (fun p hp => ?_) v)
  exact Int.toNat_le_toNat (pow_le_maxVarDegree ht hp)

theorem writable : s.Writable where
  nonneg := h.nonneg
  degree := h.degree
  place i hi := by
    rcases Nat.eq_zero_or_pos s.maxVarDegree.toNat with h0 | hpos
    · rw [base, h0]
      norm_num
    · calc s.base ^ i < s.base ^ s.vars.length :=
            Nat.pow_lt_pow_right (by rw [base]; omega) hi
        _ ≤ 2 ^ 31 := h.base_pow_le
  offset t ht := by
    have hdigits : ∀ k ∈ s.vars.map (exponent t.prodOfPowers), k < s.base := by
      intro k hk
      obtain ⟨v, -, rfl⟩ := List.mem_map.mp hk
      exact h.exponent_lt ht v
    have hlt := ofDigits_lt hdigits
    rw [List.length_map] at hlt
    exact hlt.trans_le h.base_pow_le

theorem legible : s.Legible where
  toWritable := h.writable
  exponent_lt _ ht v := h.exponent_lt ht v

end Fits

end MonomialSum

/-! ### Reading -/

/-- What variable number `var` contributes to a monomial, or to its derivative with
respect to variable number `dVar`. -/
noncomputable def powerFactor (dVar : ℤ) (var : ℕ) (x : ℝ) (k : ℕ) : ℝ :=
  if dVar = var then k * x ^ (k - 1) else x ^ k

noncomputable def powerProduct (dVar : ℤ) : ℕ → List ℝ → List ℕ → ℝ
  | var, x :: pt, k :: digits =>
    powerFactor dVar var x k * powerProduct dVar (var + 1) pt digits
  | _, _, _ => 1

section Reading

variable [Double R] {φ : ℝ → R} (hφ : Exact φ)

include hφ in
/-- One variable of a monomial.  The loop breaks off when the monomial does not contain the
variable of the derivative. -/
theorem evalMonomial_step {d offset var : ℕ} (hplace : d ^ var < 2 ^ 31) (dVar : ℤ) (x : ℝ)
    (pt : List R) (monom : ℝ) :
    (evalMonomial d offset dVar var (φ x :: pt) (φ monom) : Outcome Err R)
      = if dVar = var ∧ offsetDigit d offset var = 0 then ok (φ 0)
        else evalMonomial d offset dVar (var + 1) pt
          (φ (monom * powerFactor dVar var x (offsetDigit d offset var))) := by
  have hint : (intPow d var : Outcome Err ℤ) = ok ((d ^ var : ℕ) : ℤ) := by
    rw [intPow, if_pos hplace]
    rfl
  have hrem : ((offset : ℤ).tdiv ((d ^ var : ℕ) : ℤ)).tmod d
      = (offsetDigit d offset var : ℤ) := by
    rw [← Int.ofNat_tdiv, ← Int.ofNat_tmod, offsetDigit]
  rw [evalMonomial, hint, ok_bind, hrem, powerFactor]
  generalize offsetDigit d offset var = k
  have hlit : (Double.lit ((k : ℤ) : ℚ) : R) = φ (k : ℝ) := by
    rw [hφ.lit]
    norm_cast
  by_cases hvar : dVar = var
  · rw [if_pos hvar, if_pos hvar]
    obtain rfl | rfl | hk : k = 0 ∨ k = 1 ∨ 1 < k := by omega
    · simp [hvar, hφ.zero]
    · simp
    · have hlit' : (Double.lit (((k : ℤ) : ℚ) - 1) : R) = φ ((k - 1 : ℕ) : ℝ) := by
        rw [hφ.lit, Nat.cast_sub hk.le]
        norm_num
      rw [if_neg (by omega), if_pos (by omega), if_neg (by omega), hlit, hlit', hφ.pow, hφ.mul,
        hφ.mul]
  · rw [if_neg hvar, if_neg hvar, if_neg (fun h => hvar h.1), hlit, hφ.pow, hφ.mul]

include hφ in
/-- **The loop of the decoder** reads the digits of the offset, one variable after
the other. -/
theorem evalMonomial_loop {d offset : ℕ} (dVar : ℤ) {pt : List ℝ} {var : ℕ} {monom : ℝ}
    (hplace : ∀ i < var + pt.length, d ^ i < 2 ^ 31) :
    (evalMonomial d offset dVar var (pt.map φ) (φ monom) : Outcome Err R)
      = ok (φ (monom *
          powerProduct dVar var pt ((List.range' var pt.length).map (offsetDigit d offset)))) := by
  induction pt generalizing var monom with
  | nil => simp [evalMonomial, powerProduct]
  | cons x pt ih =>
    rw [List.length_cons] at hplace
    rw [List.map_cons, evalMonomial_step hφ (hplace var (by omega)), List.length_cons,
      List.range'_succ, List.map_cons, powerProduct]
    split
    · next hbreak =>
      -- the factor of this variable is zero
      rw [powerFactor, if_pos hbreak.1, hbreak.2]
      simp
    · rw [ih fun i hi => hplace i (by omega), mul_assoc]

theorem toInt_offset {n : ℕ} (h : n < 2 ^ 31) : (UInt32.ofInt n).toInt32.toInt = n := by
  have hn : UInt32.ofInt n = UInt32.ofNat n := by
    simp only [UInt32.ofInt]
    congr 1
    omega
  rw [hn, UInt32.toInt32_ofNat', Int32.toInt_ofNat_of_lt h]

theorem toNat_maxVarDegree {z : ℤ} (h0 : 0 ≤ z) (h : z ≤ 255) :
    (UInt8.ofInt z).toNat = z.toNat := by
  simp only [UInt8.ofInt, UInt8.toNat_ofNat']
  omega

namespace MonomialSum

variable (s : MonomialSum ℝ)

omit [Double R] in
theorem maxVarDegree_map : (s.map φ).maxVarDegree = s.maxVarDegree := by
  simp only [maxVarDegree, map, List.map_map]
  rfl

omit [Double R] in
theorem vars_map : (s.map φ).vars = s.vars := by
  simp [vars, occurrences, map, List.flatMap_map]

omit [Double R] in
theorem encoded_map : (s.map φ).encoded
    = ⟨s.vars, UInt8.ofInt s.maxVarDegree, s.monomials.map fun t =>
        ⟨UInt32.ofInt (offsetOf s.base s.vars t.prodOfPowers), φ t.coeff⟩⟩ := by
  have hbase : (s.map φ).base = s.base := by rw [base, maxVarDegree_map, base]
  rw [encoded, hbase, vars_map, maxVarDegree_map]
  simp only [map, List.map_map]
  rfl

/-- What the loops over the coefficients and the variables compute. -/
noncomputable def loopValue (ρ : String → ℝ) (dVar : ℤ) : ℝ :=
  (s.monomials.map fun t =>
    t.coeff * powerProduct dVar 0 (s.vars.map ρ) (s.vars.map (exponent t.prodOfPowers))).sum

/-- What these loops compute from a message: every exponent is a digit of the offset. -/
noncomputable def readValue (ρ : String → ℝ) (dVar : ℤ) : ℝ :=
  (s.monomials.map fun t =>
    t.coeff * powerProduct dVar 0 (s.vars.map ρ)
      (s.vars.map (readExponent s.base s.vars (offsetOf s.base s.vars t.prodOfPowers)))).sum

variable {s}

include hφ in
/-- **Reading back** what was written. -/
theorem Writable.evalPolynomial_encoded (h : s.Writable) {bv : ValueMap R} {ρ : String → ℝ}
    (hbv : ∀ v ∈ s.vars, bv v = some (φ (ρ v))) (dVar : ℤ) :
    (evalPolynomial bv (s.map φ).encoded dVar : Outcome Err R)
      = ok (φ (s.readValue ρ dVar)) := by
  have hpoint : (collect (s.vars.map (boundVarAt bv)) : Outcome Err (List R))
      = ok ((s.vars.map ρ).map φ) := by
    rw [List.map_map, ← collect_map_ok]
    refine congrArg collect (List.map_congr_left fun v hv => ?_)
    rw [boundVarAt, hbv v hv]
    rfl
  have hbase : (UInt8.ofInt s.maxVarDegree).toNat + 1 = s.base := by
    rw [base, toNat_maxVarDegree (maxVarDegree_nonneg h.nonneg) h.degree]
  have hplace : ∀ i < 0 + (s.vars.map ρ).length, s.base ^ i < 2 ^ 31 := fun i hi =>
    h.place i (by simpa using hi)
  have hterm : ∀ t ∈ s.monomials,
      (do
        let monom ← evalMonomial s.base
          (UInt32.ofInt (offsetOf s.base s.vars t.prodOfPowers)).toInt32.toInt dVar 0
          ((s.vars.map ρ).map φ) 1
        pure (φ t.coeff * monom) : Outcome Err R)
      = ok (φ (t.coeff * powerProduct dVar 0 (s.vars.map ρ)
          (s.vars.map (readExponent s.base s.vars
            (offsetOf s.base s.vars t.prodOfPowers))))) := by
    intro t ht
    rw [toInt_offset (h.offset t ht), ← hφ.one, evalMonomial_loop hφ dVar hplace, ok_bind,
      pure_eq, hφ.mul, one_mul, map_readExponent _ s.nodup_vars, List.length_map,
      List.range_eq_range']
  rw [evalPolynomial, encoded_map]
  simp only [hbase, List.map_map, Function.comp_def]
  rw [hpoint, ok_bind, List.map_congr_left hterm, collect_map_ok, ok_bind, pure_eq, readValue,
    ← hφ.sum, List.map_map]
  rfl

omit [Double R] in
/-- Exponents below the base are read as they were written. -/
theorem Legible.readValue_eq (h : s.Legible) (ρ : String → ℝ) (dVar : ℤ) :
    s.readValue ρ dVar = s.loopValue ρ dVar := by
  refine congrArg List.sum (List.map_congr_left fun t ht => ?_)
  have hread : ∀ v ∈ s.vars,
      readExponent s.base s.vars (offsetOf s.base s.vars t.prodOfPowers) v
        = exponent t.prodOfPowers v := fun v hv =>
    readExponent_ofDigits (fun w _ => h.exponent_lt t ht w) hv
  rw [List.map_congr_left hread]

include hφ in
theorem Legible.evalPolynomial_encoded (h : s.Legible) {bv : ValueMap R} {ρ : String → ℝ}
    (hbv : ∀ v ∈ s.vars, bv v = some (φ (ρ v))) (dVar : ℤ) :
    (evalPolynomial bv (s.map φ).encoded dVar : Outcome Err R)
      = ok (φ (s.loopValue ρ dVar)) := by
  rw [h.toWritable.evalPolynomial_encoded hφ hbv, h.readValue_eq]

end MonomialSum

end Reading

/-! ### Values and formal derivatives -/

/-- A monomial as a product over all variables. -/
theorem prod_powers_vars {M : Type} [CommMonoid M] (f : String → M) {s : MonomialSum R}
    {t : Monomial R} (ht : t ∈ s.monomials) :
    (t.prodOfPowers.map fun p => f p.var.getName ^ p.pow.toNat).prod
      = (s.vars.map fun v => f v ^ exponent t.prodOfPowers v).prod :=
  prod_powers f s.nodup_vars fun p hp => s.mem_vars.mpr ⟨t, ht, p, hp, rfl⟩

/-- Without a variable to differentiate by, the factors are powers. -/
theorem powerProduct_value (ρ : String → ℝ) (e : String → ℕ) (vars : List String) {dVar : ℤ}
    {var : ℕ} (h : dVar < var) :
    powerProduct dVar var (vars.map ρ) (vars.map e) = (vars.map fun v => ρ v ^ e v).prod := by
  induction vars generalizing var with
  | nil => rfl
  | cons v vars ih =>
    rw [List.map_cons, List.map_cons, powerProduct, powerFactor, if_neg (by omega),
      ih (by push_cast; omega), List.map_cons, List.prod_cons]

/-- The factor of a variable in the derivative of a monomial with respect to `x`. -/
noncomputable def derivFactor (x : String) (ρ : String → ℝ) (e : String → ℕ) (v : String) : ℝ :=
  if v = x then e v * ρ v ^ (e v - 1) else ρ v ^ e v

theorem prod_derivFactor_of_notMem {x : String} {vars : List String} (hx : x ∉ vars)
    (ρ : String → ℝ) (e : String → ℕ) :
    (vars.map (derivFactor x ρ e)).prod = (vars.map fun v => ρ v ^ e v).prod := by
  refine congrArg List.prod (List.map_congr_left fun v hv => ?_)
  rw [derivFactor, if_neg (by rintro rfl; exact hx hv)]

/-- The loop skips none of the variables before `x`. -/
theorem powerProduct_deriv (ρ : String → ℝ) (e : String → ℕ) {vars : List String}
    (hvars : vars.Nodup) {x : String} (hx : x ∈ vars) {var : ℕ} {dVar : ℤ}
    (hdVar : dVar = var + vars.idxOf x) :
    powerProduct dVar var (vars.map ρ) (vars.map e) = (vars.map (derivFactor x ρ e)).prod := by
  induction vars generalizing var with
  | nil => simp at hx
  | cons v vars ih =>
    rw [List.nodup_cons] at hvars
    rw [List.map_cons, List.map_cons, powerProduct, List.map_cons, List.prod_cons]
    by_cases hvx : v = x
    · subst hvx
      rw [List.idxOf_cons_self, Nat.cast_zero, add_zero] at hdVar
      rw [powerProduct_value ρ e vars (by push_cast; omega),
        prod_derivFactor_of_notMem hvars.1, powerFactor, derivFactor, if_pos hdVar, if_pos rfl]
    · have hmem : x ∈ vars := (List.mem_cons.mp hx).resolve_left (Ne.symm hvx)
      rw [List.idxOf_cons_ne _ hvx] at hdVar
      push_cast at hdVar
      rw [ih hvars.2 hmem (by push_cast; omega), powerFactor, derivFactor, if_neg (by omega),
        if_neg hvx]

/-- The formal derivative of a product of powers. -/
theorem eval_pderiv_prod (ρ : String → ℝ) (e : String → ℕ) {vars : List String}
    (hvars : vars.Nodup) (x : String) :
    eval ρ (pderiv x (vars.map fun v => (X v : MvPolynomial String ℝ) ^ e v).prod)
      = if x ∈ vars then (vars.map (derivFactor x ρ e)).prod else 0 := by
  induction vars with
  | nil => simp
  | cons v vars ih =>
    rw [List.nodup_cons] at hvars
    have hprod : eval ρ (vars.map fun v => (X v : MvPolynomial String ℝ) ^ e v).prod
        = (vars.map fun v => ρ v ^ e v).prod := by
      simp [map_list_prod, List.map_map, Function.comp_def]
    rw [List.map_cons, List.prod_cons, pderiv_mul, map_add, map_mul, map_mul, ih hvars.2, hprod,
      pderiv_pow, List.map_cons, List.prod_cons]
    by_cases hvx : v = x
    · subst hvx
      rw [pderiv_X_self, if_neg hvars.1, if_pos (by simp), prod_derivFactor_of_notMem hvars.1,
        derivFactor, if_pos rfl]
      simp
    · rw [pderiv_X_of_ne hvx, derivFactor, if_neg hvx]
      simp [Ne.symm hvx]

namespace MonomialSum

variable {s : MonomialSum ℝ}

theorem loopValue_value (ρ : String → ℝ) : s.loopValue ρ (-1) = s.value ρ := by
  refine congrArg List.sum (List.map_congr_left fun t ht => ?_)
  rw [powerProduct_value ρ _ _ (by simp), prod_powers_vars ρ ht]

theorem eval_pderiv (ρ : String → ℝ) (x : String) :
    eval ρ (pderiv x s.toMvPolynomial)
      = if x ∈ s.vars then s.loopValue ρ (s.vars.idxOf x) else 0 := by
  have hterm : ∀ t ∈ s.monomials,
      eval ρ (pderiv x
        (C t.coeff * (t.prodOfPowers.map fun p => X p.var.getName ^ p.pow.toNat).prod))
      = if x ∈ s.vars then t.coeff * powerProduct (s.vars.idxOf x) 0 (s.vars.map ρ)
          (s.vars.map (exponent t.prodOfPowers)) else 0 := by
    intro t ht
    rw [pderiv_C_mul, map_mul, eval_C, prod_powers_vars X ht,
      eval_pderiv_prod ρ _ s.nodup_vars]
    split
    · next hx => rw [powerProduct_deriv ρ _ s.nodup_vars hx (by simp)]
    · rw [mul_zero]
  rw [toMvPolynomial, map_list_sum, map_list_sum, List.map_map, List.map_map]
  refine (congrArg List.sum (List.map_congr_left hterm)).trans ?_
  split
  · rfl
  · simp

end MonomialSum

/-! ### The round trip -/

theorem MonomialSum.map_id (s : MonomialSum R) : s.map id = s := by
  rw [map]
  simp

theorem bound_of_isSome {vars : List String} {bv : ValueMap ℝ}
    (h : ∀ v ∈ vars, (bv v).isSome) : ∀ v ∈ vars, bv v = some (id ((bv v).getD 0)) := by
  intro v hv
  obtain ⟨x, hx⟩ := Option.isSome_iff_exists.mp (h v hv)
  rw [hx]
  rfl

theorem evaluate_polynomial {poly : Polynomial ℝ} {bv : ValueMap ℝ} {x : ℝ}
    (h : (evalPolynomial bv poly (-1) : Outcome Err ℝ) = ok x) {af : AdvFunc ℝ}
    (hv : af.advValid = true) (name : Option String) {fuel : ℕ} (hfuel : 1 ≤ fuel) :
    (AdvFunc.evaluate fuel (.polynomial name poly) bv af).1 = ok x := by
  obtain ⟨fuel, rfl⟩ : ∃ k, fuel = k + 1 := ⟨fuel - 1, by omega⟩
  rw [AdvFunc.evaluate, (metered_polynomial h).query hv, if_pos (by decide)]

/-- Evaluating what was written. -/
theorem MonomialSum.Writable.evaluate_eq {s : MonomialSum ℝ} (h : s.Writable) {af : AdvFunc ℝ}
    (hv : af.advValid = true) {bv : ValueMap ℝ} (hbv : ∀ v ∈ s.vars, (bv v).isSome)
    (name : Option String) {fuel : ℕ} (hfuel : 1 ≤ fuel) :
    (AdvFunc.evaluate fuel (.polynomial name s.encoded) bv af).1
      = ok (s.readValue (fun v => (bv v).getD 0) (-1)) := by
  have hread := h.evalPolynomial_encoded exact_id (bound_of_isSome hbv) (-1)
  rw [s.map_id] at hread
  exact evaluate_polynomial hread hv name hfuel

namespace MonomialSum.Legible

variable [Double R] {φ : ℝ → R} (hφ : Exact φ) {s : MonomialSum ℝ} (h : s.Legible)
variable {bv : ValueMap R} {ρ : String → ℝ}

include hφ h

theorem evalPolynomial_eq (hbv : ∀ v ∈ s.vars, bv v = some (φ (ρ v))) :
    (evalPolynomial bv (s.map φ).encoded (-1) : Outcome Err R) = ok (φ (s.value ρ)) := by
  rw [h.evalPolynomial_encoded hφ hbv, loopValue_value]

theorem derivPolynomial_eq (hbv : ∀ v ∈ s.vars, bv v = some (φ (ρ v))) (x : String) :
    (derivPolynomial bv (s.map φ).encoded x : Outcome Err R)
      = ok (φ (eval ρ (pderiv x s.toMvPolynomial))) := by
  have hvars : (s.map φ).encoded.vars = s.vars := by rw [encoded_map]
  simp only [derivPolynomial, hvars, List.idxOf_lt_length_iff, eval_pderiv]
  split
  · rw [h.evalPolynomial_encoded hφ hbv]
  · rw [hφ.zero]
    rfl

end MonomialSum.Legible

/-- **Round trip.**  The message written for a polynomial that fits evaluates to the
value of the polynomial and differentiates to the value of its formal partial
derivative. -/
theorem buildPolynomial_roundTrip {s : MonomialSum ℝ} (h : s.Fits) {af : AdvFunc ℝ}
    (hv : af.advValid = true) {bv : ValueMap ℝ} (hbv : ∀ v ∈ s.vars, (bv v).isSome)
    (name : Option String) (x : String) :
    ∃ poly, (buildPolynomial s : Outcome Err (Polynomial ℝ)) = ok poly ∧ ∀ fuel, 1 ≤ fuel →
      (AdvFunc.evaluate fuel (.polynomial name poly) bv af).1
          = ok (s.value fun v => (bv v).getD 0) ∧
        (AdvFunc.evalPartialDerivative fuel (.polynomial name poly) x bv af).1
          = ok (eval (fun v => (bv v).getD 0) (pderiv x s.toMvPolynomial)) := by
  refine ⟨s.encoded, h.writable.buildPolynomial_eq, fun fuel hfuel => ?_⟩
  constructor
  · rw [h.writable.evaluate_eq hv hbv name hfuel, h.legible.readValue_eq,
      MonomialSum.loopValue_value]
  · obtain ⟨fuel, rfl⟩ : ∃ k, fuel = k + 1 := ⟨fuel - 1, by omega⟩
    have hderiv := h.legible.derivPolynomial_eq exact_id (bound_of_isSome hbv) x
    rw [s.map_id] at hderiv
    rw [AdvFunc.evalPartialDerivative, (metered_derivPolynomial hderiv).query hv,
      if_pos (by decide)]
    rfl

/-- The polynomial `P^2 + 3*P*Q^3`. -/
noncomputable def samplePolynomial : MonomialSum ℝ :=
  ⟨[⟨1, [⟨⟨"P"⟩, 2⟩]⟩, ⟨3, [⟨⟨"P"⟩, 1⟩, ⟨⟨"Q"⟩, 3⟩]⟩]⟩

theorem samplePolynomial_fits : samplePolynomial.Fits where
  nonneg := by simp [samplePolynomial]
  distinct := by simp [samplePolynomial]
  degree := by decide
  size := by decide

theorem buildPolynomial_roundTrip_sample :
    ∃ poly, (buildPolynomial samplePolynomial : Outcome Err (Polynomial ℝ)) = ok poly ∧
      ∀ fuel, 1 ≤ fuel →
        (AdvFunc.evaluate fuel (.polynomial none poly) (bindPQ 3 5)
            (AdvFunc.new ⟨none, none, none, []⟩).2).1 = ok 1134 ∧
          (AdvFunc.evalPartialDerivative fuel (.polynomial none poly) "P" (bindPQ 3 5)
            (AdvFunc.new ⟨none, none, none, []⟩).2).1 = ok 381 := by
  have hbv : ∀ v ∈ samplePolynomial.vars, (bindPQ (3 : ℝ) 5 v).isSome := by
    have hvars : samplePolynomial.vars = ["P", "Q"] := by decide
    simp [hvars]
  have hv : ((AdvFunc.new ⟨none, none, none, []⟩).2 : AdvFunc ℝ).advValid = true := rfl
  obtain ⟨poly, hpoly, h⟩ := buildPolynomial_roundTrip samplePolynomial_fits hv hbv none "P"
  refine ⟨poly, hpoly, fun fuel hfuel => ?_⟩
  obtain ⟨hval, hderiv⟩ := h fuel hfuel
  rw [hval, hderiv]
  constructor
  · simp [MonomialSum.value, samplePolynomial]
    norm_num
  · have hQ : pderiv "P" (X "Q" : MvPolynomial String ℝ) = 0 := pderiv_X_of_ne (by decide)
    simp [MonomialSum.toMvPolynomial, samplePolynomial, hQ]
    norm_num

end Commelec
