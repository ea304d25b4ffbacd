/-
Commelec/PolynomialFields.lean

The integers of a polynomial message: what the encoder writes, and what the decoder
reads.

The numbers of the message are unsigned (8 bits for the degree, 32 for an offset), the
variables they come from and go to are `int`s, and the place values `d ^ i` are powers of
`double`s that are converted to `int`.

* The encoder stores the degree without a look at its size.  An offset is exact when no
  `int` overflows (`writesExactly_iff`).
* The decoder takes an offset of `2 ^ 31` or more for a negative number, and the digits of
  that are not those of the offset (`signedDigit_eq_iff`).  It converts `d ^ var` for every
  variable it comes to, whatever its size (`readExponents_iff`).
-/
import Commelec.MonomialProduct

namespace Commelec

open Effectful Outcome

variable {R : Type}

/-! ### Steps that may be undefined -/

/-- The computation returns, or comes to an undefined step. -/
def OkOrUndefined {α : Type} (x : Outcome Err α) : Prop :=
  (∃ a, x = ok a) ∨ x = .throw .undefined

namespace OkOrUndefined

variable {α β : Type}

theorem pure (a : α) : OkOrUndefined (Pure.pure a : Outcome Err α) := Or.inl ⟨a, rfl⟩

theorem bind {x : Outcome Err α} {f : α → Outcome Err β} (hx : OkOrUndefined x)
    (hf : ∀ a, x = ok a → OkOrUndefined (f a)) : OkOrUndefined (x >>= f) := by
  rcases hx with ⟨a, rfl⟩ | rfl
  · exact hf a rfl
  · exact Or.inr rfl

theorem collect {xs : List (Outcome Err α)} (h : ∀ x ∈ xs, OkOrUndefined x) :
    OkOrUndefined (collect xs) := by
  induction xs with
  | nil => exact pure []
  | cons x xs ih =>
    have hxs := ih fun x hx => h x (by simp [hx])
    exact (h x (by simp)).bind fun a _ => hxs.bind fun as _ => pure (a :: as)

theorem exists_ok {x : Outcome Err α} (h : OkOrUndefined x) (hne : x ≠ .throw .undefined) :
    ∃ a, x = ok a := h.resolve_right hne

theorem checkedInt (z : ℤ) : OkOrUndefined (Commelec.checkedInt z : Outcome Err ℤ) := by
  rw [Commelec.checkedInt]
  split
  · exact pure z
  · exact Or.inr rfl

theorem intPow (d var : ℕ) : OkOrUndefined (Commelec.intPow d var : Outcome Err ℤ) := by
  rw [Commelec.intPow]
  split
  · exact pure _
  · exact Or.inr rfl

theorem monomialOffset {vars : List String} {d : ℤ} {powers : List Power}
    (hin : ∀ p ∈ powers, p.var.getName ∈ vars) (acc : ℤ) :
    OkOrUndefined (Commelec.monomialOffset vars d powers acc : Outcome Err ℤ) := by
  induction powers generalizing acc with
  | nil => exact pure acc
  | cons p powers ih =>
    have hi : vars.idxOf p.var.getName < vars.length :=
      List.idxOf_lt_length_iff.mpr (hin p (by simp))
    rw [Commelec.monomialOffset, if_pos hi]
    exact (checkedInt _).bind fun _ _ => (checkedInt _).bind fun _ _ =>
      (checkedInt _).bind fun sum _ => ih (fun q hq => hin q (by simp [hq])) sum

/-- The encoder reports no error. -/
theorem buildPolynomial (s : MonomialSum R) :
    OkOrUndefined (Commelec.buildPolynomial s : Outcome Err (Polynomial R)) := by
  refine (checkedInt _).bind fun d _ => (collect fun x hx => ?_).bind fun coeffs _ => pure _
  obtain ⟨t, ht, rfl⟩ := List.mem_map.mp hx
  have hin : ∀ p ∈ t.prodOfPowers, p.var.getName ∈ s.vars := fun p hp =>
    s.mem_vars.mpr ⟨t, ht, p, hp, rfl⟩
  exact (monomialOffset hin 0).bind fun offset _ => pure _

end OkOrUndefined

/-! ### Writing -/

/-- The terms of an offset add up to the number whose digits are the exponents. -/
theorem sum_places_eq {d : ℕ} {vars : List String} (hvars : vars.Nodup) {powers : List Power}
    (hpow : ∀ p ∈ powers, 0 ≤ p.pow) (hin : ∀ p ∈ powers, p.var.getName ∈ vars) :
    (powers.map fun p => p.pow * (d : ℤ) ^ vars.idxOf p.var.getName).sum
      = (offsetOf d vars powers : ℤ) := by
  induction powers with
  | nil => rw [offsetOf, exponent_nil, List.map_const', Nat.ofDigits_replicate_zero]; rfl
  | cons p powers ih =>
    rw [List.map_cons, List.sum_cons, offsetOf_cons d hvars (hin p (by simp)),
      ih (fun q hq => hpow q (by simp [hq])) fun q hq => hin q (by simp [hq])]
    push_cast
    rw [Int.toNat_of_nonneg (hpow p (by simp))]

namespace MonomialSum

variable (s : MonomialSum R)

/-- The offset of a monomial, as an integer. -/
def exactOffset (t : Monomial R) : ℤ :=
  (t.prodOfPowers.map fun p =>
    p.pow * (s.maxVarDegree + 1) ^ s.vars.idxOf p.var.getName).sum

/-- The numbers of the message are the ones that are meant. -/
structure ExactFields (poly : Polynomial R) : Prop where
  maxVarDegree : (poly.maxVarDegree.toNat : ℤ) = s.maxVarDegree
  offsets : (poly.coefficients.map fun c => (c.offset.toNat : ℤ))
    = s.monomials.map s.exactOffset

/-- The encoder reports an error, or the numbers it has written are the ones that are
meant. -/
def WritesExactly : Prop :=
  match (buildPolynomial s : Outcome Err (Polynomial R)) with
  | .ok poly => s.ExactFields poly
  | .throw e => e ≠ .undefined
  | .outOfFuel => False

variable {s}

theorem exactOffset_eq (hpow : ∀ t ∈ s.monomials, ∀ p ∈ t.prodOfPowers, 0 ≤ p.pow)
    {t : Monomial R} (ht : t ∈ s.monomials) :
    s.exactOffset t = (offsetOf s.base s.vars t.prodOfPowers : ℤ) := by
  have hin : ∀ p ∈ t.prodOfPowers, p.var.getName ∈ s.vars := fun p hp =>
    s.mem_vars.mpr ⟨t, ht, p, hp, rfl⟩
  rw [exactOffset, ← natCast_base hpow, sum_places_eq s.nodup_vars (hpow t ht) hin]

theorem Writable.exactFields (h : s.Writable) : s.ExactFields s.encoded where
  maxVarDegree := by
    have h0 := maxVarDegree_nonneg h.nonneg
    show ((UInt8.ofInt s.maxVarDegree).toNat : ℤ) = _
    rw [toNat_maxVarDegree h0 h.degree, Int.toNat_of_nonneg h0]
  offsets := by
    rw [encoded, List.map_map]
    refine List.map_congr_left fun t ht => ?_
    have hlt := h.offset t ht
    show ((UInt32.ofInt (offsetOf s.base s.vars t.prodOfPowers)).toNat : ℤ) = _
    rw [exactOffset_eq h.nonneg ht]
    simp only [UInt32.ofInt, UInt32.toNat_ofNat']
    omega

/-- The place value of the last variable is the largest one. -/
theorem forall_place_iff : (∀ i < s.vars.length, s.base ^ i < 2 ^ 31) ↔
    s.base ^ (s.vars.length - 1) < 2 ^ 31 := by
  constructor
  · intro h
    rcases Nat.eq_zero_or_pos s.vars.length with h0 | hpos
    · rw [h0]
      norm_num
    · exact h _ (by omega)
  · intro h i hi
    exact (Nat.pow_le_pow_right (Nat.succ_pos _) (by omega)).trans_lt h

/-- **When the encoder writes no wrapped field**: the largest power is at most 255, and
the place value of the last variable and every offset are below `2 ^ 31`. -/
theorem writesExactly_iff (hpow : ∀ t ∈ s.monomials, ∀ p ∈ t.prodOfPowers, 0 ≤ p.pow) :
    s.WritesExactly ↔ s.maxVarDegree ≤ 255 ∧
      (s.maxVarDegree + 1) ^ (s.vars.length - 1) < 2 ^ 31 ∧
      ∀ t ∈ s.monomials, s.exactOffset t < 2 ^ 31 := by
  have hplace : (s.maxVarDegree + 1) ^ (s.vars.length - 1) < 2 ^ 31 ↔
      ∀ i < s.vars.length, s.base ^ i < 2 ^ 31 := by
    rw [forall_place_iff, ← natCast_base hpow]
    norm_cast
  constructor
  · intro h
    rw [WritesExactly] at h
    split at h
    · next poly hpoly =>
      have hdegree : s.maxVarDegree ≤ 255 := by
        have := h.maxVarDegree
        have := poly.maxVarDegree.toNat_lt
        omega
      have hwrite := writable_of_buildPolynomial hpow hdegree hpoly
      refine ⟨hdegree, hplace.mpr hwrite.place, fun t ht => ?_⟩
      rw [exactOffset_eq hpow ht]
      exact_mod_cast hwrite.offset t ht
    · next e he =>
      -- no error is reported
      rcases OkOrUndefined.buildPolynomial s with ⟨poly, hpoly⟩ | hundef
      · simp [hpoly] at he
      · exact absurd (by simpa [hundef] using he.symm) h
    · exact h.elim
  · rintro ⟨hdegree, hlast, hoffset⟩
    have hwrite : s.Writable := by
      refine ⟨hpow, hdegree, hplace.mp hlast, fun t ht => ?_⟩
      have := hoffset t ht
      rw [exactOffset_eq hpow ht] at this
      exact_mod_cast this
    rw [WritesExactly, hwrite.buildPolynomial_eq]
    exact hwrite.exactFields

end MonomialSum

/-- `X ^ p + Y` -/
noncomputable def sumOfPower (p : ℤ) : MonomialSum ℝ :=
  ((PolyVar.mk "X").pow p).add (PolyVar.mk "Y").monomial

theorem writesExactly_sample : (sumOfPower 2).WritesExactly :=
  (MonomialSum.writesExactly_iff (by
    simp [sumOfPower, Monomial.add, PolyVar.pow, PolyVar.monomial])).mpr ⟨by decide, by decide, by
      simp only [sumOfPower, Monomial.add, List.forall_mem_cons]
      exact ⟨by decide, by decide, by simp⟩⟩

/-- The degree of `X ^ 256 + Y` is stored as 0. -/
theorem large_degree_wraps :
    (∀ t ∈ (sumOfPower 256).monomials, (∀ p ∈ t.prodOfPowers, 0 ≤ p.pow ∧ p.pow < 2 ^ 31) ∧
      (t.prodOfPowers.map fun p => p.var.getName).Nodup) ∧
    (buildPolynomial (sumOfPower 256) : Outcome Err (Polynomial ℝ))
      = ok ⟨["X", "Y"], 0, [⟨256, 1⟩, ⟨257, 1⟩]⟩ ∧
    (sumOfPower 256).maxVarDegree = 256 ∧ ¬ (sumOfPower 256).WritesExactly := by
  have hbuild : (buildPolynomial (sumOfPower 256) : Outcome Err (Polynomial ℝ))
      = ok ⟨["X", "Y"], 0, [⟨256, 1⟩, ⟨257, 1⟩]⟩ := rfl
  refine ⟨?_, hbuild, rfl, fun h => ?_⟩
  · simp [sumOfPower, Monomial.add, PolyVar.pow, PolyVar.monomial]
  · rw [MonomialSum.WritesExactly, hbuild] at h
    exact absurd h.maxVarDegree (by decide)

/-! ### Reading -/

section Loop

variable {m : Type → Type} [Effects Err m]

/-- The exponents that the loop over the variables computes, from variable `var` on.  The
loop breaks off where the variable of the derivative has exponent 0. -/
def readExponents (d : ℕ) (offset dVar : ℤ) : ℕ → ℕ → m (List ℤ)
  | _, 0 => pure []
  | var, n + 1 => do
    let k ← intPow d var
    let rem := (offset.tdiv k).tmod d
    if dVar = var ∧ rem = 0 then
      pure [rem]
    else do
      let rems ← readExponents d offset dVar (var + 1) n
      pure (rem :: rems)

open Double in
/-- The powers with these exponents, multiplied with `monom`. -/
def multPowers [Double R] (dVar : ℤ) : ℕ → List R → List ℤ → R → R
  | var, x :: evalpoint, rem :: rems, monom =>
    if dVar = var then
      if rem = 0 then 0
      else if 1 < rem then
        multPowers dVar (var + 1) evalpoint rems (monom * (lit rem * pow x (lit (rem - 1))))
      else multPowers dVar (var + 1) evalpoint rems monom
    else multPowers dVar (var + 1) evalpoint rems (monom * pow x (lit rem))
  | _, _, _, monom => monom

end Loop

/-- **What the decoder does with an offset**: it reads the exponents, and multiplies the
powers. -/
theorem evalMonomial_eq [Double R] (d : ℕ) (offset dVar : ℤ) (var : ℕ) (evalpoint : List R)
    (monom : R) :
    (evalMonomial d offset dVar var evalpoint monom : Outcome Err R) = (do
      let rems ← readExponents d offset dVar var evalpoint.length
      pure (multPowers dVar var evalpoint rems monom)) := by
  induction evalpoint generalizing var monom with
  | nil => rfl
  | cons x evalpoint ih =>
    rw [evalMonomial, List.length_cons, readExponents]
    rcases (intPow d var : Outcome Err ℤ) with k | e | -
    · simp only [ok_bind]
      generalize (offset.tdiv k).tmod d = rem
      by_cases hbreak : dVar = var ∧ rem = 0
      · rw [if_pos hbreak.1, if_pos hbreak.2, if_pos hbreak, pure_eq, pure_eq, ok_bind,
          multPowers, if_pos hbreak.1, if_pos hbreak.2]
        rfl
      · -- the loop goes on, with another factor or without
        have hnext : ∀ monom',
            (∀ rems, multPowers dVar var (x :: evalpoint) (rem :: rems) monom
              = multPowers dVar (var + 1) evalpoint rems monom') →
            (evalMonomial d offset dVar (var + 1) evalpoint monom' : Outcome Err R) = (do
              let rems ← (do
                let rems ← readExponents d offset dVar (var + 1) evalpoint.length
                pure (rem :: rems))
              pure (multPowers dVar var (x :: evalpoint) rems monom)) := by
          intro monom' hmult
          rw [ih]
          rcases (readExponents d offset dVar (var + 1) evalpoint.length : Outcome Err _)
            with rems | e | -
          · simp [hmult]
          · rfl
          · rfl
        rw [if_neg hbreak]
        by_cases hvar : dVar = var
        · have hrem : rem ≠ 0 := fun h => hbreak ⟨hvar, h⟩
          rw [if_pos hvar, if_neg hrem]
          split
          · next hlt => exact hnext _ fun rems => by simp [multPowers, hvar, hrem, hlt]
          · next hle => exact hnext _ fun rems => by simp [multPowers, hvar, hrem, hle]
        · rw [if_neg hvar]
          exact hnext _ fun rems => by simp [multPowers, hvar]
    · rfl
    · rfl

/-! ### The digits of a negative number -/

/-- Digit number `i` that the decoder computes. -/
def signedDigit (d : ℕ) (offset : UInt32) (i : ℕ) : ℤ :=
  (offset.toInt32.toInt.tdiv ((d ^ i : ℕ) : ℤ)).tmod d

theorem tdiv_tmod_natCast (d n i : ℕ) :
    ((n : ℤ).tdiv ((d ^ i : ℕ) : ℤ)).tmod d = (offsetDigit d n i : ℤ) := by
  rw [← Int.ofNat_tdiv, ← Int.ofNat_tmod, offsetDigit]

/-- The offset as an `int`. -/
theorem toInt_toInt32 (offset : UInt32) : offset.toInt32.toInt
    = if offset.toNat < 2 ^ 31 then (offset.toNat : ℤ) else -((2 ^ 32 - offset.toNat : ℕ) : ℤ) := by
  have hlt := offset.toNat_lt
  show (offset.toBitVec).toInt = _
  rw [BitVec.toInt_eq_toNat_cond]
  show (if 2 * offset.toNat < 2 ^ 32 then _ else _) = _
  split
  · rw [if_pos (by omega)]
    rfl
  · rw [if_neg (by omega)]
    show (offset.toNat : ℤ) - _ = _
    omega

/-- **The digits of an offset are read** when it is below `2 ^ 31`; a digit of a larger one
only when it is zero, and so is that of the offset taken from `2 ^ 32`. -/
theorem signedDigit_eq_iff {d : ℕ} {offset : UInt32} {i : ℕ} :
    signedDigit d offset i = (offsetDigit d offset.toNat i : ℤ) ↔
      offset.toNat < 2 ^ 31 ∨
        offsetDigit d offset.toNat i = 0 ∧ offsetDigit d (2 ^ 32 - offset.toNat) i = 0 := by
  rw [signedDigit, toInt_toInt32]
  by_cases h : offset.toNat < 2 ^ 31
  · rw [if_pos h, tdiv_tmod_natCast]
    exact iff_of_true rfl (Or.inl h)
  · rw [if_neg h, Int.neg_tdiv, Int.neg_tmod, tdiv_tmod_natCast]
    omega

/-! ### What the loop reads -/

/-- The loop comes to variable `i`: it does not break off before. -/
def Comes (d offset : ℕ) (dVar : ℤ) (i : ℕ) : Prop :=
  ∀ j < i, dVar = j → offsetDigit d offset j ≠ 0

/-- One step of the loop. -/
theorem readExponents_succ (d : ℕ) (offset : UInt32) (dVar : ℤ) (var n : ℕ)
    (hplace : d ^ var < 2 ^ 31) :
    (readExponents d offset.toInt32.toInt dVar var (n + 1) : Outcome Err (List ℤ))
      = if dVar = var ∧ signedDigit d offset var = 0 then ok [signedDigit d offset var]
        else (do
          let rems ← readExponents d offset.toInt32.toInt dVar (var + 1) n
          pure (signedDigit d offset var :: rems)) := by
  rw [readExponents, intPow, if_pos hplace]
  rfl

theorem OkOrUndefined.readExponents (d : ℕ) (offset dVar : ℤ) (var n : ℕ) :
    OkOrUndefined (Commelec.readExponents d offset dVar var n : Outcome Err (List ℤ)) := by
  induction n generalizing var with
  | zero => exact pure []
  | succ n ih =>
    refine (intPow d var).bind fun k _ => ?_
    dsimp only
    split
    · exact pure _
    · exact (ih (var + 1)).bind fun rems _ => pure _

/-- The exponents read from variable `var` on are the digits of the offset. -/
def AreDigits (d offset var : ℕ) (rems : List ℤ) : Prop :=
  ∀ i (h : i < rems.length), rems[i] = (offsetDigit d offset (var + i) : ℤ)

theorem areDigits_cons {d offset var : ℕ} {rem : ℤ} {rems : List ℤ} :
    AreDigits d offset var (rem :: rems) ↔
      rem = (offsetDigit d offset var : ℤ) ∧ AreDigits d offset (var + 1) rems := by
  constructor
  · intro h
    refine ⟨h 0 (by simp), fun i hi => ?_⟩
    have := h (i + 1) (by simpa using hi)
    rw [List.getElem_cons_succ] at this
    rw [this, Nat.add_right_comm, Nat.add_assoc]
  · rintro ⟨h0, h⟩ i hi
    cases i with
    | zero => exact h0
    | succ i =>
      rw [List.getElem_cons_succ, h i (by simpa using hi), Nat.add_right_comm, Nat.add_assoc]

/-- The step of the loop at variable `i` is defined and finds the digit of the offset. -/
def ReadsAt (d : ℕ) (offset : UInt32) (i : ℕ) : Prop :=
  d ^ i < 2 ^ 31 ∧ signedDigit d offset i = (offsetDigit d offset.toNat i : ℤ)

/-- **The loop reads the digits of the offset** when every step that it comes to does. -/
theorem readExponents_iff (d : ℕ) (offset : UInt32) (dVar : ℤ) (var n : ℕ) :
    (∃ rems, (readExponents d offset.toInt32.toInt dVar var n : Outcome Err _) = ok rems ∧
        AreDigits d offset.toNat var rems) ↔
      ∀ i, var ≤ i → i < var + n →
        (∀ j, var ≤ j → j < i → dVar = j → offsetDigit d offset.toNat j ≠ 0) →
          ReadsAt d offset i := by
  induction n generalizing var with
  | zero =>
    refine iff_of_true ⟨[], rfl, fun i h => absurd h (by simp)⟩ fun i hi hlt => ?_
    omega
  | succ n ih =>
    constructor
    · rintro ⟨rems, hread, hdigits⟩
      have hplace : d ^ var < 2 ^ 31 := by
        by_contra hlarge
        rw [readExponents, intPow, if_neg hlarge] at hread
        simp at hread
      rw [readExponents_succ d offset dVar var n hplace] at hread
      split at hread
      · next hbreak =>
        obtain rfl := Outcome.ok.inj hread
        have hdigit := (areDigits_cons.mp hdigits).1
        intro i hi _ hcomes
        rcases Nat.eq_or_lt_of_le hi with rfl | hlt
        · exact ⟨hplace, hdigit⟩
        · -- the loop does not come to `i`
          have hne := hcomes var le_rfl hlt hbreak.1
          rw [hbreak.2] at hdigit
          omega
      · obtain ⟨rems', hread', hcons⟩ := bind_eq_ok.mp hread
        obtain rfl := Outcome.ok.inj hcons
        obtain ⟨hdigit, hdigits'⟩ := areDigits_cons.mp hdigits
        have htail := (ih (var + 1)).mp ⟨rems', hread', hdigits'⟩
        intro i hi hlt hcomes
        rcases Nat.eq_or_lt_of_le hi with rfl | hlt'
        · exact ⟨hplace, hdigit⟩
        · exact htail i hlt' (by omega) fun j hj => hcomes j (by omega)
    · intro h
      obtain ⟨hplace, hdigit⟩ := h var le_rfl (by omega) fun j hj hlt => by omega
      rw [readExponents_succ d offset dVar var n hplace]
      split
      · exact ⟨_, rfl, areDigits_cons.mpr ⟨hdigit, fun i hi => absurd hi (by simp)⟩⟩
      · next hgo =>
        have htail := (ih (var + 1)).mpr fun i hi hlt hcomes => by
          refine h i (by omega) (by omega) fun j hj hji hdVar => ?_
          rcases Nat.eq_or_lt_of_le hj with rfl | hj'
          · rw [hdigit] at hgo
            exact fun h0 => hgo ⟨hdVar, by rw [h0]; rfl⟩
          · exact hcomes j hj' hji hdVar
        obtain ⟨rems, hread, hdigits⟩ := htail
        rw [hread]
        exact ⟨_, rfl, areDigits_cons.mpr ⟨hdigit, hdigits⟩⟩

/-! ### Messages -/

namespace Polynomial

variable [Double R] (poly : Polynomial R)

/-- The base of the offsets. -/
def radix : ℕ := poly.maxVarDegree.toNat + 1

/-- The arithmetic of the decoder is safe: no step is undefined, every divisor is positive,
and the exponents that are used are the digits of the unsigned offsets. -/
structure ReadsSafely (boundVars : ValueMap R) (dVar : ℤ) : Prop where
  defined : (evalPolynomial boundVars poly dVar : Outcome Err R) ≠ .throw .undefined
  divisors : 0 < poly.radix ∧
    ∀ var k, (intPow poly.radix var : Outcome Err ℤ) = ok k → 0 < k
  digits : ∀ coeff ∈ poly.coefficients, ∀ rems,
    (readExponents poly.radix coeff.offset.toInt32.toInt dVar 0 poly.vars.length
      : Outcome Err (List ℤ)) = ok rems →
    AreDigits poly.radix coeff.offset.toNat 0 rems ∧
      ∀ rem ∈ rems, 0 ≤ rem ∧ rem ≤ poly.maxVarDegree.toNat

variable {poly} {boundVars : ValueMap R} {dVar : ℤ}

omit [Double R] in
theorem intPow_pos {var : ℕ} {k : ℤ} (h : (intPow poly.radix var : Outcome Err ℤ) = ok k) :
    0 < k := by
  rw [intPow] at h
  split at h
  · obtain rfl := Outcome.ok.inj h
    exact_mod_cast Nat.pow_pos (Nat.succ_pos _)
  · simp at h

omit [Double R] in
/-- A digit is at most the largest power. -/
theorem le_of_areDigits {offset : ℕ} {rems : List ℤ} (h : AreDigits poly.radix offset 0 rems) :
    ∀ rem ∈ rems, 0 ≤ rem ∧ rem ≤ poly.maxVarDegree.toNat := by
  intro rem hrem
  obtain ⟨i, hi, rfl⟩ := List.getElem_of_mem hrem
  have hlt : offsetDigit poly.radix offset (0 + i) < poly.radix := Nat.mod_lt _ (Nat.succ_pos _)
  rw [h i hi]
  rw [radix] at hlt ⊢
  omega

/-- The values of the variables. -/
def boundPoint (poly : Polynomial R) (boundVars : ValueMap R) : List R :=
  poly.vars.map fun v => (boundVars v).getD 0

/-- One step of the loop over the coefficients, after the exponents are read. -/
def decodedTerm (poly : Polynomial R) (boundVars : ValueMap R) (dVar : ℤ)
    (coeff : SparseCoeff R) : Outcome Err R := do
  let rems ← readExponents poly.radix coeff.offset.toInt32.toInt dVar 0 poly.vars.length
  pure (coeff.value * multPowers dVar 0 (poly.boundPoint boundVars) rems 1)

theorem collect_boundVarAt (hbound : ∀ v ∈ poly.vars, (boundVars v).isSome) :
    (collect (poly.vars.map (boundVarAt boundVars)) : Outcome Err (List R))
      = ok (poly.boundPoint boundVars) := by
  rw [boundPoint, ← collect_map_ok]
  refine congrArg collect (List.map_congr_left fun v hv => ?_)
  obtain ⟨x, hx⟩ := Option.isSome_iff_exists.mp (hbound v hv)
  rw [boundVarAt, hx]
  rfl

/-- Where the variables are bound, the decoder adds up the terms. -/
theorem evalPolynomial_eq_terms (hbound : ∀ v ∈ poly.vars, (boundVars v).isSome) :
    (evalPolynomial boundVars poly dVar : Outcome Err R)
      = collect (poly.coefficients.map (poly.decodedTerm boundVars dVar)) >>= fun terms =>
        ok (terms.foldl (· + ·) 0) := by
  have hlen : (poly.boundPoint boundVars).length = poly.vars.length := List.length_map _
  have hterm : ∀ coeff : SparseCoeff R, (do
      let monom ← evalMonomial (poly.maxVarDegree.toNat + 1) coeff.offset.toInt32.toInt dVar 0
        (poly.boundPoint boundVars) 1
      pure (coeff.value * monom) : Outcome Err R) = poly.decodedTerm boundVars dVar coeff := by
    intro coeff
    rw [evalMonomial_eq, hlen, decodedTerm, radix]
    rcases (readExponents (poly.maxVarDegree.toNat + 1) coeff.offset.toInt32.toInt dVar 0
      poly.vars.length : Outcome Err (List ℤ)) with rems | e | -
    all_goals rfl
  rw [evalPolynomial, collect_boundVarAt hbound, ok_bind]
  simp only [hterm]
  rfl

/-- Where the variables are bound, the decoder is undefined only where it reads an offset. -/
theorem evalPolynomial_defined_iff (hbound : ∀ v ∈ poly.vars, (boundVars v).isSome) :
    (evalPolynomial boundVars poly dVar : Outcome Err R) ≠ .throw .undefined ↔
      ∀ coeff ∈ poly.coefficients, ∃ rems,
        (readExponents poly.radix coeff.offset.toInt32.toInt dVar 0 poly.vars.length
          : Outcome Err (List ℤ)) = ok rems := by
  have hterm : ∀ coeff, OkOrUndefined (poly.decodedTerm boundVars dVar coeff) := fun coeff =>
    (OkOrUndefined.readExponents _ _ _ _ _).bind fun rems _ => .pure _
  rw [evalPolynomial_eq_terms hbound]
  constructor
  · intro hne coeff hcoeff
    have hterms :
        OkOrUndefined (collect (poly.coefficients.map (poly.decodedTerm boundVars dVar))) := by
      refine .collect fun x hx => ?_
      obtain ⟨coeff, -, rfl⟩ := List.mem_map.mp hx
      exact hterm coeff
    obtain ⟨terms, hterms⟩ := hterms.exists_ok fun h => hne (by rw [h, throw_bind])
    obtain ⟨value, hvalue⟩ := exists_of_collect_map hterms hcoeff
    obtain ⟨rems, hrems, -⟩ := bind_eq_ok.mp hvalue
    exact ⟨rems, hrems⟩
  · intro hread
    refine Spares.map (collect_spares fun x hx => ?_) _
    obtain ⟨coeff, hcoeff, rfl⟩ := List.mem_map.mp hx
    obtain ⟨rems, hrems⟩ := hread coeff hcoeff
    rw [decodedTerm, hrems, ok_bind]
    exact .pure _

/-- **When the decoder's arithmetic is safe**: for each coefficient, at each variable the
loop comes to, the place value is below `2 ^ 31`, and the offset is below `2 ^ 31` or its
digit is zero, as that of the negative number it is taken for. -/
theorem readsSafely_iff (hbound : ∀ v ∈ poly.vars, (boundVars v).isSome) :
    poly.ReadsSafely boundVars dVar ↔
      ∀ coeff ∈ poly.coefficients, ∀ i < poly.vars.length,
        Comes poly.radix coeff.offset.toNat dVar i →
        poly.radix ^ i < 2 ^ 31 ∧ (coeff.offset.toNat < 2 ^ 31 ∨
          offsetDigit poly.radix coeff.offset.toNat i = 0 ∧
            offsetDigit poly.radix (2 ^ 32 - coeff.offset.toNat) i = 0) := by
  have hcoeff : ∀ coeff : SparseCoeff R,
      (∃ rems, (readExponents poly.radix coeff.offset.toInt32.toInt dVar 0 poly.vars.length
          : Outcome Err (List ℤ)) = ok rems ∧ AreDigits poly.radix coeff.offset.toNat 0 rems) ↔
        ∀ i < poly.vars.length, Comes poly.radix coeff.offset.toNat dVar i →
          ReadsAt poly.radix coeff.offset i := by
    intro coeff
    rw [readExponents_iff]
    constructor
    · intro h i hi hcomes
      exact h i (Nat.zero_le _) (by simpa using hi) fun j _ => hcomes j
    · intro h i _ hi hcomes
      exact h i (by simpa using hi) fun j => hcomes j (Nat.zero_le _)
  constructor
  · intro h coeff hmem i hi hcomes
    obtain ⟨rems, hrems⟩ := (evalPolynomial_defined_iff hbound).mp h.defined coeff hmem
    obtain ⟨hplace, hdigit⟩ := (hcoeff coeff).mp
      ⟨rems, hrems, (h.digits coeff hmem rems hrems).1⟩ i hi hcomes
    exact ⟨hplace, signedDigit_eq_iff.mp hdigit⟩
  · intro h
    have hread : ∀ coeff ∈ poly.coefficients, ∃ rems,
        (readExponents poly.radix coeff.offset.toInt32.toInt dVar 0 poly.vars.length
          : Outcome Err (List ℤ)) = ok rems ∧
        AreDigits poly.radix coeff.offset.toNat 0 rems := by
      intro coeff hmem
      refine (hcoeff coeff).mpr fun i hi hcomes => ?_
      obtain ⟨hplace, hdigit⟩ := h coeff hmem i hi hcomes
      exact ⟨hplace, signedDigit_eq_iff.mpr hdigit⟩
    refine ⟨(evalPolynomial_defined_iff hbound).mpr fun coeff hmem => ?_,
      ⟨Nat.succ_pos _, fun _ _ => intPow_pos⟩, fun coeff hmem rems hrems => ?_⟩
    · obtain ⟨rems, hrems, -⟩ := hread coeff hmem
      exact ⟨rems, hrems⟩
    · obtain ⟨rems', hrems', hdigits⟩ := hread coeff hmem
      obtain rfl : rems' = rems := Outcome.ok.inj (hrems'.symm.trans hrems)
      exact ⟨hdigits, le_of_areDigits hdigits⟩

end Polynomial

/-- A polynomial in `P` with the given offset in base 2. -/
noncomputable def binaryOffset (offset : UInt32) : Polynomial ℝ := ⟨["P"], 1, [⟨offset, 1⟩]⟩

theorem readsSafely_sample : (binaryOffset 1).ReadsSafely (bindPQ 2 0) (-1) :=
  (Polynomial.readsSafely_iff (by simp [binaryOffset])).mpr (by
    simp [binaryOffset, Polynomial.radix])

/-- The offset `2 ^ 31 + 1` is read as `-2 ^ 31 + 1`, and the exponent of `P` as -1.  With
five variables of degree 255 a place value is no `int`. -/
theorem large_offset_misread :
    (readExponents 2 (2147483649 : UInt32).toInt32.toInt (-1) 0 1 : Outcome Err (List ℤ))
      = ok [-1] ∧
    offsetDigit 2 (2147483649 : UInt32).toNat 0 = 1 ∧
    (evalPolynomial (bindPQ 2 0) (binaryOffset 2147483649) (-1) : Outcome Err ℝ) = ok (1 / 2) ∧
    ¬ (binaryOffset 2147483649).ReadsSafely (bindPQ 2 0) (-1) ∧
    (evalPolynomial (fun _ => some 1) ⟨["A", "B", "C", "D", "E"], 255, [⟨0, 1⟩]⟩ (-1)
      : Outcome Err ℝ) = .throw .undefined := by
  have hread : (readExponents 2 (2147483649 : UInt32).toInt32.toInt (-1) 0 1
      : Outcome Err (List ℤ)) = ok [-1] := by decide
  refine ⟨hread, by decide, ?_, fun h => ?_, ?_⟩
  · simp [evalPolynomial, binaryOffset, boundVarAt, evalMonomial, intPow]
    norm_num [Double.pow]
  · have hdigits := (h.digits ⟨2147483649, 1⟩ (by simp [binaryOffset]) [-1] hread).2
    exact absurd (hdigits (-1) (by simp)).1 (by norm_num)
  · simp [evalPolynomial, boundVarAt, evalMonomial, intPow]

end Commelec
