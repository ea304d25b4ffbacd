/-
Commelec/PolynomialConvenience.lean

Writing a polynomial to a message (`polynomial-convenience.hpp`).

A polynomial is a sum of monomials, a monomial a coefficient and a list of powers
of variables.  In the message the exponents of a monomial are the digits of one
number, its offset: the variables are numbered in alphabetical order, and the
power of variable `i` is the digit of weight `d ^ i`, where `d - 1` is the largest
power that occurs.  `std::pow` on integers is taken to be exact.
-/
import Mathlib.Data.List.Sort
import Mathlib.Data.List.Dedup
import Mathlib.Data.String.Basic
import Commelec.Eval

namespace Commelec

open Effectful

/-- Symbolic variable. -/
structure PolyVar where
  getName : String
  deriving DecidableEq, Repr

/-- A variable raised to some power (an `int`). -/
structure Power where
  var : PolyVar
  pow : ℤ
  deriving DecidableEq, Repr

structure Monomial (R : Type) where
  coeff : R
  prodOfPowers : List Power

structure MonomialSum (R : Type) where
  monomials : List (Monomial R)

variable {R : Type}

/-! ### Operators -/

section Operators

variable [Mul R] [One R]

/-- The conversion of a variable to a monomial. -/
def PolyVar.monomial (var : PolyVar) : Monomial R := ⟨1, [⟨var, 1⟩]⟩

/-- `var ^ power` -/
def PolyVar.pow (var : PolyVar) (power : ℤ) : Monomial R := ⟨1, [⟨var, power⟩]⟩

/-- `c * m` -/
def Monomial.scale (c : R) (m : Monomial R) : Monomial R := { m with coeff := m.coeff * c }

/-- `a | b`: the powers of `a` and those of `b`; the coefficient is that of `a`. -/
def Monomial.or (a b : Monomial R) : Monomial R :=
  { a with prodOfPowers := a.prodOfPowers ++ b.prodOfPowers }

/-- `a + b` -/
def Monomial.add (a b : Monomial R) : MonomialSum R := ⟨[a, b]⟩

end Operators

/-! ### Variables and powers -/

/-- The largest element of a range of `int`s, or 0 when it is empty. -/
def maxElement : List ℤ → ℤ
  | [] => 0
  | p :: ps => ps.foldl max p

def Monomial.maxVarDegree (monom : Monomial R) : ℤ :=
  maxElement (monom.prodOfPowers.map Power.pow)

namespace MonomialSum

def maxVarDegree (s : MonomialSum R) : ℤ :=
  maxElement (s.monomials.map Monomial.maxVarDegree)

/-- The names of all variables, once for every occurrence. -/
def occurrences (s : MonomialSum R) : List String :=
  s.monomials.flatMap fun monom => monom.prodOfPowers.map fun power => power.var.getName

/-- `variables()`: the variables occurring in the polynomial; a `std::set` keeps its
elements sorted and distinct. -/
def vars (s : MonomialSum R) : List String :=
  s.occurrences.dedup.insertionSort (· ≤ ·)

def numTerms (s : MonomialSum R) : ℕ := s.monomials.length

end MonomialSum

/-! ### Building the message -/

variable {m : Type → Type} [Effects Err m]

/-- The value of an `int` expression; overflow is undefined. -/
def checkedInt (z : ℤ) : m ℤ :=
  if -2 ^ 31 ≤ z ∧ z < 2 ^ 31 then pure z else raise .undefined

/-- The loop that adds up the offset of a monomial; `d` is `maxvar + 1`. -/
def monomialOffset (vars : List String) (d : ℤ) : List Power → ℤ → m ℤ
  | [], offset => pure offset
  | pow :: powList, offset => do
    -- use ordering of variables defined by vars
    let i := vars.idxOf pow.var.getName
    if i < vars.length then
      let k ← checkedInt (d ^ i)
      let term ← checkedInt (pow.pow * k)
      let offset ← checkedInt (offset + term)
      monomialOffset vars d powList offset
    else
      raise .terminate

def buildPolynomial (s : MonomialSum R) : m (Polynomial R) := do
  let vars := s.vars
  let maxvar := s.maxVarDegree
  let d ← checkedInt (maxvar + 1)
  let coeffs ← collect (s.monomials.map fun monom => do
    let offset ← monomialOffset vars d monom.prodOfPowers 0
    pure ⟨UInt32.ofInt offset, monom.coeff⟩)
  pure ⟨vars, UInt8.ofInt maxvar, coeffs⟩

/-! ### The variables and the maximal power -/

namespace MonomialSum

variable (s : MonomialSum R)

theorem nodup_vars : s.vars.Nodup :=
  (List.perm_insertionSort _ _).nodup_iff.mpr (List.nodup_dedup _)

/-- A variable is not counted more often than it occurs. -/
theorem length_vars_le : s.vars.length ≤ s.occurrences.length := by
  rw [vars, List.length_insertionSort]
  exact (List.dedup_sublist _).length_le

theorem mem_vars {v : String} :
    v ∈ s.vars ↔ ∃ monom ∈ s.monomials, ∃ power ∈ monom.prodOfPowers,
      power.var.getName = v := by
  rw [vars, (List.perm_insertionSort _ _).mem_iff, List.mem_dedup, occurrences]
  simp only [List.mem_flatMap, List.mem_map]

end MonomialSum

theorem le_foldl_max (ps : List ℤ) (p : ℤ) :
    p ≤ ps.foldl max p ∧ ∀ q ∈ ps, q ≤ ps.foldl max p := by
  induction ps generalizing p with
  | nil => simp
  | cons q ps ih =>
    obtain ⟨hp, hps⟩ := ih (max p q)
    refine ⟨(le_max_left p q).trans hp, ?_⟩
    intro r hr
    rcases List.mem_cons.mp hr with rfl | hr
    · exact (le_max_right p r).trans hp
    · exact hps r hr

theorem le_maxElement {ps : List ℤ} {p : ℤ} (hp : p ∈ ps) : p ≤ maxElement ps := by
  cases ps with
  | nil => simp at hp
  | cons q ps =>
    obtain ⟨hq, hps⟩ := le_foldl_max ps q
    rcases List.mem_cons.mp hp with rfl | hp
    · exact hq
    · exact hps p hp

theorem maxElement_nonneg {ps : List ℤ} (h : ∀ p ∈ ps, 0 ≤ p) : 0 ≤ maxElement ps := by
  cases ps with
  | nil => exact le_rfl
  | cons p ps => exact (h p (by simp)).trans (le_foldl_max ps p).1

/-- Every power is at most the maximal one. -/
theorem MonomialSum.pow_le_maxVarDegree {s : MonomialSum R} {monom : Monomial R}
    (hm : monom ∈ s.monomials) {power : Power} (hp : power ∈ monom.prodOfPowers) :
    power.pow ≤ s.maxVarDegree :=
  calc power.pow ≤ monom.maxVarDegree := le_maxElement (List.mem_map_of_mem hp)
    _ ≤ s.maxVarDegree := le_maxElement (List.mem_map_of_mem hm)

end Commelec
