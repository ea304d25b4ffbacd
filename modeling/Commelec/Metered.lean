/-
Commelec/Metered.lean

Counting visits.  On expressions without case distinctions and references the
visit counter is all that `eval` and `evalPartialDerivative` change, and the number
of visits they make depends on the expression alone.

`Metered n a x` says that the method `x` makes `n` visits and returns `a`, unless
the counter runs over, in which case it throws "max nesting depth reached".  A
query that is metered has exactly one of these two outcomes (`Metered.query`).
-/
import Commelec.AdvFunc
import Commelec.Parametric

namespace Commelec

open Effectful Outcome

variable {R : Type}

/-- Count `n` more visits. -/
def AdvState.count (s : AdvState R) (n : ℕ) : AdvState R :=
  { s with nestingDepth := s.nestingDepth + n }

@[simp] theorem AdvState.count_nestingDepth (s : AdvState R) (n : ℕ) :
    (s.count n).nestingDepth = s.nestingDepth + n := rfl

@[simp] theorem AdvState.count_zero (s : AdvState R) : s.count 0 = s := rfl

@[simp] theorem AdvState.count_count (s : AdvState R) (n k : ℕ) :
    (s.count n).count k = s.count (n + k) := by
  simp [AdvState.count, Nat.add_assoc]

/-- The method makes `n` visits and returns `a`, or throws because these are too
many. -/
structure Metered {α : Type} (n : ℕ) (a : α) (x : Method R α) : Prop where
  enough : ∀ s : AdvState R, s.nestingDepth + n ≤ MAX_NESTING_DEPTH →
    x s = (ok a, s.count n)
  tooMany : ∀ s : AdvState R, s.nestingDepth ≤ MAX_NESTING_DEPTH →
    MAX_NESTING_DEPTH < s.nestingDepth + n → (x s).1 = .throw maxNesting

namespace Metered

variable {α β : Type}

theorem pure (a : α) : Metered 0 a (Pure.pure a : Method R α) where
  enough _ _ := rfl
  tooMany _ h h' := absurd h (Nat.not_le_of_lt h')

/-- A method that only computes. -/
theorem of_stateless {a : α} {x : Method R α} (h : stateless.rel (ok a) x) :
    Metered 0 a x where
  enough s _ := h s
  tooMany _ h h' := absurd h (Nat.not_le_of_lt h')

theorem bind {n k : ℕ} {a : α} {b : β} {x : Method R α} {f : α → Method R β}
    (hx : Metered n a x) (hf : Metered k b (f a)) : Metered (n + k) b (x >>= f) where
  enough := by
    intro s hs
    rw [Run.bind_ok (hx.enough s (by omega)), hf.enough _ (by simp; omega),
      AdvState.count_count]
  tooMany := by
    intro s hs hmax
    by_cases hn : s.nestingDepth + n ≤ MAX_NESTING_DEPTH
    · -- the first part returns, the second one runs over
      rw [Run.bind_ok (hx.enough s hn)]
      exact hf.tooMany _ (by simpa using hn) (by simp; omega)
    · rcases hxs : x s with ⟨o, s'⟩
      have hthrow := hx.tooMany s hs (by omega)
      rw [hxs] at hthrow
      obtain rfl : o = .throw maxNesting := hthrow
      rw [Run.bind_throw hxs]

/-- Applying a function to the result. -/
theorem map {n : ℕ} {a : α} {x : Method R α} (hx : Metered n a x) (f : α → β) :
    Metered n (f a) (do let a ← x; Pure.pure (f a)) := by
  have h := hx.bind (f := fun a => Pure.pure (f a)) (.pure (f a))
  rwa [Nat.add_zero] at h

theorem visit : Metered 1 () (Commelec.visit : Method R Unit) where
  enough := by
    intro s hs
    rw [Commelec.visit, if_neg (by simpa using hs)]
    rfl
  tooMany := by
    intro s _ hmax
    rw [Commelec.visit, if_pos (by simpa using hmax)]

/-- **The outcome of a metered query** depends on the number of visits only. -/
theorem query {n : ℕ} {a : α} {af : AdvFunc R} (hv : af.advValid = true)
    {boundVars : ValueMap R} {method : Self R (Method R) → Method R α}
    (h : Metered n a (method (methods boundVars af.realExprRefs))) :
    (AdvFunc.query boundVars method af).1
      = if n ≤ MAX_NESTING_DEPTH then ok a else .throw maxNesting := by
  simp only [AdvFunc.query, hv, if_true]
  split
  · next hn => rw [h.enough _ (by simpa using hn)]
  · next hn => exact h.tooMany _ (Nat.zero_le _) (by simpa using hn)

end Metered

/-! ### Within the budget

Set operations count their visits too, but start again instead of throwing.  As long as
the counter does not run over, the two kinds of visits are alike. -/

/-- The method makes `n` visits and returns `a`, if the counter does not run over. -/
def Spends {α : Type} (n : ℕ) (a : α) (x : Method R α) : Prop :=
  ∀ s : AdvState R, s.nestingDepth + n ≤ MAX_NESTING_DEPTH → x s = (ok a, s.count n)

namespace Spends

variable {α β : Type}

theorem of_metered {n : ℕ} {a : α} {x : Method R α} (h : Metered n a x) : Spends n a x :=
  h.enough

theorem of_stateless {a : α} {x : Method R α} (h : stateless.rel (ok a) x) : Spends 0 a x :=
  fun s _ => h s

theorem pure (a : α) : Spends 0 a (Pure.pure a : Method R α) := fun _ _ => rfl

theorem bind {n k : ℕ} {a : α} {b : β} {x : Method R α} {f : α → Method R β}
    (hx : Spends n a x) (hf : Spends k b (f a)) : Spends (n + k) b (x >>= f) := by
  intro s hs
  rw [Run.bind_ok (hx s (by omega)), hf _ (by simp; omega), AdvState.count_count]

theorem map {n : ℕ} {a : α} {x : Method R α} (hx : Spends n a x) (f : α → β) :
    Spends n (f a) (do let a ← x; Pure.pure (f a)) := by
  have h := hx.bind (f := fun a => Pure.pure (f a)) (.pure (f a))
  rwa [Nat.add_zero] at h

theorem assert {cond : Bool} (h : cond = true) :
    Spends 0 () (Commelec.assert cond : Method R Unit) := by
  rw [h]
  exact .pure ()

theorem visit : Spends 1 () (Commelec.visit : Method R Unit) := of_metered .visit

theorem visitSet : Spends 1 () (Commelec.visitSet : Method R Unit) := by
  intro s hs
  rw [Commelec.visitSet, if_neg (by simpa using hs)]
  rfl

theorem collect {γ : Type} {n : γ → ℕ} {a : γ → α} {x : γ → Method R α} {l : List γ}
    (h : ∀ c ∈ l, Spends (n c) (a c) (x c)) :
    Spends (l.map n).sum (l.map a) (Effectful.collect (l.map x)) := by
  induction l with
  | nil => exact .pure []
  | cons c l ih =>
    have htail := ih fun c hc => h c (by simp [hc])
    exact (h c (by simp)).bind (htail.map (a c :: ·))

/-- **A query within the budget.** -/
theorem query {n : ℕ} {a : α} {af : AdvFunc R} (hv : af.advValid = true)
    {boundVars : ValueMap R} {method : Self R (Method R) → Method R α}
    (h : Spends n a (method (methods boundVars af.realExprRefs)))
    (hn : n ≤ MAX_NESTING_DEPTH) : (AdvFunc.query boundVars method af).1 = ok a := by
  simp only [AdvFunc.query, hv, if_true]
  rw [h _ (by simpa using hn)]

end Spends

/-- The method makes at most `N` visits and returns `a`, if the counter does not run over. -/
def SpendsUpTo {α : Type} (N : ℕ) (a : α) (x : Method R α) : Prop := ∃ n ≤ N, Spends n a x

namespace SpendsUpTo

variable {α β : Type} {N K : ℕ}

theorem of_spends {n : ℕ} {a : α} {x : Method R α} (h : Spends n a x) (hn : n ≤ N) :
    SpendsUpTo N a x := ⟨n, hn, h⟩

theorem pure (a : α) : SpendsUpTo N a (Pure.pure a : Method R α) :=
  ⟨0, Nat.zero_le _, .pure a⟩

theorem mono {a : α} {x : Method R α} (h : SpendsUpTo N a x) (hNK : N ≤ K) :
    SpendsUpTo K a x := by
  obtain ⟨n, hn, h⟩ := h
  exact ⟨n, hn.trans hNK, h⟩

theorem bind {a : α} {b : β} {x : Method R α} {f : α → Method R β} (hx : SpendsUpTo N a x)
    (hf : SpendsUpTo K b (f a)) : SpendsUpTo (N + K) b (x >>= f) := by
  obtain ⟨n, hn, hx⟩ := hx
  obtain ⟨k, hk, hf⟩ := hf
  exact ⟨n + k, Nat.add_le_add hn hk, hx.bind hf⟩

/-- **A query within the budget ends**, with all large enough fuel. -/
theorem ends {a : α} {af : AdvFunc R} (hv : af.advValid = true) {boundVars : ValueMap R}
    {method : ℕ → Self R (Method R) → Method R α} {k : ℕ}
    (h : ∀ fuel, SpendsUpTo N a (method (fuel + k) (methods boundVars af.realExprRefs)))
    (hN : N ≤ MAX_NESTING_DEPTH) :
    AdvFunc.Ends (fun n => AdvFunc.query boundVars (method n)) af (ok a) := by
  refine ⟨k, fun n hn => ?_⟩
  obtain ⟨fuel, rfl⟩ := Nat.exists_eq_add_of_le' hn
  obtain ⟨n, hn, hspends⟩ := h fuel
  exact hspends.query hv (hn.trans hN)

end SpendsUpTo

/-! ### Evaluation -/

section Eval

variable [Double R] {boundVars : ValueMap R} {realExprRefs : RealExprRefMap R} {fuel : ℕ}
  {name : Option String}

theorem metered_real (x : R) :
    Metered 1 x ((calls (methods boundVars realExprRefs) (fuel + 1)).eval (.real name x)) :=
  Metered.visit.bind (k := 0) (f := fun _ => Pure.pure x) (.pure x)

theorem metered_var {v : String} {x : R} (hv : boundVars v = some x) :
    Metered 1 x ((calls (methods boundVars realExprRefs) (fuel + 1)).eval (.var name v)) := by
  refine Metered.visit.bind (k := 0) ?_
  show Metered 0 x (evalVar (methods boundVars realExprRefs) v)
  have hself : (methods boundVars realExprRefs).boundVars v = some x := hv
  rw [evalVar, hself]
  exact .pure x

theorem metered_unary {op : UnaryOp} {f : R → R} (hop : unaryFun op = some f) {n : ℕ} {x : R}
    {a : RealExpr R} (ha : Metered n x ((calls (methods boundVars realExprRefs) fuel).eval a)) :
    Metered (1 + n) (f x)
      ((calls (methods boundVars realExprRefs) (fuel + 1)).eval
        (.unaryOperation name op a)) := by
  refine Metered.visit.bind ?_
  show Metered n (f x) (evalUnaryOperation op _)
  rw [evalUnaryOperation, hop]
  exact ha.map f

theorem metered_binary {op : BinaryOp} {f : R → R → R} (hop : binaryFun op = some f)
    {n k : ℕ} {x y : R} {a b : RealExpr R}
    (ha : Metered n x ((calls (methods boundVars realExprRefs) fuel).eval a))
    (hb : Metered k y ((calls (methods boundVars realExprRefs) fuel).eval b)) :
    Metered (1 + (n + k)) (f x y)
      ((calls (methods boundVars realExprRefs) (fuel + 1)).eval
        (.binaryOperation name op a b)) := by
  refine Metered.visit.bind ?_
  show Metered (n + k) (f x y) (evalBinaryOperation op _ _)
  rw [evalBinaryOperation_eq hop]
  split
  · -- the second argument first
    rw [Nat.add_comm n k]
    exact hb.bind (ha.map fun x => f x y)
  · exact ha.bind (hb.map (f x))

/-- A polynomial is evaluated in one visit. -/
theorem metered_polynomial {poly : Polynomial R} {x : R}
    (h : (evalPolynomial boundVars poly (-1) : Outcome Err R) = ok x) :
    Metered 1 x
      ((calls (methods boundVars realExprRefs) (fuel + 1)).eval (.polynomial name poly)) := by
  refine Metered.visit.bind (k := 0) (.of_stateless ?_)
  rw [← h]
  exact rel_evalPolynomial stateless boundVars poly (-1)

end Eval

/-! ### Derivatives -/

section Deriv

variable [Double R] {boundVars : ValueMap R} {realExprRefs : RealExprRefMap R} {fuel : ℕ}
  {name : Option String} {diffVariable : String}

/-- A polynomial is differentiated in one visit. -/
theorem metered_derivPolynomial {poly : Polynomial R} {x : R}
    (h : (derivPolynomial boundVars poly diffVariable : Outcome Err R) = ok x) :
    Metered 1 x
      (evalPartialDerivative (methods boundVars realExprRefs) diffVariable (fuel + 1)
        (.polynomial name poly)) := by
  refine Metered.visit.bind (k := 0) (.of_stateless ?_)
  rw [← h]
  exact rel_derivPolynomial stateless boundVars poly diffVariable

theorem metered_derivReal (x : R) :
    Metered 1 0
      (evalPartialDerivative (methods boundVars realExprRefs) diffVariable (fuel + 1)
        (.real name x)) :=
  Metered.visit.bind (k := 0) (f := fun _ => Pure.pure 0) (.pure 0)

theorem metered_derivVar {v : String} {x : R} (hv : boundVars v = some x) :
    Metered 1 (if v = diffVariable then 1 else 0)
      (evalPartialDerivative (methods boundVars realExprRefs) diffVariable (fuel + 1)
        (.var name v)) := by
  refine Metered.visit.bind (k := 0) ?_
  show Metered 0 _ (derivVar (methods boundVars realExprRefs) diffVariable v)
  have hself : (methods boundVars realExprRefs).boundVars v = some x := hv
  simp only [derivVar, hself]
  split
  · exact .pure 1
  · exact .pure 0

/-- A binary operation, whose rule is to be looked at. -/
theorem metered_derivBinary {op : BinaryOp} {n : ℕ} {y : R} {a b : RealExpr R}
    (h : Metered n y (derivBinaryOperation op
      ((calls (methods boundVars realExprRefs) fuel).eval a)
      ((calls (methods boundVars realExprRefs) fuel).eval b)
      (evalPartialDerivative (methods boundVars realExprRefs) diffVariable fuel a)
      (evalPartialDerivative (methods boundVars realExprRefs) diffVariable fuel b))) :
    Metered (1 + n) y
      (evalPartialDerivative (methods boundVars realExprRefs) diffVariable (fuel + 1)
        (.binaryOperation name op a b)) :=
  Metered.visit.bind h

section Rules

variable {n k i j : ℕ} {x y dx dy : R} {a b da db : Method R R}

theorem metered_sumRule (hda : Metered i dx da) (hdb : Metered j dy db) :
    Metered (i + j) (dx + dy) (derivBinaryOperation .sum a b da db) :=
  hda.bind (hdb.map (dx + ·))

theorem metered_prodRule (ha : Metered n x a) (hb : Metered k y b) (hda : Metered i dx da)
    (hdb : Metered j dy db) :
    Metered (n + (j + (k + i))) (x * dy + y * dx) (derivBinaryOperation .prod a b da db) :=
  ha.bind (hdb.bind (hb.bind (hda.map fun dx => x * dy + y * dx)))

theorem metered_powRule (ha : Metered n x a) (hb : Metered k y b) (hda : Metered i dx da)
    (hdb : Metered j dy db) :
    Metered (n + (k + (i + j)))
      (Double.pow x (y - 1) * (y * dx + x * Double.log x * dy))
      (derivBinaryOperation .pow a b da db) :=
  ha.bind (hb.bind (hda.bind (hdb.map fun dy =>
    Double.pow x (y - 1) * (y * dx + x * Double.log x * dy))))

end Rules

end Deriv

end Commelec
