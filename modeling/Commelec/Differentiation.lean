/-
Commelec/Differentiation.lean

Is `evalPartialDerivative` the derivative?

`Along env x e F` says what function `F` of the variable `x` the expression `e`
computes near the bound values, every case distinction being decided there, and that
every intermediate value lies in the open domain of the operation applied to it.  A
derivation of `Along` is finite, so references may not go round in circles.

The derivative that is returned for `e` and for every part that is differentiated on
the way is the derivative of the function exactly when each such part is harmless: a
`square` whose argument is one or has derivative zero, a polynomial whose negative
powers cancel, or any other expression (`derivatives_right_iff`).
-/
import Commelec.Semantics
import Commelec.Slopes

namespace Commelec

open Effectful Outcome

/-- The bound value of a variable. -/
def Env.point (env : Env ℝ) : String → ℝ := fun v => (env.boundVars v).getD 0

/-- The case distinction comes to the expression `e`: the sets of the cases before do not
contain the point, its own set does. -/
def Selects (env : Env ℝ) (vars : List String) (cases : List (SetExpr ℝ × RealExpr ℝ))
    (e : RealExpr ℝ) : Prop :=
  ∃ pt, (casePoint env.boundVars vars : Outcome Err (List ℝ)) = ok pt ∧
    ∃ before set after, cases = before ++ (set, e) :: after ∧
      (∀ c ∈ before, env.memberSem c.1 pt = ok false) ∧ env.memberSem set pt = ok true

/-- The function of `x` that an expression computes near the bound values. -/
inductive Along (env : Env ℝ) (x : String) : RealExpr ℝ → (ℝ → ℝ) → Prop
  | real (n v) : Along env x (.real n v) fun _ => v
  | var {n v a} : env.boundVars v = some a →
      Along env x (.var n v) fun t => if v = x then t else a
  | polynomial {n p} : p.vars.Nodup → (∀ v ∈ p.vars, (env.boundVars v).isSome) → p.Placed →
      p.Regular env.point →
      Along env x (.polynomial n p) fun t =>
        p.sumDigits powSlope (-1) (p.vars.map (along env.point x t))
  | unaryOperation {n op a f g} : unaryFun op = some g → UnaryRegular op (f (env.point x)) →
      Along env x a f → Along env x (.unaryOperation n op a) fun t => g (f t)
  | binaryOperation {n op a b f g h} : binaryFun op = some h →
      BinaryRegular op (f (env.point x)) (g (env.point x)) →
      Along env x a f → Along env x b g →
      Along env x (.binaryOperation n op a b) fun t => h (f t) (g t)
  | sumNil (n) : Along env x (.listOperation n .sum []) fun _ => 0
  | sumCons {n a as f F} : Along env x a f → Along env x (.listOperation n .sum as) F →
      Along env x (.listOperation n .sum (a :: as)) fun t => f t + F t
  | prodNil (n) : Along env x (.listOperation n .prod []) fun _ => 1
  | prodCons {n a as f F} : Along env x a f → Along env x (.listOperation n .prod as) F →
      Along env x (.listOperation n .prod (a :: as)) fun t => f t * F t
  | caseDistinction {n vars cases e f} : Selects env vars cases e → Along env x e f →
      Along env x (.caseDistinction n vars cases) f
  | reference {n ref e f} : env.realExprRefs ref = some e → Along env x e f →
      Along env x (.reference n ref) f

/-- The operands whose derivative is asked for. -/
def Chosen (env : Env ℝ) : BinaryOp → RealExpr ℝ → RealExpr ℝ → RealExpr ℝ → Prop
  | .min, a, b, c => ∃ u v, env.evalSem a = ok u ∧ env.evalSem b = ok v ∧
      c = if u ≤ v then a else b
  | .max, a, b, c => ∃ u v, env.evalSem a = ok u ∧ env.evalSem b = ok v ∧
      c = if v < u then a else b
  | _, a, b, c => c = a ∨ c = b

/-- `Differentiates env e s`: the derivative of `e` asks for that of `s`. -/
inductive Differentiates (env : Env ℝ) : RealExpr ℝ → RealExpr ℝ → Prop
  | refl (e) : Differentiates env e e
  | unary {n op a s} : Differentiates env a s →
      Differentiates env (.unaryOperation n op a) s
  | binary {n op a b c s} : Chosen env op a b c → Differentiates env c s →
      Differentiates env (.binaryOperation n op a b) s
  | list {n op as c s} : c ∈ as → Differentiates env c s →
      Differentiates env (.listOperation n op as) s
  | caseDistinction {n vars cases e s} : Selects env vars cases e → Differentiates env e s →
      Differentiates env (.caseDistinction n vars cases) s
  | reference {n ref e s} : env.realExprRefs ref = some e → Differentiates env e s →
      Differentiates env (.reference n ref) s

/-- Differentiating the expression itself, given the derivatives of its parts, is right. -/
def Harmless (env : Env ℝ) (x : String) : RealExpr ℝ → Prop
  | .unaryOperation _ .square a => ∀ f, Along env x a f →
      f (env.point x) = 1 ∨ deriv f (env.point x) = 0
  | .polynomial _ p => x ∈ p.vars →
      p.sumDigits slopeError (p.vars.idxOf x) (p.vars.map env.point) = 0
  | _ => True

/-- The derivative is returned and right. -/
def DerivRight (env : Env ℝ) (x : String) (e : RealExpr ℝ) (F : ℝ → ℝ) : Prop :=
  ∃ d, env.derivSem x e = ok d ∧ HasDerivAt F d (env.point x)

/-! ### Case distinctions and lists -/

theorem firstCase_selects {α : Type} {k : α → Outcome Err Bool} {set : α} {y : Outcome Err ℝ}
    {before after : List (α × Outcome Err ℝ)} (hbefore : ∀ c ∈ before, k c.1 = ok false)
    (hset : k set = ok true) :
    firstCase ((before ++ (set, y) :: after).map fun c => (k c.1, c.2)) = y := by
  induction before with
  | nil =>
    rw [List.nil_append, List.map_cons, firstCase, hset, ok_bind]
    rfl
  | cons c before ih =>
    rw [List.cons_append, List.map_cons, firstCase, hbefore c (by simp), ok_bind]
    exact ih fun c' hc' => hbefore c' (by simp [hc'])

/-- A case distinction is the expression it comes to. -/
theorem caseDistinction_selects {env : Env ℝ} {vars : List String}
    {cases : List (SetExpr ℝ × RealExpr ℝ)} {e : RealExpr ℝ} (h : Selects env vars cases e)
    (k : RealExpr ℝ → Outcome Err ℝ) :
    caseDistinction env.boundVars vars (cases.map fun c => (env.memberSem c.1, k c.2)) = k e := by
  obtain ⟨pt, hpt, before, set, after, rfl, hbefore, hset⟩ := h
  have hbefore' : ∀ c ∈ before.map (fun c => (c.1, k c.2)), env.memberSem c.1 pt = ok false := by
    intro c hc
    obtain ⟨c', hc', rfl⟩ := List.mem_map.mp hc
    exact hbefore c' hc'
  let tail := after.map fun c => (c.1, k c.2)
  have hfirst : firstCase (((before.map fun c => (c.1, k c.2)) ++ (set, k e) :: tail).map
      fun c => (env.memberSem c.1 pt, c.2)) = k e :=
    firstCase_selects (k := fun s => env.memberSem s pt) hbefore' hset
  rw [caseDistinction, hpt, ok_bind, List.map_map, ← hfirst]
  simp [tail, Function.comp_def]

theorem evalList_sum_cons {v w : ℝ} {xs : List (Outcome Err ℝ)}
    (h : evalListOperation .sum xs = ok w) :
    evalListOperation .sum (ok v :: xs) = ok (v + w) := by
  obtain ⟨vs, hvs, hsum⟩ := bind_eq_ok.mp h
  have hw : vs.foldl (· + ·) 0 = w := by simpa using hsum
  rw [evalListOperation, collect_cons, ok_bind, hvs, ok_bind, pure_eq, ok_bind, ← hw,
    ← List.sum_eq_foldl, ← List.sum_eq_foldl, List.sum_cons]
  rfl

theorem evalList_prod_cons {v w : ℝ} {xs : List (Outcome Err ℝ)}
    (h : evalListOperation .prod xs = ok w) :
    evalListOperation .prod (ok v :: xs) = ok (v * w) := by
  obtain ⟨vs, hvs, hprod⟩ := bind_eq_ok.mp h
  have hw : vs.foldl (· * ·) 1 = w := by simpa using hprod
  rw [evalListOperation, collect_cons, ok_bind, hvs, ok_bind, pure_eq, ok_bind, ← hw,
    ← List.prod_eq_foldl, ← List.prod_eq_foldl, List.prod_cons]
  rfl

/-- One more factor. -/
theorem derivList_prod_cons {v w d D : ℝ} {evals derivs : List (Outcome Err ℝ)}
    (hlen : derivs.length = evals.length) (hw : evalListOperation .prod evals = ok w)
    (hD : derivListOperation .prod evals derivs = ok D) :
    derivListOperation .prod (ok v :: evals) (ok d :: derivs) = ok (d * w + v * D) := by
  obtain ⟨vs, hvs, hprod⟩ := bind_eq_ok.mp hw
  have hw' : vs.prod = w := by
    rw [List.prod_eq_foldl]
    simpa using hprod
  obtain ⟨vs', hvs', hds⟩ := bind_eq_ok.mp hD
  obtain rfl : vs = vs' := by simpa [evalToVector, hvs] using hvs'
  obtain ⟨ds, hds, -⟩ := bind_eq_ok.mp hds
  have hlen' : ds.length = vs.length := by rw [collect_length hds, collect_length hvs, hlen]
  have hslope : prodSlope vs ds = D := by
    rw [derivList_prod hvs hds hlen'] at hD
    simpa using hD
  have hvs₁ : collect (ok v :: evals) = ok (v :: vs) := by rw [collect_cons, hvs]; rfl
  have hds₁ : collect (ok d :: derivs) = ok (d :: ds) := by rw [collect_cons, hds]; rfl
  rw [derivList_prod hvs₁ hds₁ (by simpa using hlen'), prodSlope, hw', hslope]

/-! ### What an expression computes -/

namespace Along

variable {env : Env ℝ} {x : String} {e : RealExpr ℝ} {F : ℝ → ℝ}

theorem point_of_bound {v : String} {a : ℝ} (h : env.boundVars v = some a) :
    env.point v = a := by
  rw [Env.point, h, Option.getD_some]

theorem bound_of_isSome {v : String} (h : (env.boundVars v).isSome) :
    env.boundVars v = some (env.point v) := by
  obtain ⟨a, ha⟩ := Option.isSome_iff_exists.mp h
  rw [ha, point_of_bound ha]

/-- **`F` is what `eval` computes.** -/
theorem evalSem (h : Along env x e F) : env.evalSem e = ok (F (env.point x)) := by
  induction h with
  | real n v => exact env.evalSem_real n v
  | @var n v a hv =>
    rw [env.evalSem_var]
    have hself : (env.self (m := Outcome Err)).boundVars v = some a := hv
    simp only [evalVar, hself]
    by_cases hx : v = x
    · rw [if_pos hx, ← hx, point_of_bound hv]
      rfl
    · rw [if_neg hx]
      rfl
  | @polynomial n p hvars hbound hplaced hreg =>
    have hpoint : ∀ v ∈ p.vars, env.boundVars v = some (env.point v) := fun v hv =>
      bound_of_isSome (hbound v hv)
    rw [env.evalSem_polynomial, evalPolynomial_sumDigits hplaced hpoint]
    show ok (p.sumDigits loopSlope (-1) (p.vars.map env.point))
      = ok (p.sumDigits powSlope (-1) (p.vars.map (along env.point x (env.point x))))
    rw [along_self]
    refine congrArg ok (congrArg List.sum (List.map_congr_left fun c _ => ?_))
    rw [digitProduct_congr (by norm_num)]
  | @unaryOperation n op a f g hop _ _ ih =>
    rw [env.evalSem_unary, ih]
    simp only [evalUnaryOperation, hop]
    rfl
  | @binaryOperation n op a b f g h hop _ _ _ iha ihb =>
    rw [env.evalSem_binary, iha, ihb]
    exact evalBinaryOperation_ok hop _ _
  | sumNil n => exact env.evalSem_list n .sum []
  | @sumCons n a as f F _ _ iha ihas =>
    rw [env.evalSem_list] at ihas ⊢
    rw [List.map_cons, iha, evalList_sum_cons ihas]
  | prodNil n => exact env.evalSem_list n .prod []
  | @prodCons n a as f F _ _ iha ihas =>
    rw [env.evalSem_list] at ihas ⊢
    rw [List.map_cons, iha, evalList_prod_cons ihas]
  | caseDistinction hsel _ ih => rw [env.evalSem_case, caseDistinction_selects hsel, ih]
  | reference href _ ih => rw [env.evalSem_reference _ href, ih]

theorem differentiableAt (h : Along env x e F) : DifferentiableAt ℝ F (env.point x) := by
  induction h with
  | real n v => exact differentiableAt_const v
  | @var n v a hv =>
    by_cases hx : v = x
    · simpa only [if_pos hx] using differentiableAt_fun_id
    · simpa only [if_neg hx] using differentiableAt_const a
  | @polynomial n p hvars hbound hplaced hreg =>
    by_cases hx : x ∈ p.vars
    · exact (Polynomial.hasDerivAt_sumDigits powSlope hvars hreg hx).differentiableAt
    · simpa only [map_along_of_notMem hx] using differentiableAt_const _
  | unaryOperation hop hreg _ ih =>
    exact (hasDerivAt_unary hop hreg).differentiableAt.comp _ ih
  | binaryOperation hop hreg _ _ iha ihb =>
    exact (hasDerivAt_binary hop hreg iha.hasDerivAt ihb.hasDerivAt).differentiableAt
  | sumNil n => exact differentiableAt_const 0
  | sumCons _ _ iha ihas => exact iha.add ihas
  | prodNil n => exact differentiableAt_const 1
  | prodCons _ _ iha ihas => exact iha.mul ihas
  | caseDistinction _ _ ih => exact ih
  | reference _ _ ih => exact ih

/-- An operand that is asked for is one of the two. -/
theorem chosen_or {op : BinaryOp} {a b c : RealExpr ℝ} (h : Chosen env op a b c) :
    c = a ∨ c = b := by
  cases op with
  | min | max =>
    obtain ⟨u, v, -, -, rfl⟩ := h
    split
    · exact Or.inl rfl
    · exact Or.inr rfl
  | sum | prod | pow | lessEqThan | greaterThan | unknown => exact h

theorem of_mem_list {n : Option String} {op : ListOp} {as : List (RealExpr ℝ)}
    (h : Along env x (.listOperation n op as) F) {c : RealExpr ℝ} (hc : c ∈ as) :
    ∃ f, Along env x c f := by
  induction as generalizing F with
  | nil => simp at hc
  | cons a as ih =>
    obtain rfl | hc := List.mem_cons.mp hc
    · cases h with
      | sumCons ha _ => exact ⟨_, ha⟩
      | prodCons ha _ => exact ⟨_, ha⟩
    · cases h with
      | sumCons _ has => exact ih has hc
      | prodCons _ has => exact ih has hc

theorem selects_unique {vars : List String} {cases : List (SetExpr ℝ × RealExpr ℝ)}
    {e e' : RealExpr ℝ} (h : Selects env vars cases e) (h' : Selects env vars cases e') :
    e = e' := by
  classical
  -- a continuation that tells `e` from all other expressions
  let k : RealExpr ℝ → Outcome Err ℝ := fun s => if s = e then ok 0 else ok 1
  have hk : k e = k e' := (caseDistinction_selects h k).symm.trans (caseDistinction_selects h' k)
  by_contra hne
  have hne' : ¬ e' = e := fun heq => hne heq.symm
  simp [k, hne'] at hk

/-- Every part that is differentiated computes a function as well. -/
theorem part (h : Along env x e F) {s : RealExpr ℝ} (hs : Differentiates env e s) :
    ∃ f, Along env x s f := by
  induction hs generalizing F with
  | refl e => exact ⟨F, h⟩
  | unary _ ih =>
    cases h with
    | unaryOperation _ _ ha => exact ih ha
  | @binary n op a b c s hc _ ih =>
    cases h with
    | binaryOperation _ _ ha hb =>
      obtain rfl | rfl := chosen_or hc
      · exact ih ha
      · exact ih hb
  | list hc _ ih =>
    obtain ⟨f, hf⟩ := h.of_mem_list hc
    exact ih hf
  | caseDistinction hsel _ ih =>
    cases h with
    | caseDistinction hsel' he =>
      obtain rfl := selects_unique hsel hsel'
      exact ih he
  | reference href _ ih =>
    cases h with
    | reference href' he =>
      obtain rfl := Option.some.inj (href.symm.trans href')
      exact ih he

end Along

/-! ### The derivative -/

section Derivative

variable {env : Env ℝ} {x : String}

theorem derivRight_polynomial {n : Option String} {p : Polynomial ℝ} {F : ℝ → ℝ}
    (h : Along env x (.polynomial n p) F) :
    DerivRight env x (.polynomial n p) F ↔ Harmless env x (.polynomial n p) := by
  cases h with
  | polynomial hvars hbound hplaced hreg =>
    have hpoint : ∀ v ∈ p.vars, env.boundVars v = some (env.point v) := fun v hv =>
      Along.bound_of_isSome (hbound v hv)
    by_cases hx : x ∈ p.vars
    · have hlt : p.vars.idxOf x < p.vars.length := List.idxOf_lt_length_iff.mpr hx
      have hderiv := Polynomial.hasDerivAt_sumDigits powSlope hvars hreg hx
      have hcode : env.derivSem x (.polynomial n p)
          = ok (p.sumDigits powSlope (p.vars.idxOf x) (p.vars.map env.point)
            + p.sumDigits slopeError (p.vars.idxOf x) (p.vars.map env.point)) := by
        rw [env.derivSem_polynomial, derivPolynomial, if_pos hlt,
          evalPolynomial_sumDigits hplaced hpoint, Polynomial.sumDigits_loopSlope hx _ (by simp)]
      constructor
      · rintro ⟨d, hd, hright⟩ -
        have heq := Outcome.ok.inj (hcode.symm.trans hd)
        have huniq := hright.unique hderiv
        rw [← heq] at huniq
        linarith
      · intro hzero
        refine ⟨_, hcode, ?_⟩
        rw [hzero hx, add_zero]
        exact hderiv
    · have hlt : ¬ p.vars.idxOf x < p.vars.length := fun hlt =>
        hx (List.idxOf_lt_length_iff.mp hlt)
      refine ⟨fun _ hmem => absurd hmem hx, fun _ => ⟨0, ?_, ?_⟩⟩
      · rw [env.derivSem_polynomial, derivPolynomial, if_neg hlt]
        rfl
      · simpa only [map_along_of_notMem hx] using hasDerivAt_const (env.point x) _

theorem derivRight_unary {n : Option String} {op : UnaryOp} {a : RealExpr ℝ} {f g : ℝ → ℝ}
    (hop : unaryFun op = some g) (hreg : UnaryRegular op (f (env.point x)))
    (hf : Along env x a f) (ha : DerivRight env x a f) :
    DerivRight env x (.unaryOperation n op a) (fun t => g (f t)) ↔
      (op = .square → f (env.point x) = 1 ∨ deriv f (env.point x) = 0) := by
  obtain ⟨d, hd, hderiv⟩ := ha
  have hchain := (hasDerivAt_unary hop hreg).comp (env.point x) hderiv
  have hcode : env.derivSem x (.unaryOperation n op a)
      = derivUnaryOperation op (ok (f (env.point x))) (ok d) := by
    rw [env.derivSem_unary, hf.evalSem, hd]
  by_cases hsq : op = .square
  · subst hsq
    rw [derivUnary_square] at hcode
    have hd' : deriv f (env.point x) = d := hderiv.deriv
    rw [hd']
    constructor
    · rintro ⟨d', hd'', hright⟩ -
      have heq := Outcome.ok.inj (hcode.symm.trans hd'')
      have huniq : d' = 2 * f (env.point x) * d := hright.unique hchain
      have hzero : (f (env.point x) - 1) * d = 0 := by linarith
      rcases mul_eq_zero.mp hzero with h | h
      · exact Or.inl (by linarith)
      · exact Or.inr h
    · intro h
      refine ⟨_, hcode, hchain.congr_deriv ?_⟩
      rcases h rfl with h | h
      · rw [unarySlope, h, mul_one]
      · rw [h, mul_zero, mul_zero]
  · rw [derivUnary_eq hsq hreg] at hcode
    exact ⟨fun _ h => absurd h hsq, fun _ => ⟨_, hcode, hchain⟩⟩

/-- The parts that are asked for suffice: `min` and `max` leave one operand out. -/
theorem derivRight_binary {n : Option String} {op : BinaryOp} {a b : RealExpr ℝ}
    {f g : ℝ → ℝ} {h : ℝ → ℝ → ℝ} (hop : binaryFun op = some h)
    (hreg : BinaryRegular op (f (env.point x)) (g (env.point x)))
    (hf : Along env x a f) (hg : Along env x b g)
    (ha : Chosen env op a b a → DerivRight env x a f)
    (hb : Chosen env op a b b → DerivRight env x b g) :
    DerivRight env x (.binaryOperation n op a b) fun t => h (f t) (g t) := by
  have hslope : ∀ {dx dy : ℝ}, HasDerivAt f dx (env.point x) → HasDerivAt g dy (env.point x) →
      HasDerivAt (fun t => h (f t) (g t))
        (binarySlope op (f (env.point x)) (g (env.point x)) dx dy) (env.point x) :=
    fun hdx hdy => hasDerivAt_binary hop hreg hdx hdy
  have hcode : env.derivSem x (.binaryOperation n op a b)
      = derivBinaryOperation op (ok (f (env.point x))) (ok (g (env.point x)))
        (env.derivSem x a) (env.derivSem x b) := by
    rw [env.derivSem_binary, hf.evalSem, hg.evalSem]
  cases op with
  | sum | prod | pow =>
    obtain ⟨dx, hdx, hdf⟩ := ha (Or.inl rfl)
    obtain ⟨dy, hdy, hdg⟩ := hb (Or.inr rfl)
    rw [hdx, hdy] at hcode
    exact ⟨_, hcode, hslope hdf hdg⟩
  | min =>
    by_cases hle : f (env.point x) ≤ g (env.point x)
    · obtain ⟨dx, hdx, hdf⟩ := ha ⟨_, _, hf.evalSem, hg.evalSem, (if_pos hle).symm⟩
      refine ⟨dx, ?_, ?_⟩
      · rw [hcode, hdx]
        show (if Double.le _ _ = true then _ else _) = _
        rw [if_pos (by simpa using hle)]
      · have hmin := hslope hdf hg.differentiableAt.hasDerivAt
        rwa [binarySlope, if_pos hle] at hmin
    · obtain ⟨dy, hdy, hdg⟩ := hb ⟨_, _, hf.evalSem, hg.evalSem, (if_neg hle).symm⟩
      refine ⟨dy, ?_, ?_⟩
      · rw [hcode, hdy]
        show (if Double.le _ _ = true then _ else _) = _
        rw [if_neg (by simpa using hle)]
      · have hmin := hslope hf.differentiableAt.hasDerivAt hdg
        rwa [binarySlope, if_neg hle] at hmin
  | max =>
    by_cases hlt : g (env.point x) < f (env.point x)
    · obtain ⟨dx, hdx, hdf⟩ := ha ⟨_, _, hf.evalSem, hg.evalSem, (if_pos hlt).symm⟩
      refine ⟨dx, ?_, ?_⟩
      · rw [hcode, hdx]
        show (if Double.lt _ _ = true then _ else _) = _
        rw [if_pos (by simpa using hlt)]
      · have hmax := hslope hdf hg.differentiableAt.hasDerivAt
        rwa [binarySlope, if_pos hlt] at hmax
    · obtain ⟨dy, hdy, hdg⟩ := hb ⟨_, _, hf.evalSem, hg.evalSem, (if_neg hlt).symm⟩
      refine ⟨dy, ?_, ?_⟩
      · rw [hcode, hdy]
        show (if Double.lt _ _ = true then _ else _) = _
        rw [if_neg (by simpa using hlt)]
      · have hmax := hslope hf.differentiableAt.hasDerivAt hdg
        rwa [binarySlope, if_neg hlt] at hmax
  | lessEqThan | greaterThan | unknown => exact hreg.elim

/-- The parts of a list but for its first argument. -/
theorem harmless_tail {n : Option String} {op : ListOp} {a : RealExpr ℝ} {as : List (RealExpr ℝ)}
    (h : ∀ s, Differentiates env (.listOperation n op (a :: as)) s → Harmless env x s) :
    ∀ s, Differentiates env (.listOperation n op as) s → Harmless env x s := by
  intro s hs
  cases hs with
  | refl => exact trivial
  | list hc hs => exact h s (.list (List.mem_cons_of_mem _ hc) hs)

/-- **If every part is harmless, the derivative is right.** -/
theorem Along.derivRight {e : RealExpr ℝ} {F : ℝ → ℝ} (h : Along env x e F)
    (hparts : ∀ s, Differentiates env e s → Harmless env x s) : DerivRight env x e F := by
  induction h with
  | real n v => exact ⟨0, env.derivSem_real n x v, hasDerivAt_const _ _⟩
  | @var n v a hv =>
    have hself : (env.self (m := Outcome Err)).boundVars v = some a := hv
    have hcode : env.derivSem x (.var n v) = ok (if v = x then 1 else 0) := by
      rw [env.derivSem_var]
      simp only [derivVar, hself]
      split <;> rfl
    refine ⟨_, hcode, ?_⟩
    by_cases hx : v = x
    · simpa only [if_pos hx] using hasDerivAt_id' (env.point x)
    · simpa only [if_neg hx] using hasDerivAt_const (env.point x) a
  | @polynomial n p hvars hbound hplaced hreg =>
    exact (derivRight_polynomial (.polynomial hvars hbound hplaced hreg)).mpr
      (hparts _ (.refl _))
  | @unaryOperation n op a f g hop hreg hf ih =>
    have ha : DerivRight env x a f := ih fun s hs => hparts s (.unary hs)
    refine (derivRight_unary hop hreg hf ha).mpr ?_
    rintro rfl
    exact hparts _ (.refl _) f hf
  | @binaryOperation n op a b f g h hop hreg hf hg iha ihb =>
    exact derivRight_binary hop hreg hf hg
      (fun hc => iha fun s hs => hparts s (.binary hc hs))
      (fun hc => ihb fun s hs => hparts s (.binary hc hs))
  | sumNil n => exact ⟨0, env.derivSem_list n x .sum [], hasDerivAt_const _ _⟩
  | @sumCons n a as f F ha has iha ihas =>
    obtain ⟨d, hd, hdf⟩ := iha fun s hs => hparts s (.list (by simp) hs)
    obtain ⟨D, hD, hdF⟩ := ihas (harmless_tail hparts)
    rw [env.derivSem_list] at hD
    refine ⟨d + D, ?_, hdf.add hdF⟩
    rw [env.derivSem_list, List.map_cons, List.map_cons, hd]
    exact evalList_sum_cons hD
  | prodNil n => exact ⟨0, env.derivSem_list n x .prod [], hasDerivAt_const _ _⟩
  -- the code adds up, for each factor, its derivative times the values of the others
  | @prodCons n a as f F ha has iha ihas =>
    obtain ⟨d, hd, hdf⟩ := iha fun s hs => hparts s (.list (by simp) hs)
    obtain ⟨D, hD, hdF⟩ := ihas (harmless_tail hparts)
    have hF := has.evalSem
    rw [env.derivSem_list] at hD
    rw [env.evalSem_list] at hF
    refine ⟨d * F (env.point x) + f (env.point x) * D, ?_, hdf.mul hdF⟩
    rw [env.derivSem_list, List.map_cons, List.map_cons, hd, ha.evalSem]
    exact derivList_prod_cons (by simp) hF hD
  -- the code differentiates the case that is selected
  | caseDistinction hsel _ ih =>
    obtain ⟨d, hd, hdf⟩ := ih fun s hs => hparts s (.caseDistinction hsel hs)
    exact ⟨d, by rw [env.derivSem_case, caseDistinction_selects hsel, hd], hdf⟩
  | reference href _ ih =>
    obtain ⟨d, hd, hdf⟩ := ih fun s hs => hparts s (.reference href hs)
    exact ⟨d, by rw [env.derivSem_reference _ _ href, hd], hdf⟩

end Derivative

/-! ### Queries -/

theorem Differentiates.trans {env : Env ℝ} {e s s' : RealExpr ℝ} (h : Differentiates env e s)
    (h' : Differentiates env s s') : Differentiates env e s' := by
  induction h with
  | refl => exact h'
  | unary _ ih => exact .unary (ih h')
  | binary hc _ ih => exact .binary hc (ih h')
  | list hc _ ih => exact .list hc (ih h')
  | caseDistinction hsel _ ih => exact .caseDistinction hsel (ih h')
  | reference href _ ih => exact .reference href (ih h')

section Query

variable {af : AdvFunc ℝ} {bv : ValueMap ℝ} {x : String} {e : RealExpr ℝ} {F : ℝ → ℝ}

/-- The derivative is returned at some point. -/
def AdvFunc.Returns (af : AdvFunc ℝ) (bv : ValueMap ℝ) (x : String) (e : RealExpr ℝ) : Prop :=
  ∃ fuel d, (AdvFunc.evalPartialDerivative fuel e x bv af).1 = ok d

/-- Whatever is returned for the derivative is right. -/
def AdvFunc.ReturnsRight (af : AdvFunc ℝ) (bv : ValueMap ℝ) (x : String) (e : RealExpr ℝ)
    (F : ℝ → ℝ) : Prop :=
  ∀ fuel d, (AdvFunc.evalPartialDerivative fuel e x bv af).1 = ok d →
    HasDerivAt F d ((af.env bv).point x)

theorem DerivRight.returnsRight (hv : af.advValid = true)
    (h : DerivRight (af.env bv) x e F) : af.ReturnsRight bv x e F := by
  intro fuel d hd
  obtain ⟨d', hd', hderiv⟩ := h
  have hsem := sem_of_returned hv (refines_deriv (af.env bv) x e) hd
  obtain rfl := Outcome.ok.inj (hd'.symm.trans hsem)
  exact hderiv

theorem AdvFunc.Returns.derivRight (hv : af.advValid = true) (h : af.Returns bv x e)
    (hright : af.ReturnsRight bv x e F) : DerivRight (af.env bv) x e F := by
  obtain ⟨fuel, d, hd⟩ := h
  exact ⟨d, sem_of_returned hv (refines_deriv (af.env bv) x e) hd, hright fuel d hd⟩

/-- **Is `evalPartialDerivative` the derivative?**  `F` is what `evaluate` computes.  The
derivative that is returned is right if every part that is differentiated is harmless;
and where all of them return, all derivatives are right only then. -/
theorem derivatives_right_iff (hv : af.advValid = true) (h : Along (af.env bv) x e F) :
    (∀ fuel v, (AdvFunc.evaluate fuel e bv af).1 = ok v → v = F ((af.env bv).point x)) ∧
    ((∀ s, Differentiates (af.env bv) e s → Harmless (af.env bv) x s) →
      af.ReturnsRight bv x e F) ∧
    ((∀ s, Differentiates (af.env bv) e s → af.Returns bv x s) →
      ((∀ s f, Differentiates (af.env bv) e s → Along (af.env bv) x s f →
          af.ReturnsRight bv x s f) ↔
        ∀ s, Differentiates (af.env bv) e s → Harmless (af.env bv) x s)) := by
  refine ⟨fun fuel v hret => ?_, fun hharm => (h.derivRight hharm).returnsRight hv,
    fun hreturns => ⟨fun hright s hs => ?_, fun hharm s f hs hf => ?_⟩⟩
  · have hsem := sem_of_returned hv (refines_eval (af.env bv) e) hret
    exact (Outcome.ok.inj (h.evalSem.symm.trans hsem)).symm
  · have hderiv : ∀ s' f, Differentiates (af.env bv) s s' → Along (af.env bv) x s' f →
        DerivRight (af.env bv) x s' f := fun s' f hs' hf =>
      (hreturns s' (hs.trans hs')).derivRight hv (hright s' f (hs.trans hs') hf)
    cases s with
    | polynomial n p =>
      obtain ⟨f, hf⟩ := h.part hs
      exact (derivRight_polynomial hf).mp (hderiv _ f (.refl _) hf)
    | unaryOperation n op a =>
      cases op with
      | square =>
        intro f hf
        have ha : DerivRight (af.env bv) x a f := hderiv a f (.unary (.refl a)) hf
        have hop : unaryFun .square = some fun y : ℝ => y * y := rfl
        have hreg : UnaryRegular .square (f ((af.env bv).point x)) := trivial
        exact (derivRight_unary hop hreg hf ha).mp
          (hderiv _ _ (.refl _) (.unaryOperation hop hreg hf)) rfl
      | _ => exact trivial
    | _ => exact trivial
  · exact (hf.derivRight fun s' hs' => hharm s' (hs.trans hs')).returnsRight hv

end Query

/-! ### The square of a variable -/

/-- The expression `P²` of one variable. -/
def squareOfP : RealExpr ℝ := .unaryOperation none .square (.var none "P")

theorem along_squareOfP (af : AdvFunc ℝ) (p q : ℝ) :
    Along (af.env (bindPQ p q)) "P" squareOfP fun t => t * t := by
  have hP : Along (af.env (bindPQ p q)) "P" (.var none "P") fun t => if "P" = "P" then t else p :=
    .var (bindPQ_P p q)
  exact .unaryOperation (g := fun y => y * y) rfl trivial hP

/-- At `P = 1` the missing factor is one. -/
theorem harmless_squareOfP (af : AdvFunc ℝ) (q : ℝ) (s : RealExpr ℝ)
    (h : Differentiates (af.env (bindPQ 1 q)) squareOfP s) :
    Harmless (af.env (bindPQ 1 q)) "P" s := by
  cases h with
  | refl =>
    intro f hf
    left
    cases hf with
    | var h => rfl
  | unary hs =>
    cases hs with
    | refl => exact trivial

theorem derivatives_right_iff_sample :
    AdvFunc.ReturnsRight (AdvFunc.new ⟨none, none, none, []⟩).2 (bindPQ 1 0) "P" squareOfP
      fun t => t * t :=
  (derivatives_right_iff rfl (along_squareOfP _ 1 0)).2.1 (harmless_squareOfP _ 0)

/-- At `P = 3` the derivative of `P²` is said to be 2. -/
theorem square_derivative_wrong :
    Along ((AdvFunc.new ⟨none, none, none, []⟩).2.env (bindPQ 3 0)) "P" squareOfP
      (fun t => t * t) ∧
    (AdvFunc.evalPartialDerivative 2 squareOfP "P" (bindPQ 3 0)
      (AdvFunc.new ⟨none, none, none, []⟩).2).1 = ok 2 ∧
    ¬ HasDerivAt (fun t : ℝ => t * t) 2 3 := by
  refine ⟨along_squareOfP _ 3 0, ?_, ?_⟩
  · show ok (Double.lit 2 * (1 : ℝ)) = ok 2
    rw [lit_real]
    norm_num
  · intro h
    have h6 : HasDerivAt (fun t : ℝ => t * t) (1 * 3 + 3 * 1) 3 :=
      (hasDerivAt_id' (3 : ℝ)).mul (hasDerivAt_id' 3)
    have huniq := h.unique h6
    norm_num at huniq

end Commelec
