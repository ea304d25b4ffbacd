/-
Commelec/Parametric.lean

The methods of the interpreter respect every `EffectRel`: run in two monads on
related objects with related recursive calls, they give related computations.
Each method has one lemma; everything said later about whole evaluations (more
fuel, a guard removed, other reference maps, a quantity that only grows) is an
instance of them.

Two objects need not be related at every expression, only at those a query can
get to.  `Closed PR PS` says that the expressions in `PR` and the sets in `PS`
have their parts in `PR` and `PS`; `Related` compares two objects there.
-/
import Commelec.Derivative
import Commelec.Projection
import Commelec.RectHull

namespace Commelec

open Effectful

/-- `PR` and `PS` contain the parts of their members. -/
structure Closed {R : Type} (PR : RealExpr R → Prop) (PS : SetExpr R → Prop) : Prop where
  unary {n op a} : PR (.unaryOperation n op a) → PR a
  binary {n op a b} : PR (.binaryOperation n op a b) → PR a ∧ PR b
  list {n op as} : PR (.listOperation n op as) → ∀ a ∈ as, PR a
  realCases {n vars cs} : PR (.caseDistinction n vars cs) → ∀ c ∈ cs, PS c.1 ∧ PR c.2
  singleton {n as} : PS (.singleton n as) → ∀ a ∈ as, PR a
  ball {n c r} : PS (.ball n c r) → (∀ a ∈ c, PR a) ∧ PR r
  rectangle {n bs} : PS (.rectangle n bs) → ∀ b ∈ bs, PR b.1 ∧ PR b.2
  convexPolytope {n a b} : PS (.convexPolytope n a b) →
    (∀ row ∈ a, ∀ e ∈ row, PR e) ∧ ∀ e ∈ b, PR e
  intersection {n ss} : PS (.intersection n ss) → ∀ s ∈ ss, PS s

theorem Closed.all {R : Type} :
    Closed (fun _ : RealExpr R => True) (fun _ : SetExpr R => True) := by
  constructor <;> simp

variable {R : Type} [Double R]
variable {m m' : Type → Type} [Effects Err m] [Effects Err m']

/-- Two objects are related at the expressions in `PR` and the sets in `PS`. -/
structure Related (S : EffectRel Err m m') (PR : RealExpr R → Prop)
    (PS : SetExpr R → Prop) (obj : Self R m) (obj' : Self R m') : Prop where
  boundVars : obj.boundVars = obj'.boundVars
  visit : S.rel obj.visit obj'.visit
  visitSet {s} : PS s → S.rel obj.visitSet obj'.visitSet
  real {n ref} : PR (.reference n ref) →
    obj.realExprRefs ref = obj'.realExprRefs ref ∧
    ∀ e, obj.realExprRefs ref = some e → PR e
  set {n ref} : PS (.reference n ref) →
    ∀ {α : Type} {k : SetExpr R → m α} {k' : SetExpr R → m' α},
      (∀ s, PS s → S.rel (k s) (k' s)) →
      S.rel (obj.findSet ref >>= k) (obj'.findSet ref >>= k')

/-- Recursive calls are related at the expressions in `PR` and the sets in `PS`. -/
structure RelCalls (S : EffectRel Err m m') (PR : RealExpr R → Prop)
    (PS : SetExpr R → Prop) (c : Calls R m) (c' : Calls R m') : Prop where
  eval {e} : PR e → S.rel (c.eval e) (c'.eval e)
  membership {s} (pt : List R) : PS s → S.rel (c.membership s pt) (c'.membership s pt)

variable (S : EffectRel Err m m')

/-! ### Operations, polynomials and case distinctions -/

theorem rel_evalUnaryOperation {op : UnaryOp} {x : m R} {y : m' R} (h : S.rel x y) :
    S.rel (evalUnaryOperation op x) (evalUnaryOperation op y) := by
  unfold evalUnaryOperation
  split
  · exact S.rel_map h _
  · exact S.rel_raise _

theorem rel_evalBinaryOperation {op : BinaryOp} {x₁ x₂ : m R} {y₁ y₂ : m' R}
    (h₁ : S.rel x₁ y₁) (h₂ : S.rel x₂ y₂) :
    S.rel (evalBinaryOperation op x₁ x₂) (evalBinaryOperation op y₁ y₂) := by
  unfold evalBinaryOperation
  split
  · exact S.rel_ite (S.rel_bind h₂ fun _ => S.rel_map h₁ _) (S.rel_bind h₁ fun _ => S.rel_map h₂ _)
  · exact S.rel_raise _

theorem rel_evalListOperation {op : ListOp} {xs : List (m R)} {ys : List (m' R)}
    (h : List.Forall₂ S.rel xs ys) :
    S.rel (evalListOperation op xs) (evalListOperation op ys) := by
  unfold evalListOperation
  split
  · exact S.rel_map (S.rel_collect h) _
  · exact S.rel_map (S.rel_collect h) _
  · exact S.rel_raise _

theorem rel_intPow (d var : ℕ) : S.rel (intPow d var : m ℤ) (intPow d var) := by
  unfold intPow
  exact S.rel_ite (S.rel_pure _) (S.rel_raise _)

theorem rel_evalMonomial (d : ℕ) (offset dVar : ℤ) (var : ℕ) (pt : List R) (monom : R) :
    S.rel (evalMonomial d offset dVar var pt monom : m R)
      (evalMonomial d offset dVar var pt monom) := by
  induction pt generalizing var monom with
  | nil => exact S.rel_pure _
  | cons x pt ih =>
    simp only [evalMonomial]
    refine S.rel_bind (rel_intPow S d var) fun k => ?_
    exact S.rel_ite (S.rel_ite (S.rel_pure _) (S.rel_ite (ih _ _) (ih _ _))) (ih _ _)

omit [Double R] in
theorem rel_boundVarAt (bv : ValueMap R) (var : String) :
    S.rel (boundVarAt bv var : m R) (boundVarAt bv var) := by
  unfold boundVarAt
  split
  · exact S.rel_pure _
  · exact S.rel_raise _

theorem rel_evalPolynomial (bv : ValueMap R) (poly : Polynomial R) (dVar : ℤ) :
    S.rel (evalPolynomial bv poly dVar : m R) (evalPolynomial bv poly dVar) := by
  unfold evalPolynomial
  refine S.rel_bind (S.rel_collect (S.forall₂_map fun v _ => rel_boundVarAt S bv v))
    fun pt => S.rel_map (S.rel_collect (S.forall₂_map fun coeff _ => ?_)) _
  exact S.rel_map (rel_evalMonomial S _ _ _ _ _ _) _

omit [Double R] in
theorem rel_casePoint (bv : ValueMap R) (vars : List String) :
    S.rel (casePoint bv vars : m (List R)) (casePoint bv vars) := by
  unfold casePoint
  refine S.rel_collect (S.forall₂_map fun v _ => ?_)
  split
  · exact S.rel_pure _
  · exact S.rel_raise _

omit [Double R] in
theorem rel_firstCase {cs : List (m Bool × m R)} {cs' : List (m' Bool × m' R)}
    (h : List.Forall₂ (fun c c' => S.rel c.1 c'.1 ∧ S.rel c.2 c'.2) cs cs') :
    S.rel (firstCase cs) (firstCase cs') := by
  induction h with
  | nil => exact S.rel_raise _
  | cons hc _ ih =>
    simp only [firstCase]
    exact S.rel_bind hc.1 fun b => S.rel_ite hc.2 ih

omit [Double R] in
theorem rel_caseDistinction {bv bv' : ValueMap R} (hbv : bv = bv') (vars : List String)
    {cs : List ((List R → m Bool) × m R)} {cs' : List ((List R → m' Bool) × m' R)}
    (h : List.Forall₂ (fun c c' => (∀ pt, S.rel (c.1 pt) (c'.1 pt)) ∧ S.rel c.2 c'.2)
      cs cs') :
    S.rel (caseDistinction bv vars cs) (caseDistinction bv' vars cs') := by
  subst hbv
  unfold caseDistinction
  refine S.rel_bind (rel_casePoint S bv vars) fun pt => rel_firstCase S ?_
  rw [List.forall₂_map_left_iff, List.forall₂_map_right_iff]
  exact h.imp fun c c' hc => ⟨hc.1 pt, hc.2⟩

omit [Double R] in
/-- The same cases on both sides. -/
theorem forall₂_cases {PR : RealExpr R → Prop} {PS : SetExpr R → Prop}
    {cs : List (SetExpr R × RealExpr R)} {mem : SetExpr R → List R → m Bool}
    {mem' : SetExpr R → List R → m' Bool} {ev : RealExpr R → m R} {ev' : RealExpr R → m' R}
    (hcs : ∀ c ∈ cs, PS c.1 ∧ PR c.2)
    (hmem : ∀ s pt, PS s → S.rel (mem s pt) (mem' s pt))
    (hev : ∀ e, PR e → S.rel (ev e) (ev' e)) :
    List.Forall₂ (fun c c' => (∀ pt, S.rel (c.1 pt) (c'.1 pt)) ∧ S.rel c.2 c'.2)
      (cs.map fun c => (mem c.1, ev c.2)) (cs.map fun c => (mem' c.1, ev' c.2)) := by
  rw [List.forall₂_map_left_iff, List.forall₂_map_right_iff, List.forall₂_same]
  exact fun c hc => ⟨fun pt => hmem _ pt (hcs c hc).1, hev _ (hcs c hc).2⟩

/-! ### Evaluation -/

section Steps

variable {PR : RealExpr R → Prop} {PS : SetExpr R → Prop} (hcl : Closed PR PS)
variable {self : Self R m} {self' : Self R m'} {c : Calls R m} {c' : Calls R m'}
variable {S}

omit [Double R] in
theorem rel_derefReal (h : Related S PR PS self self') {n : Option String} {ref : String}
    (he : PR (.reference n ref)) (what : String)
    {k : RealExpr R → m R} {k' : RealExpr R → m' R}
    (hk : ∀ e, PR e → S.rel (k e) (k' e)) :
    S.rel (derefReal self what ref k) (derefReal self' what ref k') := by
  obtain ⟨heq, hin⟩ := h.real he
  unfold derefReal
  rw [← heq]
  split
  · exact hk _ (hin _ ‹_›)
  · exact S.rel_raise _

omit [Double R] in
theorem rel_evalVar (h : Related S PR PS self self') (var : String) :
    S.rel (evalVar self var) (evalVar self' var) := by
  unfold evalVar
  rw [← h.boundVars]
  split
  · exact S.rel_pure _
  · exact S.rel_raise _

include hcl in
/-- **`eval` respects the relation**, given that its recursive calls do. -/
theorem rel_evalRealExpr (h : Related S PR PS self self') (hc : RelCalls S PR PS c c')
    {e : RealExpr R} (he : PR e) :
    S.rel (evalRealExpr self c e) (evalRealExpr self' c' e) := by
  unfold evalRealExpr
  refine S.rel_bind h.visit fun _ => ?_
  cases e with
  | real n v => exact S.rel_pure v
  | polynomial n p => rw [← h.boundVars]; exact rel_evalPolynomial S _ p _
  | unaryOperation n op a => exact rel_evalUnaryOperation S (hc.eval (hcl.unary he))
  | binaryOperation n op a b =>
    obtain ⟨ha, hb⟩ := hcl.binary he
    exact rel_evalBinaryOperation S (hc.eval ha) (hc.eval hb)
  | listOperation n op as =>
    exact rel_evalListOperation S (S.forall₂_map fun a ha => hc.eval (hcl.list he a ha))
  | caseDistinction n vars cs =>
    exact rel_caseDistinction S h.boundVars vars (forall₂_cases S (hcl.realCases he)
      (fun s pt hs => hc.membership pt hs) (fun e he => hc.eval he))
  | reference n ref => exact rel_derefReal h he _ fun e he => hc.eval he
  | var n v => exact rel_evalVar h v
  | unknown n w => exact S.rel_raise _

/-! ### Membership -/

variable (S)

theorem rel_assert (b : Bool) : S.rel (assert b : m Unit) (assert b) := by
  unfold assert
  exact S.rel_ite (S.rel_pure _) (S.rel_raise _)

omit [Double R] in
theorem rel_evalToMatrix {rows : List (List (m R))} {rows' : List (List (m' R))}
    (h : List.Forall₂ (List.Forall₂ S.rel) rows rows') :
    S.rel (evalToMatrix rows) (evalToMatrix rows') := by
  have hlen : rows.map List.length = rows'.map List.length := by
    induction h with
    | nil => rfl
    | cons hr _ ih => simp [hr.length_eq, ih]
  have hcheck : (checkCapnpMatrix rows).1 = (checkCapnpMatrix rows').1 := by
    simp only [checkCapnpMatrix, hlen]
  unfold evalToMatrix
  rw [hcheck]
  refine S.rel_ite (S.rel_raise _) (S.rel_collect ?_)
  rw [List.forall₂_map_left_iff, List.forall₂_map_right_iff]
  exact h.imp fun _ _ hr => S.rel_collect hr

theorem rel_membershipSingleton {xs : List (m R)} {ys : List (m' R)}
    (h : List.Forall₂ S.rel xs ys) (pt : List R) :
    S.rel (membershipSingleton xs pt) (membershipSingleton ys pt) := by
  unfold membershipSingleton evalToVector
  rw [h.length_eq]
  exact S.rel_bind (rel_assert S _) fun _ => S.rel_map (S.rel_collect h) _

theorem rel_membershipBall {xs : List (m R)} {ys : List (m' R)} {r : m R} {r' : m' R}
    (h : List.Forall₂ S.rel xs ys) (hr : S.rel r r') (pt : List R) :
    S.rel (membershipBall xs r pt) (membershipBall ys r' pt) := by
  unfold membershipBall evalToVector
  rw [h.length_eq]
  exact S.rel_bind (rel_assert S _) fun _ => S.rel_bind (S.rel_collect h) fun _ =>
    S.rel_map hr _

/-- Boundary pairs that are related bound by bound. -/
abbrev RelBounds (xs : List (m R × m R)) (ys : List (m' R × m' R)) : Prop :=
  List.Forall₂ (fun b b' => S.rel b.1 b'.1 ∧ S.rel b.2 b'.2) xs ys

theorem rel_insideBounds {xs : List (m R × m R)} {ys : List (m' R × m' R)}
    (h : RelBounds S xs ys) (pt : List R) :
    S.rel (insideBounds xs pt) (insideBounds ys pt) := by
  induction h generalizing pt with
  | nil => exact S.rel_pure _
  | cons hb _ ih =>
    cases pt with
    | nil => exact S.rel_raise _
    | cons x pt =>
      simp only [insideBounds]
      exact S.rel_bind hb.1 fun _ => S.rel_bind hb.2 fun _ =>
        S.rel_ite (S.rel_pure _) (ih pt)

theorem rel_membershipRectangle {xs : List (m R × m R)} {ys : List (m' R × m' R)}
    (h : RelBounds S xs ys) (pt : List R) :
    S.rel (membershipRectangle xs pt) (membershipRectangle ys pt) := by
  unfold membershipRectangle
  rw [h.length_eq]
  exact S.rel_bind (rel_assert S _) fun _ => rel_insideBounds S h pt

theorem rel_membershipConvexPolytope {a : List (List (m R))} {a' : List (List (m' R))}
    {b : List (m R)} {b' : List (m' R)} (ha : List.Forall₂ (List.Forall₂ S.rel) a a')
    (hb : List.Forall₂ S.rel b b') (pt : List R) :
    S.rel (membershipConvexPolytope a b pt) (membershipConvexPolytope a' b' pt) := by
  unfold membershipConvexPolytope evalToVector
  exact S.rel_bind (rel_evalToMatrix S ha) fun _ => S.rel_bind (S.rel_collect hb) fun _ =>
    S.rel_bind (rel_assert S _) fun _ => S.rel_bind (rel_assert S _) fun _ => S.rel_pure _

theorem rel_membershipIntersection {xs : List (m Bool)} {ys : List (m' Bool)}
    (h : List.Forall₂ S.rel xs ys) :
    S.rel (membershipIntersection xs) (membershipIntersection ys) := by
  induction h with
  | nil => exact S.rel_pure _
  | cons hx _ ih =>
    simp only [membershipIntersection]
    exact S.rel_bind hx fun _ => S.rel_ite ih (S.rel_pure _)

variable {S}

omit [Double R] in
theorem forall₂_bounds {bs : List (RealExpr R × RealExpr R)}
    (hb : ∀ b ∈ bs, PR b.1 ∧ PR b.2) (hc : RelCalls S PR PS c c') :
    RelBounds S (bs.map fun b => (c.eval b.1, c.eval b.2))
      (bs.map fun b => (c'.eval b.1, c'.eval b.2)) := by
  rw [RelBounds, List.forall₂_map_left_iff, List.forall₂_map_right_iff, List.forall₂_same]
  exact fun b hin => ⟨hc.eval (hb b hin).1, hc.eval (hb b hin).2⟩

omit [Double R] in
theorem forall₂_matrix {a : List (List (RealExpr R))}
    (ha : ∀ row ∈ a, ∀ e ∈ row, PR e) (hc : RelCalls S PR PS c c') :
    List.Forall₂ (List.Forall₂ S.rel) (a.map (List.map c.eval))
      (a.map (List.map c'.eval)) := by
  rw [List.forall₂_map_left_iff, List.forall₂_map_right_iff, List.forall₂_same]
  exact fun row hrow => S.forall₂_map fun e he => hc.eval (ha row hrow e he)

include hcl in
/-- **`membership` respects the relation.** -/
theorem rel_membershipSetExpr (h : Related S PR PS self self')
    (hc : RelCalls S PR PS c c') {s : SetExpr R} (hs : PS s) (pt : List R) :
    S.rel (membershipSetExpr self c s pt) (membershipSetExpr self' c' s pt) := by
  unfold membershipSetExpr
  refine S.rel_bind (h.visitSet hs) fun _ => ?_
  cases s with
  | singleton n as =>
    exact rel_membershipSingleton S (S.forall₂_map fun a ha =>
      hc.eval (hcl.singleton hs a ha)) pt
  | ball n center r =>
    obtain ⟨hcenter, hr⟩ := hcl.ball hs
    exact rel_membershipBall S (S.forall₂_map fun a ha => hc.eval (hcenter a ha))
      (hc.eval hr) pt
  | rectangle n bs =>
    exact rel_membershipRectangle S (forall₂_bounds (hcl.rectangle hs) hc) pt
  | convexPolytope n a b =>
    obtain ⟨ha, hb⟩ := hcl.convexPolytope hs
    exact rel_membershipConvexPolytope S (forall₂_matrix ha hc)
      (S.forall₂_map fun e he => hc.eval (hb e he)) pt
  | intersection n ss =>
    exact rel_membershipIntersection S (S.forall₂_map fun s hin =>
      hc.membership pt (hcl.intersection hs s hin))
  | reference n ref => exact h.set hs fun s hs => hc.membership pt hs
  | caseDistinction n vars cs => exact S.rel_raise _
  | unknown n w => exact S.rel_raise _

include hcl in
/-- With the same fuel on both sides, related objects have related calls. -/
theorem rel_calls (h : Related S PR PS self self')
    (hstop : ∀ {α : Type}, S.rel (stop : m α) (stop : m' α)) (fuel : ℕ) :
    RelCalls S PR PS (calls self fuel) (calls self' fuel) := by
  induction fuel with
  | zero => exact ⟨fun _ => hstop, fun _ _ => hstop⟩
  | succ fuel ih =>
    exact ⟨fun he => rel_evalRealExpr hcl h ih he,
      fun pt hs => rel_membershipSetExpr hcl h ih hs pt⟩

include hcl in
/-- The same with more fuel on the right, if a computation that is cut off is related to
everything. -/
theorem rel_calls_succ (h : Related S PR PS self self')
    (hbot : ∀ {α : Type} (y : m' α), S.rel (stop : m α) y) (fuel : ℕ) :
    RelCalls S PR PS (calls self fuel) (calls self' (fuel + 1)) := by
  induction fuel with
  | zero => exact ⟨fun _ => hbot _, fun _ _ => hbot _⟩
  | succ fuel ih =>
    exact ⟨fun he => rel_evalRealExpr hcl h ih he,
      fun pt hs => rel_membershipSetExpr hcl h ih hs pt⟩

/-! ### Derivatives -/

variable (S)

theorem rel_outerTimesInner {x dx : m R} {y dy : m' R} (h : S.rel x y) (hd : S.rel dx dy)
    (g : R → R) : S.rel (outerTimesInner x dx g) (outerTimesInner y dy g) :=
  S.rel_bind h fun _ => S.rel_map hd _

theorem rel_derivUnaryOperation {op : UnaryOp} {x dx : m R} {y dy : m' R}
    (h : S.rel x y) (hd : S.rel dx dy) :
    S.rel (derivUnaryOperation op x dx) (derivUnaryOperation op y dy) := by
  cases op with
  | negate | square => exact S.rel_map hd _
  | round | floor | ceil => exact hd
  | sign => exact S.rel_pure _
  | unknown => exact S.rel_raise _
  | _ => exact rel_outerTimesInner S h hd _

theorem rel_derivBinaryOperation {op : BinaryOp} {x₁ x₂ dx₁ dx₂ : m R}
    {y₁ y₂ dy₁ dy₂ : m' R} (h₁ : S.rel x₁ y₁) (h₂ : S.rel x₂ y₂) (hd₁ : S.rel dx₁ dy₁)
    (hd₂ : S.rel dx₂ dy₂) :
    S.rel (derivBinaryOperation op x₁ x₂ dx₁ dx₂)
      (derivBinaryOperation op y₁ y₂ dy₁ dy₂) := by
  cases op with
  | sum => exact S.rel_bind hd₁ fun _ => S.rel_map hd₂ _
  | prod =>
    exact S.rel_bind h₁ fun _ => S.rel_bind hd₂ fun _ => S.rel_bind h₂ fun _ =>
      S.rel_map hd₁ _
  | pow =>
    exact S.rel_bind h₁ fun _ => S.rel_bind h₂ fun _ => S.rel_bind hd₁ fun _ =>
      S.rel_map hd₂ _
  | min | max => exact S.rel_bind h₁ fun _ => S.rel_bind h₂ fun _ => S.rel_ite hd₁ hd₂
  | lessEqThan | greaterThan => exact S.rel_pure _
  | unknown => exact S.rel_raise _

theorem rel_derivListOperation {op : ListOp} {xs dxs : List (m R)} {ys dys : List (m' R)}
    (h : List.Forall₂ S.rel xs ys) (hd : List.Forall₂ S.rel dxs dys) :
    S.rel (derivListOperation op xs dxs) (derivListOperation op ys dys) := by
  cases op with
  | sum => exact S.rel_map (S.rel_collect hd) _
  | prod => exact S.rel_bind (S.rel_collect h) fun _ => S.rel_map (S.rel_collect hd) _
  | unknown => exact S.rel_raise _

theorem rel_derivPolynomial (bv : ValueMap R) (poly : Polynomial R) (x : String) :
    S.rel (derivPolynomial bv poly x : m R) (derivPolynomial bv poly x) := by
  unfold derivPolynomial
  exact S.rel_ite (rel_evalPolynomial S bv poly _) (S.rel_pure _)

variable {S}

theorem rel_derivVar (h : Related S PR PS self self') (x var : String) :
    S.rel (derivVar self x var) (derivVar self' x var) := by
  unfold derivVar
  rw [← h.boundVars]
  split
  · exact S.rel_ite (S.rel_pure _) (S.rel_pure _)
  · exact S.rel_raise _

include hcl in
/-- **`evalPartialDerivative` respects the relation.** -/
theorem rel_derivRealExpr (h : Related S PR PS self self') (hc : RelCalls S PR PS c c')
    {pd : RealExpr R → m R} {pd' : RealExpr R → m' R}
    (hpd : ∀ e, PR e → S.rel (pd e) (pd' e)) (x : String) {e : RealExpr R} (he : PR e) :
    S.rel (derivRealExpr self c pd x e) (derivRealExpr self' c' pd' x e) := by
  unfold derivRealExpr
  refine S.rel_bind h.visit fun _ => ?_
  cases e with
  | real n v => exact S.rel_pure 0
  | polynomial n p => rw [← h.boundVars]; exact rel_derivPolynomial S _ p x
  | unaryOperation n op a =>
    exact rel_derivUnaryOperation S (hc.eval (hcl.unary he)) (hpd _ (hcl.unary he))
  | binaryOperation n op a b =>
    obtain ⟨ha, hb⟩ := hcl.binary he
    exact rel_derivBinaryOperation S (hc.eval ha) (hc.eval hb) (hpd _ ha) (hpd _ hb)
  | listOperation n op as =>
    have has := hcl.list he
    exact rel_derivListOperation S (S.forall₂_map fun a ha => hc.eval (has a ha))
      (S.forall₂_map fun a ha => hpd _ (has a ha))
  | caseDistinction n vars cs =>
    exact rel_caseDistinction S h.boundVars vars (forall₂_cases S (hcl.realCases he)
      (fun s pt hs => hc.membership pt hs) hpd)
  | reference n ref => exact rel_derefReal h he _ hpd
  | var n v => exact rel_derivVar h x v
  | unknown n w => exact S.rel_raise _

/-! ### Projections -/

variable (S)

theorem rel_projBall {xs : List (m R)} {ys : List (m' R)} {r : m R} {r' : m' R}
    (h : List.Forall₂ S.rel xs ys) (hr : S.rel r r') (pt : List R) :
    S.rel (projBall xs r pt) (projBall ys r' pt) := by
  unfold projBall evalToVector
  exact S.rel_bind (rel_membershipBall S h hr pt) fun _ => S.rel_ite (S.rel_pure _)
    (S.rel_bind (S.rel_collect h) fun _ => S.rel_map hr _)

theorem rel_clampBounds {xs : List (m R × m R)} {ys : List (m' R × m' R)}
    (h : RelBounds S xs ys) (pt : List R) :
    S.rel (clampBounds xs pt) (clampBounds ys pt) := by
  induction h generalizing pt with
  | nil =>
    cases pt with
    | nil => exact S.rel_pure _
    | cons x pt => exact S.rel_raise _
  | cons hb _ ih =>
    cases pt with
    | nil => exact S.rel_bind hb.1 fun _ => S.rel_bind hb.2 fun _ => S.rel_raise _
    | cons x pt =>
      exact S.rel_bind hb.1 fun _ => S.rel_bind hb.2 fun _ => S.rel_map (ih pt) _

theorem rel_projHalfSpace (hs : HalfSpace R) (pt : List R) :
    S.rel (projHalfSpace hs pt : m (List R)) (projHalfSpace hs pt) := by
  unfold projHalfSpace membershipHalfSpace
  exact S.rel_bind (S.rel_bind (rel_assert S _) fun _ => S.rel_pure _) fun _ =>
    S.rel_ite (S.rel_pure _) (S.rel_pure _)

/-- Projections that are related at every point. -/
abbrev RelProjs (ps : List (List R → m (List R))) (qs : List (List R → m' (List R))) :
    Prop :=
  List.Forall₂ (fun p q => ∀ pt, S.rel (p pt) (q pt)) ps qs

theorem rel_dykstraSweep {ps : List (List R → m (List R))}
    {qs : List (List R → m' (List R))} (h : RelProjs S ps qs) (ys : List (List R))
    (x : List R) : S.rel (dykstraSweep ps ys x) (dykstraSweep qs ys x) := by
  induction h generalizing ys x with
  | nil => exact S.rel_pure _
  | cons hp _ ih =>
    cases ys with
    | nil => exact S.rel_pure _
    | cons y ys =>
      simp only [dykstraSweep]
      exact S.rel_bind (rel_assert S _) fun _ => S.rel_bind (hp _) fun _ =>
        S.rel_bind (rel_assert S _) fun _ => S.rel_map (ih _ _) _

theorem rel_dykstraLoop {ps : List (List R → m (List R))}
    {qs : List (List R → m' (List R))} (h : RelProjs S ps qs) (iter : ℕ)
    (ys : List (List R)) (x : List R) :
    S.rel (dykstraLoop ps iter ys x) (dykstraLoop qs iter ys x) := by
  induction iter generalizing ys x with
  | zero => exact S.rel_pure _
  | succ iter ih =>
    simp only [dykstraLoop]
    exact S.rel_bind (rel_dykstraSweep S h ys x) fun _ =>
      S.rel_ite (S.rel_pure _) (ih _ _)

theorem rel_dykstra {ps : List (List R → m (List R))} {qs : List (List R → m' (List R))}
    (h : RelProjs S ps qs) (pt : List R) :
    S.rel (dykstraProjectionAlgorithm ps pt >>= convergedOr)
      (dykstraProjectionAlgorithm qs pt >>= convergedOr) := by
  unfold dykstraProjectionAlgorithm
  rw [h.length_eq]
  refine S.rel_bind (rel_dykstraLoop S h _ _ _) fun result => ?_
  cases result with
  | some x => exact S.rel_pure x
  | none => exact S.rel_raise _

omit [Double R] in
theorem rel_halfSpaces {a : List (List (m R))} {a' : List (List (m' R))} {b : List (m R)}
    {b' : List (m' R)} (ha : List.Forall₂ (List.Forall₂ S.rel) a a')
    (hb : List.Forall₂ S.rel b b') : S.rel (halfSpaces a b) (halfSpaces a' b') := by
  induction ha generalizing b b' with
  | nil => exact S.rel_pure _
  | cons hrow _ ih =>
    cases hb with
    | nil => exact S.rel_bind (S.rel_collect hrow) fun _ => S.rel_raise _
    | cons hbi hb =>
      exact S.rel_bind (S.rel_collect hrow) fun _ => S.rel_bind hbi fun _ =>
        S.rel_map (ih hb) _

theorem rel_projConvexPolytope {a : List (List (m R))} {a' : List (List (m' R))}
    {b : List (m R)} {b' : List (m' R)} (ha : List.Forall₂ (List.Forall₂ S.rel) a a')
    (hb : List.Forall₂ S.rel b b') (pt : List R) :
    S.rel (projConvexPolytope a b pt) (projConvexPolytope a' b' pt) := by
  unfold projConvexPolytope
  refine S.rel_bind (rel_membershipConvexPolytope S ha hb pt) fun _ =>
    S.rel_ite (S.rel_pure _) (S.rel_bind (rel_halfSpaces S ha hb) fun hss => ?_)
  refine rel_dykstra S ?_ pt
  rw [RelProjs, List.forall₂_map_left_iff, List.forall₂_map_right_iff, List.forall₂_same]
  exact fun hs _ => rel_projHalfSpace S hs

theorem rel_projIntersection {xs : List (m Bool)} {ys : List (m' Bool)}
    {ps : List (List R → m (List R))} {qs : List (List R → m' (List R))}
    (h : List.Forall₂ S.rel xs ys) (hp : RelProjs S ps qs) (pt : List R) :
    S.rel (projIntersection xs ps pt) (projIntersection ys qs pt) := by
  unfold projIntersection
  exact S.rel_bind (rel_membershipIntersection S h) fun _ =>
    S.rel_ite (S.rel_pure _) (rel_dykstra S hp pt)

variable {S}

include hcl in
/-- **`proj` respects the relation.** -/
theorem rel_projSetExpr (h : Related S PR PS self self') (hc : RelCalls S PR PS c c')
    {pr : SetExpr R → List R → m (List R)} {pr' : SetExpr R → List R → m' (List R)}
    (hpr : ∀ s pt, PS s → S.rel (pr s pt) (pr' s pt)) {s : SetExpr R} (hs : PS s)
    (pt : List R) :
    S.rel (projSetExpr self c pr s pt) (projSetExpr self' c' pr' s pt) := by
  unfold projSetExpr
  refine S.rel_bind (h.visitSet hs) fun _ => ?_
  cases s with
  | singleton n as =>
    exact S.rel_collect (S.forall₂_map fun a ha => hc.eval (hcl.singleton hs a ha))
  | ball n center r =>
    obtain ⟨hcenter, hr⟩ := hcl.ball hs
    exact rel_projBall S (S.forall₂_map fun a ha => hc.eval (hcenter a ha)) (hc.eval hr) pt
  | rectangle n bs =>
    exact rel_clampBounds S (forall₂_bounds (hcl.rectangle hs) hc) pt
  | convexPolytope n a b =>
    obtain ⟨ha, hb⟩ := hcl.convexPolytope hs
    exact rel_projConvexPolytope S (forall₂_matrix ha hc)
      (S.forall₂_map fun e he => hc.eval (hb e he)) pt
  | intersection n ss =>
    have hss := hcl.intersection hs
    refine rel_projIntersection S
      (S.forall₂_map fun s hin => hc.membership pt (hss s hin)) ?_ pt
    rw [RelProjs, List.forall₂_map_left_iff, List.forall₂_map_right_iff, List.forall₂_same]
    exact fun s hin pt => hpr s pt (hss s hin)
  | reference n ref => exact S.rel_raise _
  | caseDistinction n vars cs => exact S.rel_raise _
  | unknown n w => exact S.rel_raise _

/-! ### Bounding boxes -/

variable (S)

omit [Double R] in
theorem rel_lift {α : Type} (hstop : ∀ {β : Type}, S.rel (stop : m β) (stop : m' β))
    (x : Outcome Err α) : S.rel (x.lift : m α) x.lift := by
  cases x with
  | ok a => exact S.rel_pure a
  | throw e => exact S.rel_raise e
  | outOfFuel => exact hstop

theorem rel_computeAABB (hstop : ∀ {β : Type}, S.rel (stop : m β) (stop : m' β))
    (lp : LpSolver R) (A : Matrix R) (b : List R) :
    S.rel (computeAABBConvexPolytope lp A b : m (AlignedBox R))
      (computeAABBConvexPolytope lp A b) := by
  unfold computeAABBConvexPolytope
  have hlp := fun c => rel_lift S hstop (lp
    (List.zipWith (fun row bi => normalized (row ++ [bi])) A.rows b).flatten c)
  exact S.rel_bind (rel_assert S _) fun _ => S.rel_bind (rel_assert S _) fun _ =>
    S.rel_bind (hlp _) fun _ => S.rel_bind (hlp _) fun _ => S.rel_bind (hlp _) fun _ =>
      S.rel_map (hlp _) _

theorem rel_hullBall {xs : List (m R)} {ys : List (m' R)} {r : m R} {r' : m' R}
    (h : List.Forall₂ S.rel xs ys) (hr : S.rel r r') :
    S.rel (hullBall xs r) (hullBall ys r') :=
  S.rel_bind (S.rel_collect h) fun _ => S.rel_map hr _

theorem rel_hullRectangle {xs : List (m R × m R)} {ys : List (m' R × m' R)}
    (h : RelBounds S xs ys) : S.rel (hullRectangle xs) (hullRectangle ys) := by
  refine S.rel_map (S.rel_collect ?_) _
  rw [List.forall₂_map_left_iff, List.forall₂_map_right_iff]
  exact h.imp fun _ _ hb => S.rel_bind hb.1 fun _ => S.rel_map hb.2 _

/-- Members of an intersection that the loop sees alike. -/
inductive RelMember : Member R m → Member R m' → Prop
  | convexPolytope {a : List (List (m R))} {a' : List (List (m' R))} {b : List (m R)}
      {b' : List (m' R)} : List.Forall₂ (List.Forall₂ S.rel) a a' →
      List.Forall₂ S.rel b b' → RelMember (.convexPolytope a b) (.convexPolytope a' b')
  | other {x : m (AlignedBox R)} {y : m' (AlignedBox R)} :
      S.rel x y → RelMember (.other x) (.other y)

omit [Double R] in
theorem rel_commaInit (rows cols : ℕ) (blocks : List (Matrix R)) :
    S.rel (commaInit rows cols blocks : m (Matrix R)) (commaInit rows cols blocks) :=
  S.rel_bind (rel_assert S _) fun _ => S.rel_bind (rel_assert S _) fun _ => S.rel_pure _

omit [Double R] in
theorem rel_commaInitVec (size : ℕ) (blocks : List (List R)) :
    S.rel (commaInitVec size blocks : m (List R)) (commaInitVec size blocks) :=
  S.rel_bind (rel_assert S _) fun _ => S.rel_pure _

theorem rel_mergeMember (st : Merged R) {x : Member R m} {y : Member R m'}
    (h : RelMember S x y) : S.rel (mergeMember st x) (mergeMember st y) := by
  cases h with
  | convexPolytope ha hb =>
    simp only [mergeMember, evalToVector]
    refine S.rel_bind (S.rel_collect hb) fun bs =>
      S.rel_bind (rel_evalToMatrix S ha) fun A => ?_
    split
    · exact S.rel_pure _
    · exact S.rel_bind (rel_commaInit S _ _ _) fun _ => S.rel_map (rel_commaInitVec S _ _) _
  | other h =>
    simp only [mergeMember]
    refine S.rel_bind h fun hull => ?_
    split
    · exact S.rel_pure _
    · exact S.rel_map (S.rel_bind (rel_assert S _) fun _ =>
        S.rel_bind (rel_assert S _) fun _ => S.rel_pure _) _

/-- Members whose iterations are related. -/
abbrev RelMerge (x : Member R m) (y : Member R m') : Prop :=
  ∀ st, S.rel (mergeMember st x) (mergeMember st y)

theorem rel_mergeMembers (st : Merged R) {xs : List (Member R m)} {ys : List (Member R m')}
    (h : List.Forall₂ (RelMerge S) xs ys) :
    S.rel (mergeMembers st xs) (mergeMembers st ys) := by
  induction h generalizing st with
  | nil => exact S.rel_pure st
  | cons hx _ ih => exact S.rel_bind (hx st) fun st => ih st

theorem rel_intersectionSystem {xs : List (Member R m)} {ys : List (Member R m')}
    (h : List.Forall₂ (RelMerge S) xs ys) :
    S.rel (intersectionSystem xs) (intersectionSystem ys) := by
  unfold intersectionSystem
  refine S.rel_bind (rel_mergeMembers S _ h) fun st => ?_
  split
  · exact S.rel_pure _
  · exact S.rel_bind (rel_commaInit S _ _ _) fun _ => S.rel_map (rel_commaInitVec S _ _) _

theorem rel_hullIntersection (hstop : ∀ {β : Type}, S.rel (stop : m β) (stop : m' β))
    (lp : LpSolver R) {xs : List (Member R m)} {ys : List (Member R m')}
    (h : List.Forall₂ (RelMerge S) xs ys) :
    S.rel (hullIntersection lp xs) (hullIntersection lp ys) := by
  unfold hullIntersection
  refine S.rel_bind (rel_intersectionSystem S h) fun system => ?_
  cases system with
  | inl box => exact S.rel_pure box
  | inr s => exact rel_computeAABB S hstop lp s.1 s.2

variable {S}

omit [Double R] in
include hcl in
theorem rel_member (hc : RelCalls S PR PS c c') {rh : SetExpr R → m (AlignedBox R)}
    {rh' : SetExpr R → m' (AlignedBox R)} (hrh : ∀ s, PS s → S.rel (rh s) (rh' s))
    {s : SetExpr R} (hs : PS s) : RelMember S (member c rh s) (member c' rh' s) := by
  cases s with
  | convexPolytope n a b =>
    obtain ⟨ha, hb⟩ := hcl.convexPolytope hs
    exact .convexPolytope (forall₂_matrix ha hc) (S.forall₂_map fun e he => hc.eval (hb e he))
  | _ => exact .other (hrh _ hs)

include hcl in
/-- **`rectHull` respects the relation.** -/
theorem rel_hullSetExpr (h : Related S PR PS self self')
    (hstop : ∀ {β : Type}, S.rel (stop : m β) (stop : m' β)) (lp : LpSolver R)
    (hc : RelCalls S PR PS c c') {rh : SetExpr R → m (AlignedBox R)}
    {rh' : SetExpr R → m' (AlignedBox R)} (hrh : ∀ s, PS s → S.rel (rh s) (rh' s))
    {s : SetExpr R} (hs : PS s) :
    S.rel (hullSetExpr self lp c rh s) (hullSetExpr self' lp c' rh' s) := by
  unfold hullSetExpr
  refine S.rel_bind h.visit fun _ => ?_
  cases s with
  | singleton n as =>
    exact S.rel_map (S.rel_collect (S.forall₂_map fun a ha =>
      hc.eval (hcl.singleton hs a ha))) _
  | ball n center r =>
    obtain ⟨hcenter, hr⟩ := hcl.ball hs
    exact rel_hullBall S (S.forall₂_map fun a ha => hc.eval (hcenter a ha)) (hc.eval hr)
  | rectangle n bs => exact rel_hullRectangle S (forall₂_bounds (hcl.rectangle hs) hc)
  | convexPolytope n a b =>
    obtain ⟨ha, hb⟩ := hcl.convexPolytope hs
    exact S.rel_bind (rel_evalToMatrix S (forall₂_matrix ha hc)) fun _ =>
      S.rel_bind (S.rel_collect (S.forall₂_map fun e he => hc.eval (hb e he))) fun _ =>
        rel_computeAABB S hstop lp _ _
  | intersection n ss =>
    refine rel_hullIntersection S hstop lp ?_
    rw [List.forall₂_map_left_iff, List.forall₂_map_right_iff, List.forall₂_same]
    exact fun s hin st => rel_mergeMember S st (rel_member hcl hc hrh (hcl.intersection hs s hin))
  | reference n ref => exact S.rel_raise _
  | caseDistinction n vars cs => exact S.rel_raise _
  | unknown n w => exact S.rel_raise _

/-! ### Whole recursions -/

section Recursion

include hcl

variable (h : Related S PR PS self self')

include h

theorem rel_evalPartialDerivative (hstop : ∀ {α : Type}, S.rel (stop : m α) (stop : m' α))
    (x : String) (fuel : ℕ) {e : RealExpr R} (he : PR e) :
    S.rel (evalPartialDerivative self x fuel e) (evalPartialDerivative self' x fuel e) := by
  induction fuel generalizing e with
  | zero => exact hstop
  | succ fuel ih =>
    exact rel_derivRealExpr hcl h (rel_calls hcl h hstop fuel) (fun _ he => ih he) x he

theorem rel_evalPartialDerivative_succ (hbot : ∀ {α : Type} (y : m' α), S.rel (stop : m α) y)
    (x : String) (fuel : ℕ) {e : RealExpr R} (he : PR e) :
    S.rel (evalPartialDerivative self x fuel e)
      (evalPartialDerivative self' x (fuel + 1) e) := by
  induction fuel generalizing e with
  | zero => exact hbot _
  | succ fuel ih =>
    exact rel_derivRealExpr hcl h (rel_calls_succ hcl h hbot fuel) (fun _ he => ih he) x he

theorem rel_proj (hstop : ∀ {α : Type}, S.rel (stop : m α) (stop : m' α)) (fuel : ℕ)
    {s : SetExpr R} (hs : PS s) (pt : List R) :
    S.rel (proj self fuel s pt) (proj self' fuel s pt) := by
  induction fuel generalizing s pt with
  | zero => exact hstop
  | succ fuel ih =>
    exact rel_projSetExpr hcl h (rel_calls hcl h hstop fuel) (fun _ pt hs => ih hs pt) hs pt

theorem rel_proj_succ (hbot : ∀ {α : Type} (y : m' α), S.rel (stop : m α) y) (fuel : ℕ)
    {s : SetExpr R} (hs : PS s) (pt : List R) :
    S.rel (proj self fuel s pt) (proj self' (fuel + 1) s pt) := by
  induction fuel generalizing s pt with
  | zero => exact hbot _
  | succ fuel ih =>
    exact rel_projSetExpr hcl h (rel_calls_succ hcl h hbot fuel) (fun _ pt hs => ih hs pt) hs
      pt

theorem rel_projPoint (hstop : ∀ {α : Type}, S.rel (stop : m α) (stop : m' α)) (fuel : ℕ)
    {s : SetExpr R} (hs : PS s) (pt : List R) :
    S.rel (projPoint self fuel s pt) (projPoint self' fuel s pt) :=
  S.rel_bind (rel_proj hcl h hstop fuel hs pt) fun res =>
    S.rel_bind (rel_assert S _) fun _ => S.rel_pure res

theorem rel_projPoint_succ (hbot : ∀ {α : Type} (y : m' α), S.rel (stop : m α) y) (fuel : ℕ)
    {s : SetExpr R} (hs : PS s) (pt : List R) :
    S.rel (projPoint self fuel s pt) (projPoint self' (fuel + 1) s pt) :=
  S.rel_bind (rel_proj_succ hcl h hbot fuel hs pt) fun res =>
    S.rel_bind (rel_assert S _) fun _ => S.rel_pure res

theorem rel_rectHull (hstop : ∀ {α : Type}, S.rel (stop : m α) (stop : m' α))
    (lp : LpSolver R) (fuel : ℕ) {s : SetExpr R} (hs : PS s) :
    S.rel (rectHull self lp fuel s) (rectHull self' lp fuel s) := by
  induction fuel generalizing s with
  | zero => exact hstop
  | succ fuel ih =>
    exact rel_hullSetExpr hcl h hstop lp (rel_calls hcl h hstop fuel) (fun _ hs => ih hs) hs

theorem rel_rectHull_succ (hbot : ∀ {α : Type} (y : m' α), S.rel (stop : m α) y)
    (lp : LpSolver R) (fuel : ℕ) {s : SetExpr R} (hs : PS s) :
    S.rel (rectHull self lp fuel s) (rectHull self' lp (fuel + 1) s) := by
  induction fuel generalizing s with
  | zero => exact hbot _
  | succ fuel ih =>
    exact rel_hullSetExpr hcl h (hbot _) lp (rel_calls_succ hcl h hbot fuel)
      (fun _ hs => ih hs) hs

end Recursion

end Steps

end Commelec
