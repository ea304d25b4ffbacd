/-
Commelec/BuilderMeaning.lean

What the expression builder means.  A `Written` expression is what a programmer
writes: constants, variables and calls of the builder functions.  Each function
name denotes a mathematical function, so a written expression denotes a number
(`denote`); calling the functions gives the template that is built (`expr`).

Building and evaluating gives the denoted number of the expression in which every
`cos` has become a `sin` (`Written.buildsTo`): `cos` is instantiated with the class
`Sin`.
-/
import Mathlib.Analysis.SpecialFunctions.Log.Base
import Commelec.Metered
import Commelec.RealExprConvenience

namespace Commelec

open Effectful Outcome

/-- The unary builder functions. -/
inductive Fun1 where
  | exp | sin | cos | sqrt | square | log10 | ln | round | floor | ceil | abs | sign
  deriving DecidableEq, Repr

/-- The binary builder functions and operators. -/
inductive Fun2 where
  | max | min | pow | add | sub | mul | div
  deriving DecidableEq, Repr

/-- An expression as the programmer writes it. -/
inductive Written where
  | real (value : ℝ)
  | var (varname : String)
  | call1 (f : Fun1) (a : Written)
  | call2 (f : Fun2) (a b : Written)

/-! ### The template -/

/-- The template that a call returns. -/
def Fun1.apply {R : Type} : Fun1 → Cv.Expr R → Cv.Expr R
  | exp => Cv.exp
  | sin => Cv.sin
  | cos => Cv.cos
  | sqrt => Cv.sqrt
  | square => Cv.square
  | log10 => Cv.log10
  | ln => Cv.ln
  | round => Cv.round
  | floor => Cv.floor
  | ceil => Cv.ceil
  | abs => Cv.abs
  | sign => Cv.sign

def Fun2.apply {R : Type} : Fun2 → Cv.Expr R → Cv.Expr R → Cv.Expr R
  | max => Cv.max
  | min => Cv.min
  | pow => Cv.pow
  | add => Cv.add
  | sub => Cv.sub
  | mul => Cv.mul
  | div => Cv.div

/-- The nodes of `negate` and `multInv` that `-` and `/` add. -/
def Fun2.extra : Fun2 → ℕ
  | sub | div => 1
  | max | min | pow | add | mul => 0

namespace Written

def expr : Written → Cv.Expr ℝ
  | real value => .real value
  | var varname => .var varname
  | call1 f a => f.apply a.expr
  | call2 f a b => f.apply a.expr b.expr

/-- The variables that occur. -/
def vars : Written → List String
  | real _ => []
  | var varname => [varname]
  | call1 _ a => a.vars
  | call2 _ a b => a.vars ++ b.vars

/-- The number of nodes of the message. -/
def nodes : Written → ℕ
  | real _ | var _ => 1
  | call1 _ a => 1 + a.nodes
  | call2 f a b => 1 + (a.nodes + (b.nodes + f.extra))

end Written

/-! ### The meaning -/

/-- The function that a name denotes. -/
noncomputable def Fun1.denote : Fun1 → ℝ → ℝ
  | exp => Real.exp
  | sin => Real.sin
  | cos => Real.cos
  | sqrt => Real.sqrt
  | square => fun x => x ^ 2
  | log10 => Real.logb 10
  | ln => Real.log
  | round => roundHalfAway
  | floor => fun x => ⌊x⌋
  | ceil => fun x => ⌈x⌉
  | abs => fun x => |x|
  | sign => fun x => SignType.sign x

noncomputable def Fun2.denote : Fun2 → ℝ → ℝ → ℝ
  | max => fun x y => x ⊔ y
  | min => fun x y => x ⊓ y
  | pow => fun x y => x ^ y
  | add => fun x y => x + y
  | sub => fun x y => x - y
  | mul => fun x y => x * y
  | div => fun x y => x / y

/-- `sin` for `cos`. -/
def Fun1.cosAsSin (f : Fun1) : Fun1 := if f = .cos then .sin else f

namespace Written

noncomputable def denote (ρ : String → ℝ) : Written → ℝ
  | real value => value
  | var varname => ρ varname
  | call1 f a => f.denote (a.denote ρ)
  | call2 f a b => f.denote (a.denote ρ) (b.denote ρ)

/-- Write `sin` for every `cos`. -/
def cosAsSin : Written → Written
  | real value => real value
  | var varname => var varname
  | call1 f a => call1 f.cosAsSin a.cosAsSin
  | call2 f a b => call2 f a.cosAsSin b.cosAsSin

/-- `PartOf u w`: the expression `u` is a part of `w`, or all of it. -/
inductive PartOf : Written → Written → Prop
  | refl (w) : PartOf w w
  | call1 {u a} (f) : PartOf u a → PartOf u (call1 f a)
  | left {u a} (f b) : PartOf u a → PartOf u (call2 f a b)
  | right {u b} (f a) : PartOf u b → PartOf u (call2 f a b)

end Written

/-! ### Building and evaluating -/

/-- The operation that a call of a unary function sets. -/
def Fun1.op : Fun1 → UnaryOp
  | exp => .exp
  | sin | cos => .sin
  | sqrt => .sqrt
  | square => .square
  | log10 => .log10
  | ln => .ln
  | round => .round
  | floor => .floor
  | ceil => .ceil
  | abs => .abs
  | sign => .sign

theorem Fun1.apply_eq {R : Type} (f : Fun1) (a : Cv.Expr R) : f.apply a = .unaryOp f.op a := by
  cases f <;> rfl

/-- The function that is evaluated for a call: `sin` for `cos`, else the denoted one. -/
theorem Fun1.unaryFun_op (f : Fun1) :
    unaryFun f.op = some f.cosAsSin.denote := by
  cases f with
  | square => exact congrArg some (funext fun x => (sq x).symm)
  | log10 => exact congrArg some (funext fun x => rfl)
  | sign => exact congrArg some (funext sgn_real)
  | _ => rfl

section Built

variable {R : Type} [Double R] {boundVars : ValueMap R} {realExprRefs : RealExprRefMap R}

/-- The message `msg` is built for `e`, and evaluating it takes `n` visits. -/
structure BuildsTo (boundVars : ValueMap R) (realExprRefs : RealExprRefMap R)
    (e : Cv.Expr R) (msg : RealExpr R) (n : ℕ) (x : R) : Prop where
  built : (Cv.buildRealExpr e : Outcome Err (RealExpr R)) = ok msg
  metered : ∀ fuel, n ≤ fuel →
    Metered n x ((calls (methods boundVars realExprRefs) fuel).eval msg)

namespace BuildsTo

theorem real (x : R) : BuildsTo boundVars realExprRefs (.real x) (.real none x) 1 x where
  built := rfl
  metered := by
    intro fuel hfuel
    obtain ⟨k, rfl⟩ : ∃ k, fuel = k + 1 := ⟨fuel - 1, by omega⟩
    exact metered_real x

theorem var {v : String} {x : R} (hv : boundVars v = some x) :
    BuildsTo boundVars realExprRefs (.var v) (.var none v) 1 x where
  built := rfl
  metered := by
    intro fuel hfuel
    obtain ⟨k, rfl⟩ : ∃ k, fuel = k + 1 := ⟨fuel - 1, by omega⟩
    exact metered_var hv

theorem unaryOp {op : UnaryOp} {f : R → R} (hop : unaryFun op = some f) {a : Cv.Expr R}
    {msg : RealExpr R} {n : ℕ} {x : R} (ha : BuildsTo boundVars realExprRefs a msg n x) :
    BuildsTo boundVars realExprRefs (.unaryOp op a) (.unaryOperation none op msg)
      (1 + n) (f x) where
  built := by
    have hmsg : a.build none = ok msg := ha.built
    rw [Cv.buildRealExpr, Cv.Expr.build, hmsg]
    rfl
  metered := by
    intro fuel hfuel
    obtain ⟨k, rfl⟩ : ∃ k, fuel = k + 1 := ⟨fuel - 1, by omega⟩
    exact metered_unary hop (ha.metered k (by omega))

theorem binaryOp {op : BinaryOp} {f : R → R → R} (hop : binaryFun op = some f)
    {a b : Cv.Expr R} {msgA msgB : RealExpr R} {n k : ℕ} {x y : R}
    (ha : BuildsTo boundVars realExprRefs a msgA n x)
    (hb : BuildsTo boundVars realExprRefs b msgB k y) :
    BuildsTo boundVars realExprRefs (.binaryOp op a b) (.binaryOperation none op msgA msgB)
      (1 + (n + k)) (f x y) where
  built := by
    have hmsgA : a.build none = ok msgA := ha.built
    have hmsgB : b.build none = ok msgB := hb.built
    rw [Cv.buildRealExpr, Cv.Expr.build, hmsgA, ok_bind, hmsgB]
    rfl
  metered := by
    intro fuel hfuel
    obtain ⟨i, rfl⟩ : ∃ i, fuel = i + 1 := ⟨fuel - 1, by omega⟩
    exact metered_binary hop (ha.metered i (by omega)) (hb.metered i (by omega))

end BuildsTo

end Built

namespace BuildsTo

variable {boundVars : ValueMap ℝ} {realExprRefs : RealExprRefMap ℝ}

/-- A call of a unary function. -/
theorem call1 (f : Fun1) {a : Cv.Expr ℝ} {msg : RealExpr ℝ} {n : ℕ} {x : ℝ}
    (ha : BuildsTo boundVars realExprRefs a msg n x) :
    BuildsTo boundVars realExprRefs (f.apply a) (.unaryOperation none f.op msg) (1 + n)
      (f.cosAsSin.denote x) := by
  rw [f.apply_eq]
  exact unaryOp f.unaryFun_op ha

/-- A call of a binary function or operator. -/
theorem call2 (f : Fun2) {a b : Cv.Expr ℝ} {msgA msgB : RealExpr ℝ} {n k : ℕ} {x y : ℝ}
    (ha : BuildsTo boundVars realExprRefs a msgA n x)
    (hb : BuildsTo boundVars realExprRefs b msgB k y) :
    ∃ msg, BuildsTo boundVars realExprRefs (f.apply a b) msg
      (1 + (n + (k + f.extra))) (f.denote x y) := by
  cases f with
  | max =>
    have hop : binaryFun .max = some fun x y : ℝ => x ⊔ y :=
      congrArg some (funext fun x => funext fun y => stdMax_real x y)
    exact ⟨_, binaryOp hop ha hb⟩
  | min =>
    have hop : binaryFun .min = some fun x y : ℝ => x ⊓ y :=
      congrArg some (funext fun x => funext fun y => stdMin_real x y)
    exact ⟨_, binaryOp hop ha hb⟩
  | pow =>
    have hop : binaryFun .pow = some fun x y : ℝ => x ^ y := rfl
    exact ⟨_, binaryOp hop ha hb⟩
  | add =>
    have hop : binaryFun .sum = some fun x y : ℝ => x + y := rfl
    exact ⟨_, binaryOp hop ha hb⟩
  | mul =>
    have hop : binaryFun .prod = some fun x y : ℝ => x * y := rfl
    exact ⟨_, binaryOp hop ha hb⟩
  | sub =>
    have hop : binaryFun .sum = some fun x y : ℝ => x + y := rfl
    have hneg : unaryFun .negate = some fun x : ℝ => -x := rfl
    have h := binaryOp hop ha (unaryOp hneg hb)
    rw [← sub_eq_add_neg, Nat.add_comm 1 k] at h
    exact ⟨_, h⟩
  | div =>
    have hop : binaryFun .prod = some fun x y : ℝ => x * y := rfl
    have hinv : unaryFun .multInv = some fun x : ℝ => 1 / x := rfl
    have h := binaryOp hop ha (unaryOp hinv hb)
    rw [← div_eq_mul_one_div, Nat.add_comm 1 k] at h
    exact ⟨_, h⟩

end BuildsTo

section Written

variable {boundVars : ValueMap ℝ} {realExprRefs : RealExprRefMap ℝ}

/-- **What is built evaluates to** the value with `sin` for every `cos`, in as many
visits as the message has nodes. -/
theorem Written.buildsTo {ρ : String → ℝ} (w : Written)
    (hρ : ∀ v ∈ w.vars, boundVars v = some (ρ v)) :
    ∃ msg, BuildsTo boundVars realExprRefs w.expr msg w.nodes (w.cosAsSin.denote ρ) := by
  induction w with
  | real value => exact ⟨_, .real value⟩
  | var v => exact ⟨_, .var (hρ v (by simp [Written.vars]))⟩
  | call1 f a ih =>
    obtain ⟨msg, ha⟩ := ih hρ
    exact ⟨_, ha.call1 f⟩
  | call2 f a b iha ihb =>
    obtain ⟨msgA, ha⟩ := iha fun v hv => hρ v (by simp [Written.vars, hv])
    obtain ⟨msgB, hb⟩ := ihb fun v hv => hρ v (by simp [Written.vars, hv])
    exact ha.call2 f hb

end Written

/-! ### When the meaning is preserved -/

/-- Building `w` and evaluating the message gives the number that `w` denotes. -/
def Written.Preserved (af : AdvFunc ℝ) (bv : ValueMap ℝ) (w : Written) : Prop :=
  ∃ msg, (Cv.buildRealExpr w.expr : Outcome Err (RealExpr ℝ)) = ok msg ∧
    AdvFunc.Ends (fun fuel => AdvFunc.evaluate fuel msg bv) af
      (ok (w.denote fun v => (bv v).getD 0))

namespace Written

variable {af : AdvFunc ℝ} {bv : ValueMap ℝ} {u w : Written}

theorem PartOf.nodes_le (h : PartOf u w) : u.nodes ≤ w.nodes := by
  induction h with
  | refl => exact le_rfl
  | call1 f _ ih => simp only [nodes]; omega
  | left f b _ ih => simp only [nodes]; omega
  | right f a _ ih => simp only [nodes]; omega

theorem PartOf.vars_subset (h : PartOf u w) : ∀ v ∈ u.vars, v ∈ w.vars := by
  induction h with
  | refl => exact fun _ hv => hv
  | call1 f _ ih => exact ih
  | left f b _ ih => exact fun v hv => List.mem_append_left _ (ih v hv)
  | right f a _ ih => exact fun v hv => List.mem_append_right _ (ih v hv)

theorem PartOf.trans {t : Written} (h : PartOf t u) (h' : PartOf u w) : PartOf t w := by
  induction h' with
  | refl => exact h
  | call1 f _ ih => exact ih.call1 f
  | left f b _ ih => exact ih.left f b
  | right f a _ ih => exact ih.right f a

/-- The outcome of building and evaluating. -/
theorem ends_evaluate (hv : af.advValid = true) (hbv : ∀ v ∈ w.vars, (bv v).isSome) :
    ∃ msg, (Cv.buildRealExpr w.expr : Outcome Err (RealExpr ℝ)) = ok msg ∧
      AdvFunc.Ends (fun fuel => AdvFunc.evaluate fuel msg bv) af
        (if w.nodes ≤ MAX_NESTING_DEPTH then ok (w.cosAsSin.denote fun v => (bv v).getD 0)
          else .throw maxNesting) := by
  have hρ : ∀ v ∈ w.vars, bv v = some ((bv v).getD 0) := by
    intro v hv
    obtain ⟨x, hx⟩ := Option.isSome_iff_exists.mp (hbv v hv)
    rw [hx]
    rfl
  obtain ⟨msg, hmsg⟩ : ∃ msg, BuildsTo bv af.realExprRefs w.expr msg w.nodes
      (w.cosAsSin.denote fun v => (bv v).getD 0) := w.buildsTo hρ
  exact ⟨msg, hmsg.built, w.nodes, fun fuel hfuel => (hmsg.metered fuel hfuel).query hv⟩

/-- Preserved exactly when there are not too many nodes and the `sin` in the place of
each `cos` makes no difference to the whole. -/
theorem preserved_iff (hv : af.advValid = true) (hbv : ∀ v ∈ w.vars, (bv v).isSome) :
    w.Preserved af bv ↔ w.nodes ≤ MAX_NESTING_DEPTH ∧
      w.cosAsSin.denote (fun v => (bv v).getD 0) = w.denote fun v => (bv v).getD 0 := by
  obtain ⟨msg, hmsg, hends⟩ := ends_evaluate hv hbv
  constructor
  · rintro ⟨msg', hmsg', hends'⟩
    obtain rfl : msg = msg' := Outcome.ok.inj (hmsg.symm.trans hmsg')
    have heq := hends.unique hends'
    split at heq
    · next hn => exact ⟨hn, Outcome.ok.inj heq⟩
    · cases heq
  · rintro ⟨hn, heq⟩
    rw [if_pos hn, heq] at hends
    exact ⟨msg, hmsg, hends⟩

/-- If `sin` and `cos` agree at the argument of every `cos`, exchanging them makes no
difference. -/
theorem denote_cosAsSin {ρ : String → ℝ}
    (h : ∀ a, PartOf (call1 .cos a) w → Real.sin (a.denote ρ) = Real.cos (a.denote ρ)) :
    w.cosAsSin.denote ρ = w.denote ρ := by
  induction w with
  | real value => rfl
  | var v => rfl
  | call1 f a ih =>
    have ha := ih fun b hb => h b (hb.call1 f)
    rw [cosAsSin, denote, denote, ha]
    by_cases hf : f = .cos
    · subst hf
      exact h a (.refl _)
    · rw [Fun1.cosAsSin, if_neg hf]
  | call2 f a b iha ihb =>
    have ha := iha fun c hc => h c (hc.left f b)
    have hb := ihb fun c hc => h c (hc.right f a)
    rw [cosAsSin, denote, denote, ha, hb]

end Written

/-- **When the builder preserves meaning.**  An expression evaluates to what it
denotes exactly when it has at most 10000 nodes and taking `sin` for `cos` does not
change its value; it does so with all its parts exactly when `sin` and `cos` agree at
the argument of every `cos` in it. -/
theorem buildRealExpr_preserved_iff (w : Written) {af : AdvFunc ℝ} (hv : af.advValid = true)
    {bv : ValueMap ℝ} (hbv : ∀ v ∈ w.vars, (bv v).isSome) :
    (w.Preserved af bv ↔ w.nodes ≤ MAX_NESTING_DEPTH ∧
      w.cosAsSin.denote (fun v => (bv v).getD 0) = w.denote fun v => (bv v).getD 0) ∧
    ((∀ u : Written, u.PartOf w → u.Preserved af bv) ↔ w.nodes ≤ MAX_NESTING_DEPTH ∧
      ∀ a, (Written.call1 .cos a).PartOf w →
        Real.sin (a.denote fun v => (bv v).getD 0)
          = Real.cos (a.denote fun v => (bv v).getD 0)) := by
  have hsub : ∀ u : Written, u.PartOf w → (u.Preserved af bv ↔ u.nodes ≤ MAX_NESTING_DEPTH ∧
      u.cosAsSin.denote (fun v => (bv v).getD 0) = u.denote fun v => (bv v).getD 0) :=
    fun u hu => Written.preserved_iff hv fun v hv => hbv v (hu.vars_subset v hv)
  refine ⟨hsub w (.refl w), ?_, ?_⟩
  · intro h
    refine ⟨((hsub w (.refl w)).mp (h w (.refl w))).1, fun a ha => ?_⟩
    -- both the argument and the call have the value they denote
    have harg : a.PartOf w := ((Written.PartOf.refl a).call1 .cos).trans ha
    have hcall := ((hsub _ ha).mp (h _ ha)).2
    have hval := ((hsub a harg).mp (h a harg)).2
    rw [Written.cosAsSin, Written.denote, hval] at hcall
    exact hcall
  · rintro ⟨hn, hcos⟩ u hu
    refine (hsub u hu).mpr ⟨hu.nodes_le.trans hn, Written.denote_cosAsSin fun a ha => ?_⟩
    exact hcos a (ha.trans hu)

/-- The expression `sin(P) * Q + 2`, at `P = 0` and `Q = 5`. -/
theorem buildRealExpr_preserved_iff_sample :
    ((Written.call2 .add (.call2 .mul (.call1 .sin (.var "P")) (.var "Q")) (.real 2)).Preserved
        (AdvFunc.new ⟨none, none, none, []⟩).2 (bindPQ 0 5)) := by
  have hv : ((AdvFunc.new ⟨none, none, none, []⟩).2 : AdvFunc ℝ).advValid = true := rfl
  refine (buildRealExpr_preserved_iff _ hv ?_).1.mpr ⟨by decide, ?_⟩
  · simp [Written.vars]
  · simp [Written.cosAsSin, Fun1.cosAsSin]

/-- `cos(Real(0))` evaluates to 0. -/
theorem cos_not_preserved :
    ¬ (Written.call1 .cos (.real 0)).Preserved
      (AdvFunc.new ⟨none, none, none, []⟩).2 (bindPQ 0 0) := by
  have hv : ((AdvFunc.new ⟨none, none, none, []⟩).2 : AdvFunc ℝ).advValid = true := rfl
  intro h
  have heq := ((Written.preserved_iff hv (by simp [Written.vars])).mp h).2
  simp [Written.cosAsSin, Fun1.cosAsSin, Written.denote, Fun1.denote] at heq

end Commelec
