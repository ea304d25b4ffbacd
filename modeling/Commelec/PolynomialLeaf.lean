/-
Commelec/PolynomialLeaf.lean

A polynomial inside an expression.

`buildPolynomial(realExpr.getPolynomial(), _expr)` asks for the member `polynomial` of a union
that holds `real`, as every fresh struct does.  `getPolynomial` leaves it at that: a debug build
throws, and a release build writes the polynomial to a place that no reader looks at.  With
`initPolynomial`, as in a polynomial that is written directly, the union would be switched.

So a debug build writes no expression with a polynomial in it; what a release build writes is
the expression with `Real(0)` for each of its polynomials (`write_eq_ok_iff`, `direct_zeroed`).
-/
import Commelec.BuilderMeaning
import Commelec.Decoding
import Commelec.PolynomialRoundTrip
import Commelec.Semantics

namespace Commelec

open Effectful Outcome

variable {R : Type} [Double R]

namespace Cv

/-! ### Writing to a struct -/

section Write

variable {m : Type → Type} [Effects Err m]

/-- `buildPolynomial(realExpr.getPolynomial(), poly)`, for a struct with the name `n` whose
union holds `real 0`. -/
def writePolynomial (build : Build R) (poly : MonomialSum R) (n : Option String) :
    m (RealExpr R) :=
  match build with
  | .debug => raise .kjException
  | .release _ => do
    let _ : Polynomial R ← buildPolynomial poly
    pure (.real n 0)

/-- `build(realExpr)` in a debug or a release build, for a fresh struct that has been given the
name `n` so far. -/
def Expr.write (build : Build R) : Expr R → Option String → m (RealExpr R)
  | .ref refname, n => pure (.reference n refname)
  | .var varname, n => pure (.var n varname)
  | .name refname expr, _ => expr.write build (some refname)
  | .real value, n => pure (.real n value)
  | .polynomial expr, n => writePolynomial build expr n
  | .unaryOp op arg, n => do
    let a ← arg.write build none
    pure (.unaryOperation n op a)
  | .binaryOp op argA argB, n => do
    let a ← argA.write build none
    let b ← argB.write build none
    pure (.binaryOperation n op a b)

/-- The builder that is meant: `buildPolynomial(realExpr.initPolynomial(), poly)`. -/
def Expr.direct : Expr R → Option String → m (RealExpr R)
  | .ref refname, n => pure (.reference n refname)
  | .var varname, n => pure (.var n varname)
  | .name refname expr, _ => expr.direct (some refname)
  | .real value, n => pure (.real n value)
  | .polynomial expr, n => do
    let poly ← buildPolynomial expr
    pure (.polynomial n poly)
  | .unaryOp op arg, n => do
    let a ← arg.direct none
    pure (.unaryOperation n op a)
  | .binaryOp op argA argB, n => do
    let a ← argA.direct none
    let b ← argB.direct none
    pure (.binaryOperation n op a b)

end Write

/-! ### Contexts -/

/-- An expression with a hole in the place of one leaf. -/
inductive Context (R : Type) where
  | hole
  | name (refname : String) (ctx : Context R)
  | unaryOp (op : UnaryOp) (ctx : Context R)
  | binaryOpA (op : BinaryOp) (ctx : Context R) (argB : Expr R)
  | binaryOpB (op : BinaryOp) (argA : Expr R) (ctx : Context R)

namespace Context

def fill : Context R → Expr R → Expr R
  | hole, e => e
  | name refname ctx, e => .name refname (ctx.fill e)
  | unaryOp op ctx, e => .unaryOp op (ctx.fill e)
  | binaryOpA op ctx argB, e => .binaryOp op (ctx.fill e) argB
  | binaryOpB op argA ctx, e => .binaryOp op argA (ctx.fill e)

end Context

namespace Expr

/-- The polynomials at the leaves. -/
def polynomials : Expr R → List (MonomialSum R)
  | .ref _ | .var _ | .real _ => []
  | .name _ expr => expr.polynomials
  | .polynomial expr => [expr]
  | .unaryOp _ arg => arg.polynomials
  | .binaryOp _ argA argB => argA.polynomials ++ argB.polynomials

/-- Put `Real(0)` in the place of every polynomial. -/
def zeroed : Expr R → Expr R
  | .ref refname => .ref refname
  | .var varname => .var varname
  | .name refname expr => .name refname expr.zeroed
  | .real value => .real value
  | .polynomial _ => .real 0
  | .unaryOp op arg => .unaryOp op arg.zeroed
  | .binaryOp op argA argB => .binaryOp op argA.zeroed argB.zeroed

/-- The message of an expression in which `real 0` stands for every polynomial. -/
def message : Expr R → Option String → RealExpr R
  | .ref refname, n => .reference n refname
  | .var varname, n => .var n varname
  | .name refname expr, _ => expr.message (some refname)
  | .real value, n => .real n value
  | .polynomial _, n => .real n 0
  | .unaryOp op arg, n => .unaryOperation n op (arg.message none)
  | .binaryOp op argA argB, n => .binaryOperation n op (argA.message none) (argB.message none)

/-- Every polynomial can be written, as a message of its own. -/
def Writable (e : Expr R) : Prop :=
  ∀ s ∈ e.polynomials, ∃ p, (buildPolynomial s : Outcome Err (Polynomial R)) = ok p

/-! ### What is written -/

/-- A debug build writes what `Expr.build` has. -/
theorem write_debug {m : Type → Type} [Effects Err m] (e : Expr R) (n : Option String) :
    (e.write .debug n : m (RealExpr R)) = e.build n := by
  induction e generalizing n with
  | name refname e ih => exact ih _
  | unaryOp op a ih => simp only [write, build, ih]
  | binaryOp op a b iha ihb => simp only [write, build, iha, ihb]
  | _ => rfl

variable {e : Expr R} {n : Option String} {msg : RealExpr R}

/-- The build writes the polynomial as a leaf, for what it is worth. -/
def WritesLeaf (build : Build R) (s : MonomialSum R) : Prop :=
  match build with
  | .debug => False
  | .release _ => ∃ p, (buildPolynomial s : Outcome Err (Polynomial R)) = ok p

theorem writePolynomial_eq_ok_iff {build : Build R} {s : MonomialSum R} :
    (writePolynomial build s n : Outcome Err _) = ok msg ↔
      WritesLeaf build s ∧ .real n 0 = msg := by
  cases build with
  | debug => exact iff_of_false (fun h => nomatch h) fun h => h.1
  | release memory =>
    constructor
    · intro h
      obtain ⟨p, hp, hmsg⟩ := bind_eq_ok.mp h
      exact ⟨⟨p, hp⟩, Outcome.ok.inj hmsg⟩
    · rintro ⟨⟨p, hp⟩, rfl⟩
      exact bind_eq_ok.mpr ⟨p, hp, rfl⟩

/-- **What is written**: the message, if all polynomials are written. -/
theorem write_eq_ok_iff {build : Build R} :
    (e.write build n : Outcome Err _) = ok msg ↔
      (∀ s ∈ e.polynomials, WritesLeaf build s) ∧ e.message n = msg := by
  induction e generalizing n msg with
  | name refname e ih => exact ih
  | polynomial s =>
    rw [write, writePolynomial_eq_ok_iff, polynomials, List.forall_mem_singleton]
    rfl
  | unaryOp op a ih =>
    constructor
    · intro h
      obtain ⟨ma, ha, hmsg⟩ := bind_eq_ok.mp h
      obtain ⟨hleaf, rfl⟩ := ih.mp ha
      exact ⟨hleaf, Outcome.ok.inj hmsg⟩
    · rintro ⟨hleaf, rfl⟩
      exact bind_eq_ok.mpr ⟨_, ih.mpr ⟨hleaf, rfl⟩, rfl⟩
  | binaryOp op a b iha ihb =>
    rw [polynomials, List.forall_mem_append]
    constructor
    · intro h
      obtain ⟨ma, ha, h⟩ := bind_eq_ok.mp h
      obtain ⟨mb, hb, hmsg⟩ := bind_eq_ok.mp h
      obtain ⟨hleafA, rfl⟩ := iha.mp ha
      obtain ⟨hleafB, rfl⟩ := ihb.mp hb
      exact ⟨⟨hleafA, hleafB⟩, Outcome.ok.inj hmsg⟩
    · rintro ⟨⟨hleafA, hleafB⟩, rfl⟩
      exact bind_eq_ok.mpr ⟨_, iha.mpr ⟨hleafA, rfl⟩,
        bind_eq_ok.mpr ⟨_, ihb.mpr ⟨hleafB, rfl⟩, rfl⟩⟩
  | _ =>
    refine ⟨fun h => ⟨fun s hs => absurd hs List.not_mem_nil, Outcome.ok.inj h⟩, ?_⟩
    exact fun h => congrArg ok h.2

/-- If polynomials are written directly, the message is that of `Real(0)` for each of them. -/
theorem direct_zeroed : (e.zeroed.direct n : Outcome Err _) = ok (e.message n) := by
  induction e generalizing n with
  | name refname e ih => exact ih
  | unaryOp op a ih =>
    rw [zeroed, direct, ih]
    rfl
  | binaryOp op a b iha ihb =>
    rw [zeroed, direct, iha, ok_bind, ihb]
    rfl
  | _ => rfl

theorem zeroed_of_plain (h : e.polynomials = []) : e.zeroed = e := by
  induction e with
  | name refname e ih => rw [zeroed, ih h]
  | polynomial s => cases h
  | unaryOp op a ih => rw [zeroed, ih h]
  | binaryOp op a b iha ihb =>
    obtain ⟨ha, hb⟩ := List.append_eq_nil_iff.mp h
    rw [zeroed, iha ha, ihb hb]
  | _ => rfl

end Expr

namespace Context

variable {C : Context R} {e e' : Expr R}

omit [Double R] in
/-- A polynomial of the whole is one of the hole, or of its surroundings. -/
theorem mem_polynomials {s : MonomialSum R} (C : Context R) (e e' : Expr R)
    (hs : s ∈ (C.fill e).polynomials) : s ∈ e.polynomials ∨ s ∈ (C.fill e').polynomials := by
  induction C with
  | hole => exact Or.inl hs
  | name refname C ih => exact ih hs
  | unaryOp op C ih => exact ih hs
  | binaryOpA op C b ih =>
    rcases List.mem_append.mp hs with hs | hs
    · exact (ih hs).imp_right (List.mem_append_left _)
    · exact Or.inr (List.mem_append_right _ hs)
  | binaryOpB op a C ih =>
    rcases List.mem_append.mp hs with hs | hs
    · exact Or.inr (List.mem_append_left _ hs)
    · exact (ih hs).imp_right (List.mem_append_right _)

omit [Double R] in
/-- The polynomials in the hole are polynomials of the whole. -/
theorem polynomials_subset (C : Context R) (e : Expr R) :
    e.polynomials ⊆ (C.fill e).polynomials := by
  induction C with
  | hole => exact List.Subset.refl _
  | name refname C ih => exact ih
  | unaryOp op C ih => exact ih
  | binaryOpA op C b ih => exact List.subset_append_of_subset_left _ ih
  | binaryOpB op a C ih => exact List.subset_append_of_subset_right _ ih

theorem zeroed_fill (C : Context R) (h : e.zeroed = e'.zeroed) :
    (C.fill e).zeroed = (C.fill e').zeroed := by
  induction C with
  | hole => exact h
  | name refname C ih => rw [fill, fill, Expr.zeroed, Expr.zeroed, ih]
  | unaryOp op C ih => rw [fill, fill, Expr.zeroed, Expr.zeroed, ih]
  | binaryOpA op C b ih => rw [fill, fill, Expr.zeroed, Expr.zeroed, ih]
  | binaryOpB op a C ih => rw [fill, fill, Expr.zeroed, Expr.zeroed, ih]

end Context

end Cv

/-! ### What is read -/

/-- The interpreter in which each message is evaluated, for instance one whose advertisement
holds the message. -/
abbrev Interpreters (R : Type) : Type :=
  RealExpr R → {af : AdvFunc R // af.advValid = true}

namespace Interpreters

variable (host : Interpreters R) (bv : ValueMap R)

/-- Evaluating the message ends with `o`. -/
def Gives (msg : RealExpr R) (o : Outcome Err R) : Prop :=
  AdvFunc.Ends (fun fuel => AdvFunc.evaluate fuel msg bv) (host msg) o

/-- The value of an expression: what its message evaluates to when all polynomials are written
directly. -/
def Value (e : Cv.Expr R) (o : Outcome Err R) : Prop :=
  ∃ msg, (e.direct none : Outcome Err (RealExpr R)) = ok msg ∧ host.Gives bv msg o

variable {host bv}

theorem gives_real (n : Option String) (x : R) : host.Gives bv (.real n x) (ok x) := by
  refine ⟨1, fun fuel hfuel => ?_⟩
  obtain ⟨k, rfl⟩ : ∃ k, fuel = k + 1 := ⟨fuel - 1, by omega⟩
  exact ((metered_real x).query (host _).2).trans (if_pos (by decide))

theorem value_iff {e : Cv.Expr R} {msg : RealExpr R} {o : Outcome Err R}
    (h : (e.direct none : Outcome Err (RealExpr R)) = ok msg) :
    host.Value bv e o ↔ host.Gives bv msg o := by
  constructor
  · rintro ⟨msg', hmsg', ho⟩
    obtain rfl : msg = msg' := Outcome.ok.inj (h.symm.trans hmsg')
    exact ho
  · intro ho
    exact ⟨msg, h, ho⟩

end Interpreters

/-- The polynomial `s` can be used as a leaf in `C`: a message is written, and it evaluates to
the value of `C` at the number that `s` evaluates to when it is written directly. -/
def Cv.Context.Takes (build : Build R) (host : Interpreters R) (C : Cv.Context R)
    (s : MonomialSum R) : Prop :=
  ∃ msg, ((C.fill (.polynomial s)).write build none : Outcome Err (RealExpr R)) = ok msg ∧
    ∀ bv x, host.Value bv (.polynomial s) (ok x) →
      ∀ o, host.Gives bv msg o ↔ host.Value bv (C.fill (.real x)) o

namespace Cv.Context

variable {host : Interpreters R} {C : Context R} {s : MonomialSum R}

theorem not_takes_debug : ¬ C.Takes .debug host s := by
  rintro ⟨msg, hmsg, -⟩
  have hs : s ∈ (C.fill (.polynomial s)).polynomials :=
    C.polynomials_subset _ (List.mem_singleton_self s)
  exact (Expr.write_eq_ok_iff.mp hmsg).1 s hs

/-- The message of a release build has the value of `C` at 0, if there is no other polynomial
in `C`. -/
theorem takes_release_iff {memory : Unchecked R} :
    C.Takes (.release memory) host s ↔ (C.fill (.polynomial s)).Writable ∧
      ∀ bv x, host.Value bv (.polynomial s) (ok x) →
        ∀ o, host.Value bv (C.fill (.real 0)).zeroed o ↔ host.Value bv (C.fill (.real x)) o := by
  have hzero : ((C.fill (.real 0)).zeroed.direct none : Outcome Err (RealExpr R))
      = ok ((C.fill (.polynomial s)).message none) := by
    have hleaf : (Expr.real 0 : Expr R).zeroed = (Expr.polynomial s).zeroed := rfl
    rw [← Expr.direct_zeroed, C.zeroed_fill hleaf]
  constructor
  · rintro ⟨msg, hmsg, h⟩
    obtain ⟨hw, rfl⟩ := Expr.write_eq_ok_iff.mp hmsg
    refine ⟨hw, fun bv x hx o => ?_⟩
    rw [Interpreters.value_iff hzero]
    exact h bv x hx o
  · rintro ⟨hw, h⟩
    refine ⟨_, Expr.write_eq_ok_iff.mpr ⟨hw, rfl⟩, fun bv x hx o => ?_⟩
    rw [← Interpreters.value_iff hzero]
    exact h bv x hx o

/-- In a context without other polynomials, a polynomial that vanishes can be used. -/
theorem takes_of_zero {memory : Unchecked R} (hC : (C.fill (.real 0)).polynomials = [])
    (hs : ∃ p, (buildPolynomial s : Outcome Err (Polynomial R)) = ok p)
    (hzero : ∀ bv x, host.Value bv (.polynomial s) (ok x) → x = 0) :
    C.Takes (.release memory) host s := by
  refine takes_release_iff.mpr ⟨fun s' hs' => ?_, fun bv x hx o => ?_⟩
  · rcases C.mem_polynomials _ (.real 0) hs' with hs' | hs'
    · rw [List.mem_singleton.mp hs']
      exact hs
    · rw [hC] at hs'
      exact absurd hs' List.not_mem_nil
  · rw [hzero bv x hx, Expr.zeroed_of_plain hC]

/-- A polynomial that can be used as an expression of its own vanishes. -/
theorem zero_of_takes {memory : Unchecked R} (h : hole.Takes (.release memory) host s)
    {bv : ValueMap R} {x : R} (hx : host.Value bv (.polynomial s) (ok x)) : x = 0 := by
  have heq := (takes_release_iff.mp h).2 bv x hx (ok 0)
  have h0 : host.Value bv (.real 0) (ok 0) := ⟨_, rfl, Interpreters.gives_real none 0⟩
  obtain ⟨msg, hmsg, ho⟩ := heq.mp h0
  obtain rfl : RealExpr.real none x = msg := Outcome.ok.inj hmsg
  exact Outcome.ok.inj ((Interpreters.gives_real none x).unique ho)

end Cv.Context

/-- **A polynomial inside an expression.**  A debug build never writes one.  In a release build
it can be used in a context exactly when all polynomials can be written and the context has, at
0 and with 0 for its other polynomials, the value that it has at the value of the polynomial.
It can be used in all contexts without other polynomials exactly when it vanishes wherever it
has a value. -/
theorem polynomial_leaf_iff (host : Interpreters R) (s : MonomialSum R) :
    (∀ C : Cv.Context R, ¬ C.Takes .debug host s) ∧
    ∀ memory : Unchecked R,
      (∀ C : Cv.Context R, C.Takes (.release memory) host s ↔
        (C.fill (.polynomial s)).Writable ∧
          ∀ bv x, host.Value bv (.polynomial s) (ok x) → ∀ o,
            host.Value bv (C.fill (.real 0)).zeroed o ↔ host.Value bv (C.fill (.real x)) o) ∧
      ((∀ C : Cv.Context R, (C.fill (.real 0)).polynomials = [] →
          C.Takes (.release memory) host s) ↔
        (∃ p, (buildPolynomial s : Outcome Err (Polynomial R)) = ok p) ∧
          ∀ bv x, host.Value bv (.polynomial s) (ok x) → x = 0) := by
  refine ⟨fun C => Cv.Context.not_takes_debug, fun memory => ⟨fun C =>
    Cv.Context.takes_release_iff, ?_, ?_⟩⟩
  · intro h
    have hhole := h .hole rfl
    have hw := (Cv.Context.takes_release_iff.mp hhole).1
    exact ⟨hw s (List.mem_singleton_self s), fun bv x hx => Cv.Context.zero_of_takes hhole hx⟩
  · rintro ⟨hs, hzero⟩ C hC
    exact Cv.Context.takes_of_zero hC hs hzero

/-- `P^2 + 3*P*Q^3` has the value 1134 at `P = 3`, `Q = 5`. -/
theorem value_samplePolynomial (host : Interpreters ℝ) :
    host.Value (bindPQ 3 5) (.polynomial samplePolynomial) (ok 1134) := by
  have hbv : ∀ v ∈ samplePolynomial.vars, (bindPQ (3 : ℝ) 5 v).isSome := by
    have hvars : samplePolynomial.vars = ["P", "Q"] := by decide
    simp [hvars]
  have hval : samplePolynomial.readValue (fun v => (bindPQ 3 5 v).getD 0) (-1) = 1134 := by
    rw [samplePolynomial_fits.legible.readValue_eq, MonomialSum.loopValue_value]
    simp [MonomialSum.value, samplePolynomial]
    norm_num
  refine ⟨.polynomial none samplePolynomial.encoded, ?_, 1, fun fuel hfuel => ?_⟩
  · rw [Cv.Expr.direct, samplePolynomial_fits.writable.buildPolynomial_eq]
    rfl
  · rw [samplePolynomial_fits.writable.evaluate_eq (host _).2 hbv none hfuel, hval]

/-- `1 + (P^2 + 3*P*Q^3)` is not written by a debug build, and a release build writes `1 + 0`. -/
theorem polynomial_leaf_lost :
    let host : Interpreters ℝ := fun _ => ⟨(AdvFunc.new ⟨none, none, none, []⟩).2, rfl⟩
    let C : Cv.Context ℝ := .binaryOpB .sum (.real 1) .hole
    ¬ C.Takes .debug host samplePolynomial ∧
      ¬ C.Takes (.release ⟨fun _ _ => 0, fun _ => .null⟩) host samplePolynomial := by
  intro host C
  refine ⟨Cv.Context.not_takes_debug, fun h => ?_⟩
  have hsum : ∀ x, host.Value (bindPQ 3 5) (C.fill (.real x)) (ok (1 + x)) := by
    intro x
    have hop : binaryFun .sum = some fun x y : ℝ => x + y := rfl
    have hbuilds : BuildsTo (bindPQ 3 5) (fun _ => none) (C.fill (.real x)) _ 3 (1 + x) :=
      (BuildsTo.real 1).binaryOp hop (BuildsTo.real x)
    refine ⟨_, rfl, 3, fun fuel hfuel => ?_⟩
    exact ((hbuilds.metered fuel hfuel).query rfl).trans (if_pos (by decide))
  have heq := (Cv.Context.takes_release_iff.mp h).2 _ _ (value_samplePolynomial host) (ok (1 + 0))
  obtain ⟨msg, hmsg, ho⟩ := heq.mp (hsum 0)
  obtain ⟨msg', hmsg', ho'⟩ := hsum 1134
  obtain rfl : msg = msg' := Outcome.ok.inj (hmsg.symm.trans hmsg')
  have hne := Outcome.ok.inj (ho.unique ho')
  norm_num at hne

/-! ### With `initPolynomial` -/

section Congruence

variable {self : Self R (Method R)} {a a' b b' : RealExpr R}
  (ha : ∀ fuel, (calls self fuel).eval a = (calls self fuel).eval a')
  (hb : ∀ fuel, (calls self fuel).eval b = (calls self fuel).eval b')
  (n : Option String)

include ha

theorem eval_unary_congr (op : UnaryOp) (fuel : ℕ) :
    (calls self fuel).eval (.unaryOperation n op a)
      = (calls self fuel).eval (.unaryOperation n op a') := by
  cases fuel with
  | zero => rfl
  | succ fuel =>
    show (self.visit >>= fun _ => evalUnaryOperation op _) = self.visit >>= fun _ => _
    rw [ha fuel]

include hb

theorem eval_binary_congr (op : BinaryOp) (fuel : ℕ) :
    (calls self fuel).eval (.binaryOperation n op a b)
      = (calls self fuel).eval (.binaryOperation n op a' b') := by
  cases fuel with
  | zero => rfl
  | succ fuel =>
    show (self.visit >>= fun _ => evalBinaryOperation op _ _) = self.visit >>= fun _ => _
    rw [ha fuel, hb fuel]

end Congruence

namespace Cv.Context

variable {s : MonomialSum R} {p : Polynomial R} {bv : ValueMap R} {x : R}
  (refs : RealExprRefMap R)

/-- A polynomial is evaluated like the number that it evaluates to. -/
theorem eval_polynomial (hx : (evalPolynomial bv p (-1) : Outcome Err R) = ok x)
    (n : Option String) (fuel : ℕ) :
    (calls (methods bv refs) fuel).eval (.polynomial n p)
      = (calls (methods bv refs) fuel).eval (.real n x) := by
  cases fuel with
  | zero => rfl
  | succ fuel =>
    have hpoly : (evalPolynomial bv p (-1) : Method R R) = Pure.pure x := by
      funext st
      have hrel := rel_evalPolynomial (stateless (σ := AdvState R)) bv p (-1) st
      rw [hx] at hrel
      exact hrel
    show (visit >>= fun _ => evalPolynomial bv p (-1)) = visit >>= fun _ => Pure.pure x
    rw [hpoly]

/-- So a context is evaluated alike around both of them. -/
theorem eval_fill (hp : (buildPolynomial s : Outcome Err (Polynomial R)) = ok p)
    (hx : (evalPolynomial bv p (-1) : Outcome Err R) = ok x) (C : Context R)
    {n : Option String} {msg : RealExpr R}
    (h : ((C.fill (.polynomial s)).direct n : Outcome Err (RealExpr R)) = ok msg) :
    ∃ msg', ((C.fill (.real x)).direct n : Outcome Err (RealExpr R)) = ok msg' ∧
      ∀ fuel, (calls (methods bv refs) fuel).eval msg
        = (calls (methods bv refs) fuel).eval msg' := by
  induction C generalizing n msg with
  | hole =>
    obtain ⟨p', hp', hmsg⟩ := bind_eq_ok.mp h
    obtain rfl : p = p' := Outcome.ok.inj (hp.symm.trans hp')
    obtain rfl := Outcome.ok.inj hmsg
    exact ⟨.real n x, rfl, eval_polynomial refs hx n⟩
  | name refname C ih => exact ih h
  | unaryOp op C ih =>
    obtain ⟨a, ha, hmsg⟩ := bind_eq_ok.mp h
    obtain rfl := Outcome.ok.inj hmsg
    obtain ⟨a', ha', heval⟩ := ih ha
    refine ⟨.unaryOperation n op a', ?_, fun fuel => ?_⟩
    · rw [fill, Expr.direct, ha']
      rfl
    · exact eval_unary_congr heval n op fuel
  | binaryOpA op C b ih =>
    obtain ⟨a, ha, h⟩ := bind_eq_ok.mp h
    obtain ⟨mb, hb, hmsg⟩ := bind_eq_ok.mp h
    obtain rfl := Outcome.ok.inj hmsg
    obtain ⟨a', ha', heval⟩ := ih ha
    refine ⟨.binaryOperation n op a' mb, ?_, fun fuel => ?_⟩
    · rw [fill, Expr.direct, ha', ok_bind, hb]
      rfl
    · exact eval_binary_congr heval (fun _ => rfl) n op fuel
  | binaryOpB op a C ih =>
    obtain ⟨ma, ha, h⟩ := bind_eq_ok.mp h
    obtain ⟨b, hb, hmsg⟩ := bind_eq_ok.mp h
    obtain rfl := Outcome.ok.inj hmsg
    obtain ⟨b', hb', heval⟩ := ih hb
    refine ⟨.binaryOperation n op ma b', ?_, fun fuel => ?_⟩
    · rw [fill, Expr.direct, ha, ok_bind, hb']
      rfl
    · exact eval_binary_congr (fun _ => rfl) heval n op fuel

end Cv.Context

/-- What a directly written polynomial evaluates to. -/
theorem Interpreters.value_polynomial {host : Interpreters R} {bv : ValueMap R}
    {s : MonomialSum R} {x : R} (h : host.Value bv (.polynomial s) (ok x)) :
    ∃ p, (buildPolynomial s : Outcome Err (Polynomial R)) = ok p ∧
      (evalPolynomial bv p (-1) : Outcome Err R) = ok x := by
  obtain ⟨msg, hmsg, k, hk⟩ := h
  obtain ⟨p, hp, hmsg⟩ := bind_eq_ok.mp hmsg
  obtain rfl := Outcome.ok.inj hmsg
  refine ⟨p, hp, ?_⟩
  let poly : RealExpr R := .polynomial none p
  have hsem := sem_of_returned (host poly).2 (refines_eval _ poly) (hk k le_rfl)
  rwa [Env.evalSem_polynomial] at hsem

/-- **The builder that is meant.**  With `initPolynomial`, a polynomial can be used in every
context. -/
theorem direct_leaf (af : {af : AdvFunc R // af.advValid = true}) {C : Cv.Context R}
    {s : MonomialSum R} {msg : RealExpr R}
    (hmsg : ((C.fill (.polynomial s)).direct none : Outcome Err (RealExpr R)) = ok msg)
    {bv : ValueMap R} {x : R} (hx : Interpreters.Value (fun _ => af) bv (.polynomial s) (ok x))
    (o : Outcome Err R) :
    Interpreters.Gives (fun _ => af) bv msg o
      ↔ Interpreters.Value (fun _ => af) bv (C.fill (.real x)) o := by
  obtain ⟨p, hp, hpx⟩ := Interpreters.value_polynomial hx
  obtain ⟨msg', hmsg', heval⟩ := Cv.Context.eval_fill af.1.realExprRefs hp hpx C hmsg
  rw [Interpreters.value_iff hmsg']
  have hrun : ∀ fuel, (AdvFunc.evaluate fuel msg bv af.1).1
      = (AdvFunc.evaluate fuel msg' bv af.1).1 := by
    intro fuel
    rw [AdvFunc.evaluate, AdvFunc.query, AdvFunc.evaluate, AdvFunc.query, heval fuel]
  show (∃ n₀, ∀ n, n₀ ≤ n → _) ↔ ∃ n₀, ∀ n, n₀ ≤ n → _
  simp only [hrun]

end Commelec
