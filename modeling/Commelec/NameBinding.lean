/-
Commelec/NameBinding.lean

Names in an expression.

`cv::name(ref, expr)` writes the name to the struct, and then the expression to the same struct.
If the expression is itself a name, the second `setName` overwrites the first, and nothing in
the message carries the outer name.  All other names are carried by the node of their
expression (`lastReal_message`).

So every reference to a bound name has the value of its expression, unless the name is bound
directly to a name: then it is unknown (`names_resolve_iff`).
-/
import Commelec.PolynomialLeaf
import Commelec.Reuse

namespace Commelec

open Effectful Outcome

variable {R : Type}

namespace Cv.Expr

/-! ### Bindings -/

/-- What the names are bound to. -/
def bindings : Expr R → List (String × Expr R)
  | .ref _ | .var _ | .real _ | .polynomial _ => []
  | .name refname expr => (refname, expr) :: expr.bindings
  | .unaryOp _ arg => arg.bindings
  | .binaryOp _ argA argB => argA.bindings ++ argB.bindings

def names (e : Expr R) : List String := e.bindings.map Prod.fst

/-- The names that are used. -/
def refs : Expr R → List String
  | .ref refname => [refname]
  | .var _ | .real _ | .polynomial _ => []
  | .name _ expr => expr.refs
  | .unaryOp _ arg => arg.refs
  | .binaryOp _ argA argB => argA.refs ++ argB.refs

def isName : Expr R → Bool
  | .name _ _ => true
  | _ => false

/-- No expression refers to itself, not even through others: the names can be numbered so that
an expression uses smaller names than its own. -/
def Acyclic (e : Expr R) (rank : String → ℕ) : Prop :=
  ∀ b ∈ e.bindings, ∀ r ∈ b.2.refs, rank r < rank b.1

/-- Each name is bound once, all names that are used are bound, and no expression refers to
itself. -/
structure WellNamed (e : Expr R) : Prop where
  distinct : e.names.Nodup
  bound : e.refs ⊆ e.names
  acyclic : ∃ rank, e.Acyclic rank

/-- No name is bound directly to a name. -/
def NamesApart (e : Expr R) : Prop := ∀ b ∈ e.bindings, b.2.isName = false

variable {e e' : Expr R} {r : String}

/-- What passes to the parts of an expression passes to what its names are bound to. -/
theorem of_binding {p : Expr R → Prop} (hname : ∀ r e, p (.name r e) → p e)
    (hunary : ∀ op a, p (.unaryOp op a) → p a)
    (hbinary : ∀ op a b, p (.binaryOp op a b) → p a ∧ p b) (h : (r, e') ∈ e.bindings)
    (he : p e) : p e' := by
  induction e with
  | name refname e ih =>
    rcases List.mem_cons.mp h with heq | h
    · obtain ⟨rfl, rfl⟩ := Prod.mk.inj heq
      exact hname _ _ he
    · exact ih h (hname _ _ he)
  | unaryOp op a ih => exact ih h (hunary _ _ he)
  | binaryOp op a b iha ihb =>
    obtain ⟨ha, hb⟩ := hbinary _ _ _ he
    rcases List.mem_append.mp h with h | h
    · exact iha h ha
    · exact ihb h hb
  | ref | var | real | polynomial => exact absurd h List.not_mem_nil

theorem refs_subset (h : (r, e') ∈ e.bindings) : e'.refs ⊆ e.refs := by
  apply of_binding (p := fun x => x.refs ⊆ e.refs) _ _ _ h (List.Subset.refl _)
  · exact fun _ _ hsub => hsub
  · exact fun _ _ hsub => hsub
  · exact fun _ _ _ hsub => List.append_subset.mp hsub

/-- A name that is bound once stands for one expression. -/
theorem WellNamed.unique (he : e.WellNamed) {e'' : Expr R} (h : (r, e') ∈ e.bindings)
    (h' : (r, e'') ∈ e.bindings) : e' = e'' :=
  congrArg Prod.snd (List.inj_on_of_nodup_map he.distinct h h' rfl)

theorem polynomials_of_binding (h : (r, e') ∈ e.bindings) : e'.polynomials ⊆ e.polynomials := by
  apply of_binding (p := fun x => x.polynomials ⊆ e.polynomials) _ _ _ h (List.Subset.refl _)
  · exact fun _ _ hsub => hsub
  · exact fun _ _ hsub => hsub
  · exact fun _ _ _ hsub => List.append_subset.mp hsub

variable [Double R]

/-- With an expression, what its names are bound to can be written. -/
theorem write_of_binding {build : Build R} {n : Option String} {msg : RealExpr R}
    (h : (r, e') ∈ e.bindings) (hmsg : (e.write build n : Outcome Err _) = ok msg) :
    (e'.write build none : Outcome Err _) = ok (e'.message none) := by
  have hleaf := (write_eq_ok_iff.mp hmsg).1
  exact write_eq_ok_iff.mpr ⟨fun s hs => hleaf s (polynomials_of_binding h hs), rfl⟩

/-! ### What carries a name -/

/-- The struct of an expression that is no name keeps the name that it has been given. -/
theorem name_message (he : e.isName = false) (n : Option String) : (e.message n).name = n := by
  cases e with
  | name refname e => exact absurd he (by simp [isName])
  | _ => rfl

/-- Whatever carries a name is bound to it. -/
theorem of_mem_nodes {n : Option String} {m : RealExpr R} (h : .real m ∈ (e.message n).nodes)
    (hname : m.name = some r) :
    (n = some r ∧ e.isName = false ∧ m = e.message n) ∨
      ∃ e', (r, e') ∈ e.bindings ∧ e'.isName = false ∧ m = e'.message (some r) := by
  induction e generalizing n with
  | name refname e ih =>
    right
    rcases ih h with ⟨hn, he, hm⟩ | ⟨e', hbind, he', hm⟩
    · obtain rfl := Option.some.inj hn
      exact ⟨e, List.mem_cons_self, he, hm⟩
    · exact ⟨e', List.mem_cons_of_mem _ hbind, he', hm⟩
  | unaryOp op a ih =>
    rcases List.mem_cons.mp h with heq | h
    · obtain rfl := Node.real.inj heq
      exact Or.inl ⟨hname, rfl, rfl⟩
    · exact Or.inr ((ih h).resolve_left fun hn => by cases hn.1)
  | binaryOp op a b iha ihb =>
    rcases List.mem_cons.mp h with heq | h
    · obtain rfl := Node.real.inj heq
      exact Or.inl ⟨hname, rfl, rfl⟩
    · right
      rcases List.mem_append.mp h with h | h
      · obtain ⟨e', hbind, he'⟩ := (iha h).resolve_left fun hn => by cases hn.1
        exact ⟨e', List.mem_append_left _ hbind, he'⟩
      · obtain ⟨e', hbind, he'⟩ := (ihb h).resolve_left fun hn => by cases hn.1
        exact ⟨e', List.mem_append_right _ hbind, he'⟩
  | ref | var | real | polynomial =>
    obtain rfl := Node.real.inj (List.mem_singleton.mp h)
    exact Or.inl ⟨hname, rfl, rfl⟩

/-- The struct of what is bound to a name is part of the message. -/
theorem mem_nodes_of_binding (h : (r, e') ∈ e.bindings) (n : Option String) :
    .real (e'.message (some r)) ∈ (e.message n).nodes := by
  induction e generalizing n with
  | name refname e ih =>
    rcases List.mem_cons.mp h with heq | h
    · obtain ⟨rfl, rfl⟩ := Prod.mk.inj heq
      exact RealExpr.mem_nodes _
    · exact ih h _
  | unaryOp op a ih => exact List.mem_cons_of_mem _ (ih h none)
  | binaryOp op a b iha ihb =>
    rcases List.mem_append.mp h with h | h
    · exact List.mem_cons_of_mem _ (List.mem_append_left _ (iha h none))
    · exact List.mem_cons_of_mem _ (List.mem_append_right _ (ihb h none))
  | ref | var | real | polynomial => exact absurd h List.not_mem_nil

/-- **What is collected for a name**: its expression, if that is no name. -/
theorem lastReal_message (he : e.WellNamed) (h : (r, e') ∈ e.bindings) :
    AdvFunc.lastReal (e.message none).nodes r
      = if e'.isName then none else some (e'.message (some r)) := by
  split
  · next hn =>
    -- any other expression that carries the name would be bound to it, too
    rcases hlast : AdvFunc.lastReal (e.message none).nodes r with - | m
    · rfl
    · obtain ⟨hmem, hname⟩ := AdvFunc.of_lastReal hlast
      obtain ⟨e'', hbind, he'', -⟩ := (of_mem_nodes hmem hname).resolve_left fun h => by cases h.1
      rw [he.unique h hbind, he''] at hn
      cases hn
  · next hn =>
    have hn' : e'.isName = false := Bool.eq_false_iff.mpr hn
    obtain ⟨m, hm⟩ := Option.isSome_iff_exists.mp (AdvFunc.isSome_lastReal.mpr
      ⟨_, mem_nodes_of_binding h none, name_message hn' _⟩)
    obtain ⟨hmem, hname⟩ := AdvFunc.of_lastReal hm
    obtain ⟨e'', hbind, -, rfl⟩ := (of_mem_nodes hmem hname).resolve_left fun h => by cases h.1
    rw [hm, he.unique h hbind]

end Cv.Expr

/-! ### Evaluation with names -/

/-- The outcome is a value or an exception, and the unknown reference that it may report is
numbered below `k`. -/
def Tame {α : Type} (rank : String → ℕ) (k : ℕ) (o : Outcome Err α) : Prop :=
  o ≠ outOfFuel ∧ ∀ r what, o = .throw (.unknownReference r what) → rank r < k

namespace Tame

variable {α β : Type} {rank : String → ℕ} {k : ℕ}

theorem ok (a : α) : Tame rank k (ok a : Outcome Err α) :=
  ⟨by simp, fun _ _ h => by cases h⟩

theorem raise {e : Err} (h : ∀ r what, e = .unknownReference r what → rank r < k) :
    Tame rank k (.throw e : Outcome Err α) :=
  ⟨by simp, fun r what he => h r what (Outcome.throw.inj he)⟩

theorem mono {o : Outcome Err α} (h : Tame rank k o) {k' : ℕ} (hk : k ≤ k') : Tame rank k' o :=
  ⟨h.1, fun r what he => (h.2 r what he).trans_le hk⟩

theorem bind {x : Outcome Err α} {f : α → Outcome Err β} (hx : Tame rank k x)
    (hf : ∀ a, Tame rank k (f a)) : Tame rank k (x >>= f) := by
  cases x with
  | ok a => exact hf a
  | throw e => exact raise fun r what he => hx.2 r what (by rw [he])
  | outOfFuel => exact absurd rfl hx.1

variable [Double R] {x y : Outcome Err R}

theorem unary (op : UnaryOp) (hx : Tame rank k x) : Tame rank k (evalUnaryOperation op x) := by
  rw [evalUnaryOperation]
  split
  · exact hx.bind fun a => ok _
  · exact raise fun r what he => by cases he

theorem binary (op : BinaryOp) (hx : Tame rank k x) (hy : Tame rank k y) :
    Tame rank k (evalBinaryOperation op x y) := by
  rw [evalBinaryOperation]
  split
  · split
    · exact hy.bind fun b => hx.bind fun a => ok _
    · exact hx.bind fun a => hy.bind fun b => ok _
  · exact raise fun r what he => by cases he

omit [Double R] in
theorem var (self : Self R (Outcome Err)) (v : String) : Tame rank k (evalVar self v) := by
  rw [evalVar]
  split
  · exact ok _
  · exact raise fun r what he => by cases he

end Tame

namespace Env

variable [Double R] {env : Env R}

theorem evalSem_lost {n : Option String} {r : String} (h : env.realExprRefs r = none) :
    env.evalSem (.reference n r) = .throw (.unknownReference r
      ("AdvFunc::evalRef(std::string ref, ...)" ++ " in Evaluate.cpp [ref=" ++ r ++ "]")) := by
  have hself : (env.self (m := Outcome Err)).realExprRefs r = none := h
  rw [env.evalSem_eq]
  show evalRef env.self env.sem r = _
  rw [evalRef, derefReal, hself]
  rfl

/-- The name of a struct does not matter for its value. -/
theorem evalSem_message (e : Cv.Expr R) (n : Option String) :
    env.evalSem (e.message n) = env.evalSem (e.message none) := by
  rw [env.evalSem_eq, env.evalSem_eq]
  cases e <;> rfl

/-- A name stands for the message of its expression, or is unknown. -/
def Serves (env : Env R) (e : Cv.Expr R) : Prop :=
  ∀ b ∈ e.bindings, env.realExprRefs b.1 = some (b.2.message (some b.1)) ∨
    env.realExprRefs b.1 = none

/-- **Evaluation ends**, and an expression that uses names below `k` reports no other. -/
theorem Serves.tame {e : Cv.Expr R} (hserves : env.Serves e) (hbound : e.refs ⊆ e.names)
    {rank : String → ℕ} (hrank : e.Acyclic rank) {k : ℕ} {e' : Cv.Expr R}
    (hrefs : e'.refs ⊆ e.names) (hk : ∀ r ∈ e'.refs, rank r < k) (n : Option String) :
    Tame rank k (env.evalSem (e'.message n)) := by
  induction k using Nat.strong_induction_on generalizing e' n with
  | _ k ih =>
    induction e' generalizing n with
    | ref r =>
      obtain ⟨⟨r', e''⟩, hbind, rfl⟩ := List.mem_map.mp (hrefs (List.mem_singleton_self r))
      have hlt : rank r' < k := hk r' (List.mem_singleton_self r')
      rcases hserves _ hbind with hsome | hnone
      · -- the expression of the name uses smaller names
        rw [Cv.Expr.message, env.evalSem_reference _ hsome]
        have hsub : e''.refs ⊆ e.names := List.Subset.trans (Cv.Expr.refs_subset hbind) hbound
        exact (ih _ hlt hsub (hrank _ hbind) _).mono hlt.le
      · rw [Cv.Expr.message, evalSem_lost hnone]
        refine .raise fun r what he => ?_
        rw [← (Err.unknownReference.inj he).1]
        exact hlt
    | var v =>
      rw [Cv.Expr.message, evalSem_var]
      exact .var _ v
    | name refname e' ihe => exact ihe hrefs hk _
    | real x =>
      rw [Cv.Expr.message, evalSem_real]
      exact .ok x
    | polynomial s =>
      rw [Cv.Expr.message, evalSem_real]
      exact .ok 0
    | unaryOp op a iha =>
      rw [Cv.Expr.message, evalSem_unary]
      exact (iha hrefs hk none).unary op
    | binaryOp op a b iha ihb =>
      rw [Cv.Expr.message, evalSem_binary]
      refine (iha ?_ ?_ none).binary op (ihb ?_ ?_ none)
      · exact fun r hr => hrefs (List.mem_append_left _ hr)
      · exact fun r hr => hk r (List.mem_append_left _ hr)
      · exact fun r hr => hrefs (List.mem_append_right _ hr)
      · exact fun r hr => hk r (List.mem_append_right _ hr)

end Env

/-! ### References to bound names -/

section Resolves

variable [Double R]

/-- A reference to `r` has, for all variables, the value of the expression `e`, unless the
visit counter runs over. -/
def AdvFunc.Resolves (build : Build R) (af : AdvFunc R) (r : String) (e : Cv.Expr R) : Prop :=
  ∃ msg, (e.write build none : Outcome Err (RealExpr R)) = ok msg ∧
    ∀ bv, (af.env bv).evalSem msg ≠ outOfFuel ∧ ∃ n₀, ∀ n, n₀ ≤ n →
      (AdvFunc.evaluate n (.reference none r) bv af).1 = .throw maxNesting ∨
        (AdvFunc.evaluate n (.reference none r) bv af).1 = (af.env bv).evalSem msg

/-- In every interpreter of an advertisement with this cost function, all bound names resolve. -/
def Cv.Expr.AllResolve (build : Build R) (e : Cv.Expr R) (msg : RealExpr R) : Prop :=
  ∀ adv af, adv.costFunction = some msg → AdvFunc.new adv = (ok (), af) →
    ∀ b ∈ e.bindings, af.Resolves build b.1 b.2

variable {build : Build R} {e e' : Cv.Expr R} {r : String} {adv : Advertisement R}
  {af : AdvFunc R}

/-- A lookup fails in the first visit, before the counter can run over. -/
theorem evaluate_lost (hv : af.advValid = true) (h : af.realExprRefs r = none)
    (bv : ValueMap R) (n : ℕ) :
    ∃ what, (AdvFunc.evaluate (n + 1) (.reference none r) bv af).1
      = .throw (.unknownReference r what) := by
  have hself : (methods bv af.realExprRefs).realExprRefs r = none := h
  refine ⟨"AdvFunc::evalRef(std::string ref, ...)" ++ " in Evaluate.cpp [ref=" ++ r ++ "]", ?_⟩
  rw [AdvFunc.evaluate, AdvFunc.query_fst hv]
  show ((visit >>= fun _ => evalRef (methods bv af.realExprRefs) _ r : Method R R) _).1 = _
  rw [evalRef, derefReal, hself]
  rfl

/-- What a name of the cost function stands for. -/
theorem realExprRefs_of_binding (he : e.WellNamed)
    (hcost : adv.costFunction = some (e.message none)) (hnew : AdvFunc.new adv = (ok (), af))
    (h : (r, e') ∈ e.bindings) (hname : e'.isName = false) :
    af.realExprRefs r = some (e'.message (some r)) := by
  have hlast := Cv.Expr.lastReal_message he h
  rw [hname] at hlast
  have hnodes : adv.costNodes = (e.message none).nodes := by
    rw [Advertisement.costNodes, hcost]
    rfl
  -- the cost function is the last part that is collected
  rw [(AdvFunc.of_new hnew).2.1, Advertisement.nodes, AdvFunc.lastReal_append,
    AdvFunc.lastReal_append, hnodes, hlast]
  rfl

theorem resolves_of_namesApart (he : e.WellNamed) {msg : RealExpr R}
    (hmsg : (e.write build none : Outcome Err (RealExpr R)) = ok msg) (hapart : e.NamesApart) :
    e.AllResolve build msg := by
  rintro adv af hcost hnew ⟨r, e'⟩ h
  obtain ⟨-, rfl⟩ := Cv.Expr.write_eq_ok_iff.mp hmsg
  obtain ⟨rank, hrank⟩ := he.acyclic
  have hserves : ∀ bv, (af.env bv).Serves e := fun bv b hb =>
    Or.inl (realExprRefs_of_binding he hcost hnew hb (hapart b hb))
  refine ⟨_, Cv.Expr.write_of_binding h hmsg, fun bv => ?_⟩
  have hends : (af.env bv).evalSem (e'.message none) ≠ outOfFuel :=
    ((hserves bv).tame he.bound hrank
      (List.Subset.trans (Cv.Expr.refs_subset h) he.bound) (hrank _ h) none).1
  have hsem : (af.env bv).evalSem (.reference none r) = (af.env bv).evalSem (e'.message none) := by
    rw [Env.evalSem_reference _ _ (realExprRefs_of_binding he hcost hnew h (hapart _ h)),
      Env.evalSem_message]
  refine ⟨hends, ?_⟩
  rw [← hsem] at hends ⊢
  exact query_terminates (AdvFunc.of_new hnew).1 (refines_eval _ _) hends

/-- A name that is bound directly to a name is unknown, if no other part of the advertisement
carries it. -/
theorem not_resolves_of_isName (he : e.WellNamed) (h : (r, e') ∈ e.bindings)
    (hname : e'.isName = true)
    (hnew : AdvFunc.new ⟨none, none, some (e.message none), []⟩ = (ok (), af)) :
    ¬ af.Resolves build r e' := by
  rintro ⟨msg, hmsg, hvalue⟩
  obtain ⟨-, rfl⟩ := Cv.Expr.write_eq_ok_iff.mp hmsg
  obtain ⟨rank, hrank⟩ := he.acyclic
  have hrefs : ∀ n, af.realExprRefs n = AdvFunc.lastReal (e.message none).nodes n :=
    (AdvFunc.of_new hnew).2.1
  have hserves : (af.env fun _ => none).Serves e := by
    rintro ⟨r', e''⟩ hb
    show af.realExprRefs r' = _ ∨ af.realExprRefs r' = none
    rw [hrefs, Cv.Expr.lastReal_message he hb]
    split
    · exact Or.inr rfl
    · exact Or.inl rfl
  have hlost : af.realExprRefs r = none := by
    rw [hrefs, Cv.Expr.lastReal_message he h, hname]
    rfl
  obtain ⟨-, n, hn⟩ := hvalue fun _ => none
  obtain ⟨what, hwhat⟩ := evaluate_lost (AdvFunc.of_new hnew).1 hlost (fun _ => none) n
  have hthrow := hn (n + 1) n.le_succ
  rw [hwhat] at hthrow
  rcases hthrow with hmax | hsem
  · simp [maxNesting] at hmax
  · -- the expression uses smaller names only
    have htame := hserves.tame he.bound hrank
      (List.Subset.trans (Cv.Expr.refs_subset h) he.bound) (hrank _ h) none
    exact lt_irrefl _ (htame.2 r what hsem.symm)

end Resolves

/-- **When all bound names resolve.**  In an expression whose names are distinct, bound and not
circular, every reference to a bound name has the value of its expression exactly when no name
is bound directly to a name. -/
theorem names_resolve_iff [Double R] {build : Build R} {e : Cv.Expr R} (he : e.WellNamed)
    {msg : RealExpr R} (hmsg : (e.write build none : Outcome Err (RealExpr R)) = ok msg)
    (hbudget : msg.nodes.length ≤ MAX_NESTING_DEPTH) :
    e.AllResolve build msg ↔ e.NamesApart := by
  constructor
  · rintro hall ⟨r, e'⟩ h
    obtain ⟨-, rfl⟩ := Cv.Expr.write_eq_ok_iff.mp hmsg
    let adv : Advertisement R := ⟨none, none, some (e.message none), []⟩
    have hcollect : adv.Collectable := ⟨Nat.zero_le _, Nat.zero_le _, hbudget⟩
    have hnew := AdvFunc.setAdv_of_collectable hcollect AdvFunc.blank
    rw [← Bool.not_eq_true]
    intro hname
    exact not_resolves_of_isName he h hname hnew (hall adv _ rfl hnew _ h)
  · exact resolves_of_namesApart he hmsg

/-- The expression `name(a, Real(5)) + a`. -/
theorem names_resolve_iff_sample :
    let e : Cv.Expr ℝ := .binaryOp .sum (.name "a" (.real 5)) (.ref "a")
    e.AllResolve .debug (e.message none) := by
  intro e
  have he : e.WellNamed :=
    { distinct := List.nodup_singleton _
      bound := List.Subset.refl _
      acyclic := by
        refine ⟨fun _ => 0, fun b hb r hr => ?_⟩
        rw [List.mem_singleton.mp hb] at hr
        exact absurd hr List.not_mem_nil }
  refine (names_resolve_iff he rfl (by decide)).mpr fun b hb => ?_
  rw [List.mem_singleton.mp hb]
  rfl

/-- In `name(a, name(b, Real(5)))` only `b` is known. -/
theorem nested_name_lost :
    let e : Cv.Expr ℝ := .name "a" (.name "b" (.real 5))
    let af : AdvFunc ℝ := (AdvFunc.new (costAdv (e.message none))).2
    e.WellNamed ∧ (e.write .debug none : Outcome Err (RealExpr ℝ)) = ok (e.message none) ∧
      (AdvFunc.new (costAdv (e.message none))).1 = ok () ∧
      (AdvFunc.evaluate 2 (.reference none "a") (bindPQ 0 0) af).1
        = .throw (.unknownReference "a"
          "AdvFunc::evalRef(std::string ref, ...) in Evaluate.cpp [ref=a]") ∧
      (AdvFunc.evaluate 2 (.reference none "b") (bindPQ 0 0) af).1 = ok 5 ∧
      ¬ e.AllResolve .debug (e.message none) := by
  intro e af
  have he : e.WellNamed :=
    { distinct := by decide
      bound := List.nil_subset _
      acyclic := by
        refine ⟨fun _ => 0, fun b hb r hr => ?_⟩
        rcases List.mem_pair.mp hb with rfl | rfl
        · exact absurd hr List.not_mem_nil
        · exact absurd hr List.not_mem_nil }
  have hcollect : (costAdv (e.message none)).Collectable :=
    ⟨Nat.zero_le _, Nat.zero_le _, Nat.succ_le_succ (Nat.zero_le _)⟩
  have hnew := AdvFunc.setAdv_of_collectable hcollect AdvFunc.blank
  have haf : af = AdvFunc.collected (costAdv (e.message none)).nodes
      { AdvFunc.blank with adv := costAdv (e.message none), advValid := true } :=
    congrArg Prod.snd hnew
  refine ⟨he, rfl, congrArg Prod.fst hnew, ?_, ?_, fun h => ?_⟩
  · rw [haf]
    rfl
  · rw [haf]
    rfl
  · have hresolves := h _ _ rfl hnew _ List.mem_cons_self
    exact not_resolves_of_isName he List.mem_cons_self rfl hnew hresolves

end Commelec
