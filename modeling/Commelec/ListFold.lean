/-
Commelec/ListFold.lean

A list operation is the fold of the binary one.

The sum (product) of a list of arguments is compared with the left-nested binary sum
(product) of the same arguments, starting from `real 0` (`real 1`).

* Both evaluate the arguments from left to right, so their values agree, and so do their
  failures (`evalSem_leftNested`).  The same holds for the derivative of a sum.
* For the derivative of a product the list operation first evaluates all arguments and then
  differentiates them, while the nested one differentiates the last argument before it
  evaluates it.  An argument that evaluates can be differentiated (`exists_derivSem`), so
  the values agree; and the failures agree, too, unless the last argument alone fails, in
  both ways (`derivSem_prod`).
-/
import Commelec.Slopes
import Commelec.SetReferences

namespace Commelec

open Effectful Outcome

/-! ### Outcomes that are no values -/

section Fails

variable {ε α β : Type}

/-- Nothing is returned. -/
def Fails (x : Outcome ε α) : Prop := ∀ a, x ≠ ok a

theorem Fails.bind {x : Outcome ε α} (h : Fails x) (f : α → Outcome ε α) : (x >>= f) = x := by
  cases x with
  | ok a => exact absurd rfl (h a)
  | throw e => rfl
  | outOfFuel => rfl

theorem ok_or_fails (x : Outcome ε α) : (∃ a, x = ok a) ∨ Fails x := by
  cases x with
  | ok a => exact Or.inl ⟨a, rfl⟩
  | throw e => exact Or.inr fun _ => by simp
  | outOfFuel => exact Or.inr fun _ => by simp

/-- The last computation of a list. -/
theorem collect_concat (xs : List (Outcome ε α)) (x : Outcome ε α) :
    collect (xs ++ [x]) = collect xs >>= fun as => x >>= fun a => ok (as ++ [a]) := by
  induction xs with
  | nil =>
    show (x >>= fun a => ok [a]) = x >>= fun a => ok ([] ++ [a])
    rfl
  | cons y ys ih =>
    rw [List.cons_append, collect_cons, ih, collect_cons]
    simp only [bind_assoc]
    rfl

end Fails

variable {R : Type} [Double R]

/-- `op (... (op start arg_1) ...) arg_n` -/
def leftNested (op : BinaryOp) (start : R) (args : List (RealExpr R)) : RealExpr R :=
  args.foldl (fun acc arg => .binaryOperation none op acc arg) (.real none start)

omit [Double R] in
theorem leftNested_concat (op : BinaryOp) (start : R) (args : List (RealExpr R))
    (arg : RealExpr R) : leftNested op start (args ++ [arg])
      = .binaryOperation none op (leftNested op start args) arg := by
  rw [leftNested, List.foldl_append]
  rfl

namespace Env

variable (env : Env R)

/-! ### Values -/

/-- **The nested operation evaluates its arguments from left to right**, and folds. -/
theorem evalSem_leftNested {op : BinaryOp} {f : R → R → R} (hop : binaryFun op = some f)
    (hleft : secondFirst R op = false) (start : R) (args : List (RealExpr R)) :
    env.evalSem (leftNested op start args)
      = collect (args.map env.evalSem) >>= fun xs => ok (xs.foldl f start) := by
  induction args using List.reverseRecOn with
  | nil => exact env.evalSem_real none start
  | append_singleton args arg ih =>
    rw [leftNested_concat, evalSem_binary, evalBinaryOperation_eq hop, hleft, ih,
      List.map_append, List.map_singleton, collect_concat]
    simp only [Bool.false_eq_true, if_false, bind_assoc, ok_bind, List.foldl_append,
      List.foldl_cons, List.foldl_nil]
    rfl

theorem evalSem_sum (n : Option String) (args : List (RealExpr R)) :
    env.evalSem (.listOperation n .sum args) = env.evalSem (leftNested .sum 0 args) := by
  rw [evalSem_list, env.evalSem_leftNested (f := fun x y => x + y) rfl rfl]
  rfl

theorem evalSem_prod (n : Option String) (args : List (RealExpr R)) :
    env.evalSem (.listOperation n .prod args) = env.evalSem (leftNested .prod 1 args) := by
  rw [evalSem_list, env.evalSem_leftNested (f := fun x y => x * y) rfl rfl]
  rfl

/-! ### Derivatives of sums -/

theorem derivSem_leftNested_sum (x : String) (args : List (RealExpr R)) :
    env.derivSem x (leftNested .sum 0 args)
      = collect (args.map (env.derivSem x)) >>= fun ds => ok (ds.foldl (· + ·) 0) := by
  induction args using List.reverseRecOn with
  | nil => exact env.derivSem_real none x 0
  | append_singleton args arg ih =>
    rw [leftNested_concat, derivSem_binary, derivBinaryOperation, ih, List.map_append,
      List.map_singleton, collect_concat]
    simp only [bind_assoc, ok_bind, List.foldl_append, List.foldl_cons, List.foldl_nil]
    rfl

theorem derivSem_sum (n : Option String) (x : String) (args : List (RealExpr R)) :
    env.derivSem x (.listOperation n .sum args)
      = env.derivSem x (leftNested .sum 0 args) := by
  rw [derivSem_list, derivSem_leftNested_sum]
  rfl

end Env

/-! ### What evaluates can be differentiated -/

/-- A polynomial whose offsets can be read can be differentiated. -/
theorem exists_evalMonomial {d : ℕ} {offset : ℤ} {var : ℕ} {pt : List R} {monom v : R}
    (h : (evalMonomial d offset (-1) var pt monom : Outcome Err R) = ok v) (dVar : ℤ)
    (monom' : R) :
    ∃ w, (evalMonomial d offset dVar var pt monom' : Outcome Err R) = ok w := by
  induction pt generalizing var monom monom' with
  | nil => exact ⟨monom', rfl⟩
  | cons x pt ih =>
    rw [evalMonomial] at h ⊢
    obtain ⟨k, hk, h⟩ := bind_eq_ok.mp h
    have hvar : ¬ (-1 : ℤ) = var := by omega
    dsimp only at h
    rw [if_neg hvar] at h
    rw [hk, ok_bind]
    dsimp only
    split
    · split
      · exact ⟨0, rfl⟩
      · split
        · exact ih h _
        · exact ih h _
    · exact ih h _

theorem exists_derivPolynomial {bv : ValueMap R} {p : Polynomial R} {v : R}
    (h : (evalPolynomial bv p (-1) : Outcome Err R) = ok v) (x : String) :
    ∃ d, (derivPolynomial bv p x : Outcome Err R) = ok d := by
  rw [derivPolynomial]
  split
  · rw [evalPolynomial] at h ⊢
    obtain ⟨pt, hpt, h⟩ := bind_eq_ok.mp h
    obtain ⟨terms, hterms, -⟩ := bind_eq_ok.mp h
    rw [hpt, ok_bind]
    obtain ⟨terms', hterms'⟩ : ∃ terms', collect (p.coefficients.map fun coeff => (do
        let monom ← evalMonomial (p.maxVarDegree.toNat + 1) coeff.offset.toInt32.toInt
          (p.vars.idxOf x) 0 pt 1
        pure (coeff.value * monom) : Outcome Err R)) = ok terms' := by
      refine exists_collect_map_iff.mpr fun coeff hcoeff => ?_
      obtain ⟨b, hb⟩ := exists_of_collect_map hterms hcoeff
      obtain ⟨monom, hmonom, -⟩ := bind_eq_ok.mp hb
      obtain ⟨w, hw⟩ := exists_evalMonomial hmonom (p.vars.idxOf x) 1
      exact ⟨coeff.value * w, by rw [hw, ok_bind]; rfl⟩
    dsimp only
    rw [hterms']
    exact ⟨_, rfl⟩
  · exact ⟨0, rfl⟩

theorem exists_derivUnary {op : UnaryOp} {f : R → R} (hop : unaryFun op = some f) (v d : R) :
    ∃ w, (derivUnaryOperation op (ok v) (ok d) : Outcome Err R) = ok w := by
  cases op with
  | unknown w => simp [unaryFun] at hop
  | _ => exact ⟨_, rfl⟩

theorem exists_derivBinary {op : BinaryOp} {f : R → R → R} (hop : binaryFun op = some f)
    (v w d e : R) :
    ∃ u, (derivBinaryOperation op (ok v) (ok w) (ok d) (ok e) : Outcome Err R) = ok u := by
  cases op with
  | unknown w => simp [binaryFun] at hop
  | min =>
    show ∃ u, (if Double.le v w then ok d else ok e : Outcome Err R) = ok u
    split
    · exact ⟨d, rfl⟩
    · exact ⟨e, rfl⟩
  | max =>
    show ∃ u, (if Double.lt w v then ok d else ok e : Outcome Err R) = ok u
    split
    · exact ⟨d, rfl⟩
    · exact ⟨e, rfl⟩
  | _ => exact ⟨_, rfl⟩

omit [Double R] in
/-- A case distinction with a value has a derivative: the same case is chosen. -/
theorem exists_firstCase {α : Type} {as : List α} {k k' : α → Outcome Err Bool}
    {f g : α → Outcome Err R} (hk : ∀ a b, k a = ok b → k' a = ok b)
    (hfg : ∀ a v, f a = ok v → ∃ d, g a = ok d) {v : R}
    (h : firstCase (as.map fun a => (k a, f a)) = ok v) :
    ∃ d, firstCase (as.map fun a => (k' a, g a)) = ok d := by
  induction as with
  | nil => exact absurd h (by simp [firstCase])
  | cons a as ih =>
    rw [List.map_cons, firstCase] at h ⊢
    obtain ⟨b, hb, h⟩ := bind_eq_ok.mp h
    rw [hk a b hb, ok_bind]
    cases b with
    | true => exact hfg a v h
    | false => exact ih h

theorem exists_derivList {op : ListOp} {as : List (RealExpr R)}
    {f f' g : RealExpr R → Outcome Err R} (hf : ∀ a v, f a = ok v → f' a = ok v)
    (hg : ∀ a v, f a = ok v → ∃ d, g a = ok d) {v : R}
    (h : evalListOperation op (as.map f) = ok v) :
    ∃ d, derivListOperation op (as.map f') (as.map g) = ok d := by
  have hall : ∀ {vs}, collect (as.map f) = ok vs →
      (∃ ws, collect (as.map f') = ok ws) ∧ ∃ ds, collect (as.map g) = ok ds := by
    intro vs hvs
    refine ⟨exists_collect_map_iff.mpr fun a ha => ?_, exists_collect_map_iff.mpr fun a ha => ?_⟩
    · obtain ⟨w, hw⟩ := exists_of_collect_map hvs ha
      exact ⟨w, hf a w hw⟩
    · obtain ⟨w, hw⟩ := exists_of_collect_map hvs ha
      exact hg a w hw
  cases op with
  | sum =>
    obtain ⟨vs, hvs, -⟩ := bind_eq_ok.mp h
    obtain ⟨-, ds, hds⟩ := hall hvs
    exact ⟨_, by rw [derivListOperation, hds]; rfl⟩
  | prod =>
    obtain ⟨vs, hvs, -⟩ := bind_eq_ok.mp h
    obtain ⟨⟨ws, hws⟩, ds, hds⟩ := hall hvs
    exact ⟨_, by rw [derivListOperation, evalToVector, hws, ok_bind, hds]; rfl⟩
  | unknown w => simp [evalListOperation] at h

namespace Env

variable (env : Env R)

theorem exists_derivVar {w : String} {v : R}
    (h : evalVar (env.self (m := Outcome Err)) w = ok v) (x : String) :
    ∃ d, derivVar (env.self (m := Outcome Err)) x w = ok d := by
  rcases hu : env.boundVars w with - | u
  · have hself : (env.self (m := Outcome Err)).boundVars w = none := hu
    rw [evalVar, hself] at h
    simp at h
  · have hself : (env.self (m := Outcome Err)).boundVars w = some u := hu
    rw [derivVar, hself]
    show ∃ d, (if w = x then pure 1 else pure 0 : Outcome Err R) = ok d
    split
    · exact ⟨1, rfl⟩
    · exact ⟨0, rfl⟩

/-- What a call returns at some depth is the value. -/
theorem evalSem_of_callsAt {n : ℕ} {a : RealExpr R} {w : R}
    (h : (env.callsAt n).eval a = ok w) : env.evalSem a = ok w := by
  rw [← h]
  exact ((Chain.le_limit (env.eval_mono a) n).eq (by rw [h]; simp)).symm

theorem memberSem_of_callsAt {n : ℕ} {s : SetExpr R} {pt : List R} {b : Bool}
    (h : (env.callsAt n).membership s pt = ok b) : env.memberSem s pt = ok b := by
  rw [← h]
  exact ((Chain.le_limit (env.membership_mono s pt) n).eq (by rw [h]; simp)).symm

/-- **An expression that evaluates can be differentiated.** -/
theorem exists_derivSem (x : String) {e : RealExpr R} {v : R} (h : env.evalSem e = ok v) :
    ∃ d, env.derivSem x e = ok d := by
  obtain ⟨n, hn⟩ := Chain.exists_eq_limit (c := fun n => (env.callsAt n).eval e)
    (show env.evalSem e ≠ outOfFuel by rw [h]; simp)
  -- the value is found with a finite depth, on which the induction is: references may be cyclic
  rw [show Chain.limit (fun n => (env.callsAt n).eval e) = ok v from h] at hn
  clear h
  induction n generalizing e v with
  | zero => exact absurd hn (by simp [callsAt, calls])
  | succ n ih =>
    change evalRealExpr env.self (env.callsAt n) e = ok v at hn
    cases e with
    | real m w => exact ⟨0, env.derivSem_real m x w⟩
    | polynomial m p =>
      rw [derivSem_polynomial]
      exact exists_derivPolynomial hn x
    | unaryOperation m op a =>
      change evalUnaryOperation op ((env.callsAt n).eval a) = ok v at hn
      rw [evalUnaryOperation] at hn
      split at hn
      · next f hop =>
        obtain ⟨w, ha, -⟩ := bind_eq_ok.mp hn
        obtain ⟨d, hd⟩ := ih ha
        rw [derivSem_unary, env.evalSem_of_callsAt ha, hd]
        exact exists_derivUnary hop w d
      · simp at hn
    | binaryOperation m op a b =>
      change evalBinaryOperation op ((env.callsAt n).eval a) ((env.callsAt n).eval b) = ok v at hn
      rcases hop : binaryFun (R := R) op with - | f
      · rw [evalBinaryOperation, hop] at hn
        simp at hn
      · obtain ⟨w, u, ha, hb, -⟩ := (evalBinaryOperation_eq_ok hop).mp hn
        obtain ⟨d, hd⟩ := ih ha
        obtain ⟨d', hd'⟩ := ih hb
        rw [derivSem_binary, env.evalSem_of_callsAt ha, env.evalSem_of_callsAt hb, hd, hd']
        exact exists_derivBinary hop w u d d'
    | listOperation m op as =>
      change evalListOperation op (as.map (env.callsAt n).eval) = ok v at hn
      rw [derivSem_list]
      exact exists_derivList (fun a w => env.evalSem_of_callsAt) (fun a w => ih) hn
    | caseDistinction m vars cs =>
      rw [derivSem_case]
      change caseDistinction env.boundVars vars _ = ok v at hn
      obtain ⟨pt, hpt, hn⟩ := bind_eq_ok.mp hn
      rw [List.map_map] at hn
      rw [caseDistinction, hpt, ok_bind, List.map_map]
      exact exists_firstCase (fun _ _ => env.memberSem_of_callsAt) (fun _ _ => ih) hn
    | reference m ref =>
      change evalRef env.self (env.callsAt n) ref = ok v at hn
      rw [evalRef, derefReal] at hn
      split at hn
      · next e href =>
        rw [derivSem_reference env m x href]
        exact ih hn
      · simp at hn
    | var m w =>
      rw [derivSem_var]
      exact env.exists_derivVar hn x
    | unknown m w =>
      change (.throw .undefined : Outcome Err R) = ok v at hn
      simp at hn

end Env

/-! ### Derivatives of products -/

/-- The product rule, for the last factor. -/
theorem prodSlope_concat {vs ds : List ℝ} (hlen : ds.length = vs.length) (v d : ℝ) :
    prodSlope (vs ++ [v]) (ds ++ [d]) = vs.prod * d + v * prodSlope vs ds := by
  induction vs generalizing ds with
  | nil =>
    obtain rfl : ds = [] := List.length_eq_zero_iff.mp hlen
    simp [prodSlope]
  | cons w vs ih =>
    obtain - | ⟨d', ds⟩ := ds
    · simp at hlen
    rw [List.cons_append, List.cons_append, prodSlope, prodSlope, ih (by simpa using hlen),
      List.prod_append, List.prod_singleton, List.prod_cons]
    ring

namespace Env

variable (env : Env ℝ) (x : String)

theorem evalSem_leftNested_prod (args : List (RealExpr ℝ)) :
    env.evalSem (leftNested .prod 1 args)
      = collect (args.map env.evalSem) >>= fun vs => ok vs.prod := by
  rw [env.evalSem_leftNested (f := fun x y => x * y) rfl rfl]
  refine congrArg (collect (args.map env.evalSem) >>= ·) (funext fun vs => ?_)
  rw [List.prod_eq_foldl]

/-- Where all arguments have values, the nested product has the derivative of the product
rule. -/
theorem derivSem_leftNested_prod {args : List (RealExpr ℝ)} {vs ds : List ℝ}
    (hv : collect (args.map env.evalSem) = ok vs)
    (hd : collect (args.map (env.derivSem x)) = ok ds) :
    env.derivSem x (leftNested .prod 1 args) = ok (prodSlope vs ds) := by
  induction args using List.reverseRecOn generalizing vs ds with
  | nil =>
    obtain rfl := Outcome.ok.inj hv
    exact env.derivSem_real none x 1
  | append_singleton args arg ih =>
    rw [List.map_append, List.map_singleton, collect_concat] at hv hd
    obtain ⟨vs', hvs, hv⟩ := bind_eq_ok.mp hv
    obtain ⟨v, hev, hv⟩ := bind_eq_ok.mp hv
    obtain ⟨ds', hds, hd⟩ := bind_eq_ok.mp hd
    obtain ⟨d, hder, hd⟩ := bind_eq_ok.mp hd
    obtain rfl := Outcome.ok.inj hv
    obtain rfl := Outcome.ok.inj hd
    have hlen : ds'.length = vs'.length := by
      rw [collect_length hds, collect_length hvs, List.length_map, List.length_map]
    rw [leftNested_concat, derivSem_binary, derivBinaryOperation, evalSem_leftNested_prod, hvs,
      hev, hder, ih hvs hds, prodSlope_concat hlen]
    rfl

/-- The nested product evaluates all factors but the last, and then differentiates that one
before it evaluates it. -/
theorem derivSem_leftNested_concat (init : List (RealExpr ℝ)) (last : RealExpr ℝ) :
    env.derivSem x (leftNested .prod 1 (init ++ [last]))
      = collect (init.map env.evalSem) >>= fun vs => env.derivSem x last >>= fun d =>
        env.evalSem last >>= fun v => env.derivSem x (leftNested .prod 1 init) >>= fun d' =>
          ok (vs.prod * d + v * d') := by
  rw [leftNested_concat, derivSem_binary, derivBinaryOperation, evalSem_leftNested_prod,
    bind_assoc]
  rfl

/-- The list operation evaluates all factors first. -/
theorem derivSem_prod_concat (n : Option String) (init : List (RealExpr ℝ))
    (last : RealExpr ℝ) :
    env.derivSem x (.listOperation n .prod (init ++ [last]))
      = collect (init.map env.evalSem) >>= fun vs => env.evalSem last >>= fun v =>
        collect ((init ++ [last]).map (env.derivSem x)) >>= fun ds =>
          ok (ds.zipIdx.foldl (fun accum d => accum + multOthers (vs ++ [v]) d.2 d.1) 0) := by
  rw [derivSem_list, derivListOperation, evalToVector, List.map_append (f := env.evalSem),
    List.map_singleton, collect_concat]
  simp only [bind_assoc, ok_bind]
  rfl

/-- All arguments but the last evaluate; the last one fails, and so does its derivative. -/
structure LastFails (init : List (RealExpr ℝ)) (last : RealExpr ℝ) : Prop where
  init : ∀ a ∈ init, ∃ v, env.evalSem a = ok v
  eval : Fails (env.evalSem last)
  deriv : Fails (env.derivSem x last)

variable {env x}

/-- Then the list operation fails as the evaluation does, and the nested one as the
derivative does. -/
theorem LastFails.derivSem_eq {init : List (RealExpr ℝ)} {last : RealExpr ℝ}
    (h : env.LastFails x init last) (n : Option String) :
    env.derivSem x (.listOperation n .prod (init ++ [last])) = env.evalSem last ∧
      env.derivSem x (leftNested .prod 1 (init ++ [last])) = env.derivSem x last := by
  obtain ⟨vs, hvs⟩ := exists_collect_map_iff.mpr h.init
  constructor
  · rw [derivSem_prod_concat, hvs, ok_bind, h.eval.bind]
  · rw [derivSem_leftNested_concat, hvs, ok_bind, h.deriv.bind]

variable (env x)

/-- **The derivative of a product**: the list operation and the nested one agree, unless the
last argument alone fails, in both ways. -/
theorem derivSem_prod (n : Option String) (args : List (RealExpr ℝ)) :
    env.derivSem x (.listOperation n .prod args) = env.derivSem x (leftNested .prod 1 args) ∨
      ∃ init last, args = init ++ [last] ∧ env.LastFails x init last := by
  obtain rfl | ⟨init, last, rfl⟩ := args.eq_nil_or_concat'
  · -- the empty product is constant
    refine Or.inl ?_
    rw [derivSem_list]
    exact (env.derivSem_real none x 1).symm
  rcases hinit : collect (init.map env.evalSem) with vs | e | -
  · rcases ok_or_fails (env.evalSem last) with ⟨v, hv⟩ | hfails
    · -- all arguments evaluate, so all can be differentiated
      left
      have hvs : collect ((init ++ [last]).map env.evalSem) = ok (vs ++ [v]) := by
        rw [List.map_append, List.map_singleton, collect_concat, hinit, hv]
        rfl
      obtain ⟨ds, hds⟩ : ∃ ds, collect ((init ++ [last]).map (env.derivSem x)) = ok ds := by
        refine exists_collect_map_iff.mpr fun a ha => ?_
        obtain ⟨w, hw⟩ := exists_of_collect_map hvs ha
        exact env.exists_derivSem x hw
      have hlen : ds.length = (vs ++ [v]).length := by
        rw [collect_length hds, collect_length hvs, List.length_map, List.length_map]
      rw [derivSem_list, derivList_prod hvs hds hlen, env.derivSem_leftNested_prod x hvs hds]
    · rcases ok_or_fails (env.derivSem x last) with ⟨d, hd⟩ | hfails'
      · refine Or.inl ?_
        rw [derivSem_prod_concat, derivSem_leftNested_concat, hinit, ok_bind, ok_bind, hd,
          ok_bind, hfails.bind, hfails.bind]
      · exact Or.inr ⟨init, last, rfl, fun a ha => exists_of_collect_map hinit ha, hfails,
          hfails'⟩
  · -- an earlier argument fails
    left
    rw [derivSem_prod_concat, derivSem_leftNested_concat, hinit]
    rfl
  · left
    rw [derivSem_prod_concat, derivSem_leftNested_concat, hinit]
    rfl

end Env

/-! ### Queries -/

/-- The failure is an undefined variable or reference. -/
def UndefinedName {α : Type} (o : Outcome Err α) : Prop :=
  (∃ ref msg, o = .throw (.unknownVariable ref msg)) ∨
    ∃ ref msg, o = .throw (.unknownReference ref msg)

/-- Only the last argument fails, in its evaluation and in its derivative, and exactly one of
the two failures is an undefined variable or reference. -/
def Env.MixedLast (env : Env ℝ) (x : String) (args : List (RealExpr ℝ)) : Prop :=
  ∃ init last, args = init ++ [last] ∧ env.LastFails x init last ∧
    ¬ (UndefinedName (env.evalSem last) ↔ UndefinedName (env.derivSem x last))

/-- **A list operation is the fold of the binary one.**  Values, and the outcomes of sums and
of evaluations, are the same.  A product's derivative fails with an undefined name on one
side only when the two failures of the last argument differ in that. -/
theorem listOperation_is_fold {af : AdvFunc ℝ} (hv : af.advValid = true) (bv : ValueMap ℝ)
    (x : String) (n : Option String) (args : List (RealExpr ℝ)) :
    (∀ o o', AdvFunc.EndsWith (fun k => AdvFunc.evaluate k (.listOperation n .sum args) bv) af o →
      AdvFunc.EndsWith (fun k => AdvFunc.evaluate k (leftNested .sum 0 args) bv) af o' →
      o' = o) ∧
    (∀ o o', AdvFunc.EndsWith (fun k => AdvFunc.evaluate k (.listOperation n .prod args) bv) af o →
      AdvFunc.EndsWith (fun k => AdvFunc.evaluate k (leftNested .prod 1 args) bv) af o' →
      o' = o) ∧
    (∀ o o', AdvFunc.EndsWith
        (fun k => AdvFunc.evalPartialDerivative k (.listOperation n .sum args) x bv) af o →
      AdvFunc.EndsWith
        (fun k => AdvFunc.evalPartialDerivative k (leftNested .sum 0 args) x bv) af o' →
      o' = o) ∧
    ∀ o o', AdvFunc.EndsWith
        (fun k => AdvFunc.evalPartialDerivative k (.listOperation n .prod args) x bv) af o →
      AdvFunc.EndsWith
        (fun k => AdvFunc.evalPartialDerivative k (leftNested .prod 1 args) x bv) af o' →
      (∀ v, o' = ok v ↔ o = ok v) ∧
        ((UndefinedName o' ↔ UndefinedName o) ↔ ¬ (af.env bv).MixedLast x args) := by
  refine ⟨fun o o' ho ho' => ?_, fun o o' ho ho' => ?_, fun o o' ho ho' => ?_,
    fun o o' ho ho' => ?_⟩
  · rw [ho.eq hv (refines_eval _ _), ho'.eq hv (refines_eval _ _), Env.evalSem_sum]
  · rw [ho.eq hv (refines_eval _ _), ho'.eq hv (refines_eval _ _), Env.evalSem_prod]
  · rw [ho.eq hv (refines_deriv _ x _), ho'.eq hv (refines_deriv _ x _), Env.derivSem_sum]
  · rw [ho.eq hv (refines_deriv _ x _), ho'.eq hv (refines_deriv _ x _)]
    -- if the value and the derivative of the last argument fail differently, so do the two sums
    have hmixed : (af.env bv).MixedLast x args →
        ¬ (UndefinedName ((af.env bv).derivSem x (leftNested .prod 1 args)) ↔
          UndefinedName ((af.env bv).derivSem x (.listOperation n .prod args))) := by
      rintro ⟨init, last, rfl, hlast, hdiff⟩ hiff
      obtain ⟨hlist, hnested⟩ := hlast.derivSem_eq n
      rw [hlist, hnested] at hiff
      exact hdiff hiff.symm
    rcases (af.env bv).derivSem_prod x n args with heq | ⟨init, last, rfl, hlast⟩
    · rw [← heq]
      refine ⟨fun _ => Iff.rfl, fun _ hm => hmixed hm ?_, fun _ => Iff.rfl⟩
      rw [heq]
    · obtain ⟨hlist, hnested⟩ := hlast.derivSem_eq n
      refine ⟨fun v => ?_, fun hiff hm => hmixed hm hiff, fun hm => ?_⟩
      · rw [hlist, hnested]
        exact iff_of_false (hlast.deriv v) (hlast.eval v)
      · rw [hlist, hnested]
        by_contra hdiff
        exact hm ⟨init, last, rfl, hlast, fun h => hdiff h.symm⟩

/-- A sum whose evaluation fails at `Z`, and whose derivative fails at the case
distinction. -/
def failsTwice : RealExpr ℝ :=
  .listOperation none .sum
    [.binaryOperation none .lessEqThan (.var none "Z") (.real none 0),
      .caseDistinction none [] []]

theorem listOperation_is_fold_sample : ∃ o o' : Outcome Err ℝ,
    AdvFunc.EndsWith (fun k => AdvFunc.evalPartialDerivative k
      (.listOperation none .sum [.var none "P", failsTwice]) "P" (bindPQ 3 5))
      (AdvFunc.new namedFive).2 o ∧
    AdvFunc.EndsWith (fun k => AdvFunc.evalPartialDerivative k
      (leftNested .sum 0 [.var none "P", failsTwice]) "P" (bindPQ 3 5))
      (AdvFunc.new namedFive).2 o' ∧ o' = o := by
  let e : Outcome Err ℝ := .throw (.evaluationError "Unhandled case in CaseDistinction")
  have ho : AdvFunc.EndsWith (fun k => AdvFunc.evalPartialDerivative k
      (.listOperation none .sum [.var none "P", failsTwice]) "P" (bindPQ 3 5))
      (AdvFunc.new namedFive).2 e := by
    refine ⟨⟨5, fun k hk => ?_⟩, by simp [e, maxNesting]⟩
    obtain ⟨k, rfl⟩ := Nat.exists_eq_add_of_le' hk
    rfl
  have ho' : AdvFunc.EndsWith (fun k => AdvFunc.evalPartialDerivative k
      (leftNested .sum 0 [.var none "P", failsTwice]) "P" (bindPQ 3 5))
      (AdvFunc.new namedFive).2 e := by
    refine ⟨⟨5, fun k hk => ?_⟩, by simp [e, maxNesting]⟩
    obtain ⟨k, rfl⟩ := Nat.exists_eq_add_of_le' hk
    rfl
  exact ⟨e, e, ho, ho', (listOperation_is_fold rfl (bindPQ 3 5) "P" none
    [.var none "P", failsTwice]).2.2.1 e e ho ho'⟩

/-- The list operation reports the undefined variable, the nested one the case
distinction. -/
theorem product_failures_differ : ∃ o o' : Outcome Err ℝ,
    AdvFunc.EndsWith (fun k => AdvFunc.evalPartialDerivative k
      (.listOperation none .prod [failsTwice]) "P" (bindPQ 3 5)) (AdvFunc.new namedFive).2 o ∧
    AdvFunc.EndsWith (fun k => AdvFunc.evalPartialDerivative k
      (leftNested .prod 1 [failsTwice]) "P" (bindPQ 3 5)) (AdvFunc.new namedFive).2 o' ∧
    UndefinedName o ∧ ¬ UndefinedName o' := by
  refine ⟨.throw (.unknownVariable "Z"
      "AdvFunc::evalVar(std::string var, ...) in Evaluate.cpp [var=Z]"),
    .throw (.evaluationError "Unhandled case in CaseDistinction"),
    ⟨⟨4, fun k hk => ?_⟩, by simp [maxNesting]⟩, ⟨⟨4, fun k hk => ?_⟩, by simp [maxNesting]⟩,
    Or.inl ⟨_, _, rfl⟩, ?_⟩
  · obtain ⟨k, rfl⟩ := Nat.exists_eq_add_of_le' hk
    rfl
  · obtain ⟨k, rfl⟩ := Nat.exists_eq_add_of_le' hk
    rfl
  · rintro (⟨ref, msg, h⟩ | ⟨ref, msg, h⟩)
    · simp at h
    · simp at h

end Commelec
