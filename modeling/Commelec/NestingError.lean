/-
Commelec/NestingError.lean

What does "max nesting depth reached" mean?

The counter `_nesting_depth` goes up with every visit and never down again, so it counts the
nodes that are visited, and not how deep they are nested.  The construction throws exactly
if one of the three parts has too many nodes (`new_throws_iff`), and a query exactly if its
trace of visits is caught (`raises_iff`).  So the exception means deep nesting
for those messages only that are not too large, or deeply nested (`nesting_error_iff`).
-/
import Commelec.Exceptions
import Commelec.IntersectionHull
import Commelec.Linprog
import Commelec.Reuse
import Commelec.VisitOrder

namespace Commelec

open Effectful Outcome

variable {R : Type}

/-! ### Nesting -/

/-- The sub-expressions of a node, and what it refers to. -/
def Node.children (reals : RealExprRefMap R) (sets : SetExprRefMap R) : Node R → List (Node R)
  | .real (.unaryOperation _ _ arg) => [.real arg]
  | .real (.binaryOperation _ _ argA argB) => [.real argA, .real argB]
  | .real (.listOperation _ _ args) => args.map .real
  | .real (.caseDistinction _ _ cases) => cases.flatMap fun c => [.set c.1, .real c.2]
  | .real (.reference _ ref) => (reals ref).toList.map .real
  | .real _ => []
  | .set (.singleton _ singleton) => singleton.map .real
  | .set (.ball _ center radius) => center.map .real ++ [.real radius]
  | .set (.rectangle _ rect) => rect.flatMap fun b => [.real b.1, .real b.2]
  | .set (.convexPolytope _ a b) => a.flatten.map .real ++ b.map .real
  | .set (.intersection _ sets) => sets.map .set
  | .set (.caseDistinction _ _ cases) => cases.flatMap fun c => [.set c.1, .set c.2]
  | .set (.reference _ ref) => (sets ref).toList.map .set
  | .set (.unknown _ _) => []

/-- From the node, a chain of more than `MAX_NESTING_DEPTH` nested expressions starts. -/
def Deep (reals : RealExprRefMap R) (sets : SetExprRefMap R) (node : Node R) : Prop :=
  ∃ rest, List.IsChain (fun a b => b ∈ a.children reals sets) (node :: rest) ∧
    MAX_NESTING_DEPTH < (node :: rest).length

/-! ### Construction -/

namespace AdvFunc

/-- A part that is not collected throws. -/
theorem findReferencesPart_throws {α : Type} {part : Option α} {nodes : α → List (Node R)}
    {find : α → Run (AdvFunc R) Err Unit} (hfind : ∀ x, find x = visitAll (nodes x))
    {af : AdvFunc R} (h0 : af.nestingDepth = 0)
    (hlt : MAX_NESTING_DEPTH < (partNodes nodes part).length) :
    (findReferencesPart part find af).1 = .throw maxNesting := by
  cases part with
  | none => exact absurd hlt (Nat.not_lt_zero _)
  | some x =>
    have hthrow : (find x af).1 = .throw maxNesting := by
      rw [hfind, visitAll_of_lt]
      · rwa [h0, Nat.zero_add]
      · rw [h0]
        exact Nat.zero_le _
    rw [findReferencesPart, Run.bind_throw (Prod.ext hthrow rfl)]

/-- **When the construction throws**: a part has too many nodes. -/
theorem new_throws_iff (adv : Advertisement R) :
    (new adv).1 = .throw maxNesting ↔ ¬ adv.Collectable := by
  constructor
  · intro h hcol
    rw [new, setAdv_of_collectable hcol] at h
    simp at h
  · intro h
    let af₀ : AdvFunc R := { blank with adv := adv, advValid := true }
    have hreset : resetDepth af₀ = (ok (), af₀) := rfl
    show (setAdv adv blank).1 = _
    rw [setAdv, findReferences, Run.bind_ok hreset]
    -- the parts are collected one after the other, and the first one that is too large throws
    by_cases hpq : adv.pQNodes.length ≤ MAX_NESTING_DEPTH
    · rw [Run.bind_ok (findReferencesPart_of_le findReferencesSet_eq rfl hpq)]
      by_cases hbelief : adv.beliefNodes.length ≤ MAX_NESTING_DEPTH
      · rw [Run.bind_ok (findReferencesPart_of_le findReferencesSet_eq rfl hbelief)]
        refine findReferencesPart_throws findReferencesReal_eq rfl ?_
        exact not_le.mp fun hcost => h ⟨hpq, hbelief, hcost⟩
      · rw [Run.bind_throw (Prod.ext
          (findReferencesPart_throws findReferencesSet_eq rfl (not_le.mp hbelief)) rfl)]
    · rw [Run.bind_throw (Prod.ext
        (findReferencesPart_throws findReferencesSet_eq rfl (not_le.mp hpq)) rfl)]

end AdvFunc

/-- The three parts, as far as they are there. -/
def Advertisement.parts (adv : Advertisement R) : List (Node R) :=
  adv.pQProfile.toList.map .set ++ adv.beliefFunction.toList.map .set ++
    adv.costFunction.toList.map .real

/-- From one of the three parts, a chain that is too long starts. -/
def Advertisement.Deep (adv : Advertisement R) : Prop :=
  ∃ node ∈ adv.parts, Commelec.Deep (AdvFunc.lastReal adv.nodes) (AdvFunc.lastSet adv.nodes) node

/-! ### Queries -/

/-- The query throws the exception. -/
def AdvFunc.Raises {α : Type} (q : ℕ → Run (AdvFunc R) Err α) (af : AdvFunc R) : Prop :=
  ∃ n, (q n af).1 = .throw maxNesting

/-- **When a query throws**: its traced run is caught. -/
theorem raises_iff {af : AdvFunc R} {bv : ValueMap R} {α : Type} {x : ℕ → Traced α}
    {method : ℕ → Self R (Method R) → Method R α} (hv : af.advValid = true)
    (hrel : ∀ n, (watched af.setExprRefs).rel (x n) (method n (methods bv af.realExprRefs)))
    (hspares : ∀ n, Spares maxNesting (x n []).1) :
    AdvFunc.Raises (fun n => AdvFunc.query bv (method n)) af ↔ Overflows x := by
  constructor
  · -- the traced run itself never throws this exception
    rintro ⟨n, hn⟩
    rw [AdvFunc.query_fst hv] at hn
    rcases watched_start (hrel n) with ⟨hcaught, -⟩ | ⟨-, hout⟩
    · exact ⟨n, hcaught⟩
    · exact absurd (hout.symm.trans hn) (hspares n)
  · rintro ⟨n, hn⟩
    refine ⟨n, ?_⟩
    rw [AdvFunc.query_fst hv]
    rcases watched_start (hrel n) with ⟨-, hout⟩ | ⟨hfree, -⟩
    · exact hout
    · exact absurd hn hfree

/-- A traced run and its outcome. -/
def outcomeOf : EffectRel Err Traced (Outcome Err) where
  rel x y := ∀ τ, (x τ).1 = y
  rel_pure _ _ := rfl
  rel_raise _ _ := rfl
  rel_bind := by
    intro α β x y f g hx hf τ
    rcases hxτ : x τ with ⟨o, τ'⟩
    have hout := hx τ
    rw [hxτ] at hout
    obtain rfl : o = y := hout
    cases o with
    | ok a =>
      rw [Run.bind_ok hxτ]
      exact hf a τ'
    | throw e => rw [Run.bind_throw hxτ]; rfl
    | outOfFuel => rw [Run.bind_outOfFuel hxτ]; rfl

theorem related_outcomeOf (env : Env R) :
    Related outcomeOf (fun _ => True) (fun _ => True) env.tracing env.self where
  boundVars := rfl
  visit _ := rfl
  visitSet _ _ := rfl
  real _ := ⟨rfl, fun _ _ => trivial⟩
  set _ _ _ _ hk := outcomeOf.rel_bind (outcomeOf.rel_pure _) fun s => hk s trivial

theorem outcomeOf_stop {α : Type} : outcomeOf.rel (stop : Traced α) stop := fun _ => rfl

/-- The exception is not that of a kind of set which is not known. -/
theorem maxNesting_ne_which (what : String) (s : SetExpr R) : maxNesting ≠ whichError what s := by
  simp [maxNesting, whichError]

section Evaluation

variable [Double R] {af : AdvFunc R} (hv : af.advValid = true) (bv : ValueMap R) (e : RealExpr R)

include hv

/-- **When an evaluation throws.** -/
theorem AdvFunc.evaluate_raises_iff :
    AdvFunc.Raises (fun n => AdvFunc.evaluate n e bv) af ↔
      Overflows fun n => (calls (af.env bv).tracing n).eval e := by
  refine raises_iff hv (fun n =>
    (rel_calls .all (related_tracing (af.env bv)) (watched_stop _) n).eval trivial) fun n => ?_
  rw [(rel_calls .all (related_outcomeOf (af.env bv)) outcomeOf_stop n).eval (e := e) trivial []]
  exact (spares_callsAt _ foreign_maxNesting n).1 e

/-- **When a derivative throws.** -/
theorem AdvFunc.evalPartialDerivative_raises_iff (v : String) :
    AdvFunc.Raises (fun n => AdvFunc.evalPartialDerivative n e v bv) af ↔
      Overflows fun n => Commelec.evalPartialDerivative (af.env bv).tracing v n e := by
  refine raises_iff hv (fun n => rel_evalPartialDerivative .all (related_tracing (af.env bv))
    (watched_stop _) v n trivial) fun n => ?_
  rw [rel_evalPartialDerivative .all (related_outcomeOf (af.env bv)) outcomeOf_stop v n (e := e)
    trivial []]
  exact spares_deriv _ foreign_maxNesting v n e

end Evaluation

/-- If `p` happens exactly when `q` does, it means `d` exactly when `q` does not happen, or `d`
holds. -/
theorem means_iff {p q d : Prop} (h : p ↔ q) : (p → d) ↔ ¬ q ∨ d := by
  rw [imp_iff_not_or, h]

/-- That the exception means deep nesting, for each query about a set or an expression. -/
structure NestingErrors [Double R] (af : AdvFunc R) (bv : ValueMap R) (lp : LpSolver R) :
    Prop where
  evaluate (e : RealExpr R) :
    (AdvFunc.Raises (fun n => AdvFunc.evaluate n e bv) af →
        Deep af.realExprRefs af.setExprRefs (.real e)) ↔
      ¬ (af.env bv).Exceeds (.eval e) ∨ Deep af.realExprRefs af.setExprRefs (.real e)
  evalPartialDerivative (e : RealExpr R) (v : String) :
    (AdvFunc.Raises (fun n => AdvFunc.evalPartialDerivative n e v bv) af →
        Deep af.realExprRefs af.setExprRefs (.real e)) ↔
      ¬ (af.env bv).Exceeds (.evalPartialDerivative v e) ∨
        Deep af.realExprRefs af.setExprRefs (.real e)
  testMembership (s : SetExpr R) (pt : List R) :
    (AdvFunc.Raises (fun n => AdvFunc.testMembership n s pt bv) af →
        Deep af.realExprRefs af.setExprRefs (.set s)) ↔
      ¬ (af.env bv).Exceeds (.membership s pt) ∨ Deep af.realExprRefs af.setExprRefs (.set s)
  project (s : SetExpr R) (pt : List R) :
    (AdvFunc.Raises (fun n => AdvFunc.project n s pt bv) af →
        Deep af.realExprRefs af.setExprRefs (.set s)) ↔
      ¬ (af.env bv).Exceeds (.proj s pt) ∨ Deep af.realExprRefs af.setExprRefs (.set s)
  rectangularHull (s : SetExpr R) :
    (AdvFunc.Raises (fun n => AdvFunc.rectangularHull lp n s bv) af →
        Deep af.realExprRefs af.setExprRefs (.set s)) ↔
      ¬ (af.env bv).Exceeds (.rectHull lp s) ∨ Deep af.realExprRefs af.setExprRefs (.set s)

/-- **Does the exception mean deep nesting?**  For an advertisement exactly if none of its
parts has too many nodes, or one is nested too deeply; for a query exactly if none of the calls
that it comes to where the counter is full is that of a method that throws, or the nesting is too
deep. -/
theorem nesting_error_iff [Double R] :
    (∀ adv : Advertisement R, ((AdvFunc.new adv).1 = .throw maxNesting → adv.Deep) ↔
      adv.Collectable ∨ adv.Deep) ∧
    ∀ (af : AdvFunc R) (bv : ValueMap R) (lp : LpSolver R), af.advValid = true →
      (∀ halves c, Spares maxNesting (lp halves c)) → NestingErrors af bv lp := by
  refine ⟨fun adv => ?_, fun af bv lp hv hlp => ?_⟩
  · rw [means_iff (AdvFunc.new_throws_iff adv), not_not]
  · have hrel := related_tracing (af.env bv)
    have hout := related_outcomeOf (af.env bv)
    have hfor := foreign_maxNesting
    let All : SetExpr R → Prop := fun _ => True
    have hclosed : ∀ n ss, All (.intersection n ss) → ∀ s ∈ ss, All s :=
      fun _ _ _ _ _ => trivial
    have hall : ∀ s, All s := fun _ => trivial
    refine ⟨fun e => means_iff ?_, fun e v => means_iff ?_, fun s pt => means_iff ?_,
      fun s pt => means_iff ?_, fun s => means_iff ?_⟩
    · rw [AdvFunc.evaluate_raises_iff hv, Env.overflows_eval_iff]
    · rw [AdvFunc.evalPartialDerivative_raises_iff hv, Env.overflows_deriv_iff]
    · rw [← Env.overflows_membership_iff]
      refine raises_iff hv
        (fun n => (rel_calls .all hrel (watched_stop _) n).membership pt trivial) fun n => ?_
      rw [(rel_calls .all hout outcomeOf_stop n).membership (s := s) pt trivial []]
      exact (spares_callsAt _ hfor n).2 s pt
    · rw [← Env.overflows_proj_iff]
      refine raises_iff hv
        (fun n => rel_projPoint .all hrel (watched_stop _) n trivial pt) fun n => ?_
      rw [rel_projPoint .all hout outcomeOf_stop n (s := s) trivial pt []]
      exact spares_projPoint _ hclosed hfor
        (fun s _ _ => maxNesting_ne_which _ s) n (hall s) pt
    · rw [← Env.overflows_rectHull_iff]
      refine raises_iff hv
        (fun n => rel_rectHull .all hrel (watched_stop _) lp n trivial) fun n => ?_
      rw [rel_rectHull .all hout outcomeOf_stop lp n (s := s) trivial []]
      exact spares_rectHull _ hclosed hfor
        (fun s _ _ => maxNesting_ne_which _ s) hlp n (hall s)

/-- An agent that consumes power, its setpoints within a triangle, at the cost of `P²`. -/
def triangleAdv : Advertisement ℝ where
  pQProfile := some (.convexPolytope (some "capability")
    [[.real none (-1), .real none 0], [.real none 0, .real none (-1)],
      [.real none 1, .real none 1]]
    [.real none 0, .real none 0, .real none 1])
  beliefFunction := some (.singleton none [.var none "P", .var none "Q"])
  costFunction := some (.unaryOperation none .square (.var none "P"))
  implementedSetpoint := []

/-- `solve_lp2` with its own solver and one choice of random numbers. -/
noncomputable def seidelLp : LpSolver ℝ := solve_lp2 (fun _ => 0) (Lp.linprog (fun _ _ => 5) 6)

theorem spares_maxNesting_solve_lp2 {R : Type} [Double R] (rand : ℕ → ℕ) (linprog : Linprog R)
    (halves c : List R) : Spares maxNesting (solve_lp2 rand linprog halves c) := by
  rcases solve_lp2_cases rand linprog halves c with
    ⟨x, y, heq⟩ | ⟨msg, heq⟩ | ⟨-, heq⟩
  · rw [heq]
    exact .pure _
  · rw [heq]
    exact .raise (by simp [maxNesting])
  · rw [heq]
    exact .raise (by simp [maxNesting])

theorem spares_maxNesting_seidelLp (halves c : List ℝ) : Spares maxNesting (seidelLp halves c) :=
  spares_maxNesting_solve_lp2 _ _ halves c

theorem collectable_triangleAdv : triangleAdv.Collectable := by
  refine ⟨?_, ?_, ?_⟩
  · show 10 ≤ 10000
    norm_num
  · show 3 ≤ 10000
    norm_num
  · show 2 ≤ 10000
    norm_num

theorem new_triangleAdv : ∃ af, AdvFunc.new triangleAdv = (ok (), af) :=
  ⟨_, AdvFunc.setAdv_of_collectable collectable_triangleAdv AdvFunc.blank⟩

theorem nesting_error_iff_sample :
    ∃ af, AdvFunc.new triangleAdv = (ok (), af) ∧ NestingErrors af (bindPQ 0 0) seidelLp := by
  obtain ⟨af, hnew⟩ := new_triangleAdv
  exact ⟨af, hnew, nesting_error_iff.2 af (bindPQ 0 0) seidelLp (AdvFunc.of_new hnew).1
    spares_maxNesting_seidelLp⟩

/-! ### A wide message -/

/-- A sum of 10000 zeros. -/
def wideSum : RealExpr ℝ :=
  .listOperation none .sum (List.replicate MAX_NESTING_DEPTH (.real none 0))

theorem realNodes_replicate (n : ℕ) (x : ℝ) :
    (realNodes (List.replicate n (.real none x))).length = n := by
  induction n with
  | zero => rfl
  | succ n ih => simp [List.replicate_succ, realNodes, RealExpr.nodes, ih]

/-- Its nesting is two deep. -/
theorem not_deep_wideSum (reals : RealExprRefMap ℝ) (sets : SetExprRefMap ℝ) :
    ¬ Deep reals sets (.real wideSum) := by
  rintro ⟨rest, hchain, hlen⟩
  obtain - | ⟨a, rest⟩ := rest
  · simp [MAX_NESTING_DEPTH] at hlen
  · obtain ⟨ha, hchain⟩ := List.isChain_cons_cons.mp hchain
    obtain ⟨-, rfl⟩ : MAX_NESTING_DEPTH ≠ 0 ∧ a = .real (.real none 0) := by
      simpa [wideSum, Node.children] using ha
    obtain - | ⟨b, rest⟩ := rest
    · simp [MAX_NESTING_DEPTH] at hlen
    · simp [Node.children] at hchain

/-- The construction rejects a message that is two deep but wide. -/
theorem wide_message_rejected :
    (AdvFunc.new (costAdv wideSum)).1 = .throw maxNesting ∧ ¬ (costAdv wideSum).Deep := by
  constructor
  · rw [AdvFunc.new_throws_iff]
    rintro ⟨-, -, hcost⟩
    have hlen : (costAdv wideSum).costNodes.length = MAX_NESTING_DEPTH + 1 := by
      show (RealExpr.nodes wideSum).length = _
      rw [wideSum, RealExpr.nodes, List.length_cons, realNodes_replicate]
    omega
  · rintro ⟨node, hnode, hdeep⟩
    obtain rfl : node = .real wideSum := by simpa [Advertisement.parts, costAdv] using hnode
    exact not_deep_wideSum _ _ hdeep

end Commelec
