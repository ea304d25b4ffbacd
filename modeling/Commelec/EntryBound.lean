/-
Commelec/EntryBound.lean

How much work is an evaluation without case distinctions?

References may be cyclic, so the recursion need not come to an end by itself: what decreases
is not the term, but what is left of the counter `_nesting_depth`.  Every entry of `eval` and
`evalPartialDerivative` adds one to it, and nothing resets it, since only sets do and sets
are reached through case distinctions alone.

* `entering`: the number of entries is the growth of the counter, which never exceeds
  `MAX_NESTING_DEPTH + 1`;
* `within k`: where the counter is `MAX_NESTING_DEPTH + 1 - k` or more, a recursion of depth
  `k` is not cut off.

Together they bound every evaluation by `MAX_NESTING_DEPTH + 1` entries
(`entries_bounded`).
-/
import Commelec.NestingError

namespace Commelec

open Effectful Outcome

variable {R : Type}

/-! ### Expressions without case distinctions -/

/-- The nodes that an interpretation can get to. -/
def Node.Reaches (reals : RealExprRefMap R) (sets : SetExprRefMap R) :
    Node R → Node R → Prop :=
  Relation.ReflTransGen fun a b => b ∈ a.children reals sets

/-- No case distinction can be reached. -/
def CaseFree (reals : RealExprRefMap R) (sets : SetExprRefMap R) (e : RealExpr R) : Prop :=
  ∀ n vars cases, ¬ Node.Reaches reals sets (.real e) (.real (.caseDistinction n vars cases))

namespace CaseFree

variable {reals : RealExprRefMap R} {sets : SetExprRefMap R}

theorem child {e e' : RealExpr R} (h : CaseFree reals sets e)
    (hchild : .real e' ∈ (Node.real e).children reals sets) : CaseFree reals sets e' :=
  fun n vars cases hreach => h n vars cases (.head hchild hreach)

theorem closed (reals : RealExprRefMap R) (sets : SetExprRefMap R) :
    Closed (CaseFree reals sets) (fun _ : SetExpr R => False) where
  unary h := h.child (List.mem_singleton_self _)
  binary h := ⟨h.child List.mem_cons_self, h.child (List.mem_cons_of_mem _ List.mem_cons_self)⟩
  list h _ ha := h.child (List.mem_map_of_mem ha)
  realCases h := absurd .refl (h _ _ _)
  singleton h := h.elim
  ball h := h.elim
  rectangle h := h.elim
  convexPolytope h := h.elim
  intersection h := h.elim

/-- What a reference stands for has no case distinctions either. -/
theorem of_reference {n : Option String} {ref : String}
    (h : CaseFree reals sets (.reference n ref)) {e : RealExpr R} (href : reals ref = some e) :
    CaseFree reals sets e := by
  apply h.child
  show Node.real e ∈ (reals ref).toList.map .real
  rw [href]
  exact List.mem_singleton_self _

end CaseFree

/-! ### Counting entries -/

/-- Methods beside a count of the entries. -/
abbrev Counted (R : Type) : Type → Type := Run (AdvState R × ℕ) Err

/-- A method that is not counted. -/
def Counted.free {α : Type} (x : Method R α) : Counted R α := fun s =>
  ((x s.1).1, (x s.1).2, s.2)

/-- The object, counting the entries of `eval` and `evalPartialDerivative`. -/
def counting (boundVars : ValueMap R) (realExprRefs : RealExprRefMap R) :
    Self R (Counted R) where
  boundVars := boundVars
  realExprRefs := realExprRefs
  visit := fun s => ((visit s.1).1, (visit s.1).2, s.2 + 1)
  visitSet := .free visitSet
  findSet ref := .free (findSet ref)

/-- The counted run is the run, and its entries are what has been added to the counter. -/
def entering : EffectRel Err (Counted R) (Method R) where
  rel x y := ∀ s n, s.nestingDepth ≤ MAX_NESTING_DEPTH →
    (x (s, n)).1 = (y s).1 ∧ (x (s, n)).2.1 = (y s).2 ∧
      (x (s, n)).2.2 + s.nestingDepth = n + (y s).2.nestingDepth ∧
      (y s).2.nestingDepth ≤ MAX_NESTING_DEPTH + 1 ∧
      ∀ a, (y s).1 = ok a → (y s).2.nestingDepth ≤ MAX_NESTING_DEPTH
  rel_pure a s n hs := ⟨rfl, rfl, rfl, hs.trans (Nat.le_succ _), fun _ _ => hs⟩
  rel_raise e s n hs := ⟨rfl, rfl, rfl, hs.trans (Nat.le_succ _), fun _ _ => hs⟩
  rel_bind := by
    intro α β x y f g hx hf s n hs
    obtain ⟨hout, hstate, hcount, hle, hok⟩ := hx s n hs
    rcases hys : y s with ⟨o, s'⟩
    rcases hxs : x (s, n) with ⟨o', s'', n'⟩
    rw [hys] at hout hstate hcount hle hok
    rw [hxs] at hout hstate hcount
    obtain rfl : o' = o := hout
    obtain rfl : s'' = s' := hstate
    cases o' with
    | ok a =>
      rw [Run.bind_ok hxs, Run.bind_ok hys]
      obtain ⟨hout, hstate, hcount', hle, hok⟩ := hf a s'' n' (hok a rfl)
      refine ⟨hout, hstate, ?_, hle, hok⟩
      have : n' + s.nestingDepth = n + s''.nestingDepth := hcount
      omega
    | throw e =>
      rw [Run.bind_throw hxs, Run.bind_throw hys]
      exact ⟨rfl, rfl, hcount, hle, fun _ h => absurd h (by simp)⟩
    | outOfFuel =>
      rw [Run.bind_outOfFuel hxs, Run.bind_outOfFuel hys]
      exact ⟨rfl, rfl, hcount, hle, fun _ h => absurd h (by simp)⟩

theorem entering_stop {α : Type} : (entering (R := R)).rel (stop : Counted R α) stop :=
  fun _ _ hs => ⟨rfl, rfl, rfl, hs.trans (Nat.le_succ _), fun _ _ => hs⟩

theorem entering_visit (boundVars : ValueMap R) (realExprRefs : RealExprRefMap R) :
    entering.rel (counting boundVars realExprRefs).visit visit := by
  intro s n hs
  refine ⟨rfl, rfl, ?_, ?_⟩
  · show n + 1 + s.nestingDepth = n + (visit s).2.nestingDepth
    rw [visit]
    split
    · show _ = n + (s.nestingDepth + 1)
      omega
    · show _ = n + (s.nestingDepth + 1)
      omega
  · rw [visit]
    split
    · exact ⟨Nat.succ_le_succ hs, fun _ h => absurd h (by simp)⟩
    · next hle => exact ⟨Nat.succ_le_succ hs, fun _ _ => not_lt.mp hle⟩

theorem related_counting (boundVars : ValueMap R) (realExprRefs : RealExprRefMap R)
    (sets : SetExprRefMap R) :
    Related entering (CaseFree realExprRefs sets) (fun _ => False)
      (counting boundVars realExprRefs) (methods boundVars realExprRefs) where
  boundVars := rfl
  visit := entering_visit boundVars realExprRefs
  visitSet h := h.elim
  real h := ⟨rfl, fun _ => h.of_reference⟩
  set h := h.elim

/-! ### What is left of the counter -/

/-- The counter only grows, and a run that starts with at most `k` visits left is not cut
off. -/
def within (k : ℕ) : EffectRel Err (Method R) (Method R) where
  rel x _ := ∀ s, s.nestingDepth ≤ MAX_NESTING_DEPTH →
    s.nestingDepth ≤ (x s).2.nestingDepth ∧
      (∀ a, (x s).1 = ok a → (x s).2.nestingDepth ≤ MAX_NESTING_DEPTH) ∧
      (MAX_NESTING_DEPTH + 1 ≤ s.nestingDepth + k → (x s).1 ≠ outOfFuel)
  rel_pure _ _ hs := ⟨le_rfl, fun _ _ => hs, fun _ h => absurd h (by simp)⟩
  rel_raise _ _ hs := ⟨le_rfl, fun _ _ => hs, fun _ h => absurd h (by simp)⟩
  rel_bind := by
    intro α β x y f g hx hf s hs
    obtain ⟨hgrow, hok, hends⟩ := hx s hs
    rcases hxs : x s with ⟨o, s'⟩
    rw [hxs] at hgrow hok hends
    cases o with
    | ok a =>
      rw [Run.bind_ok hxs]
      obtain ⟨hgrow', hok', hends'⟩ := hf a s' (hok a rfl)
      refine ⟨hgrow.trans hgrow', hok', fun hk => hends' ?_⟩
      exact hk.trans (Nat.add_le_add_right hgrow k)
    | throw e =>
      rw [Run.bind_throw hxs]
      exact ⟨hgrow, fun _ h => absurd h (by simp), fun _ h => absurd h (by simp)⟩
    | outOfFuel =>
      rw [Run.bind_outOfFuel hxs]
      exact ⟨hgrow, fun _ h => absurd h (by simp), fun hk => absurd rfl (hends hk)⟩

/-- A visit uses up one. -/
theorem within_visit_bind {k : ℕ} {α : Type} {x y : Method R α}
    (hx : (within k).rel x x) : (within (k + 1)).rel (visit >>= fun _ => x) y := by
  intro s hs
  by_cases hmax : s.nestingDepth + 1 > MAX_NESTING_DEPTH
  · have hvisit : visit s
        = (.throw maxNesting, { s with nestingDepth := s.nestingDepth + 1 }) := by
      rw [visit, if_pos hmax]
    rw [Run.bind_throw hvisit]
    exact ⟨Nat.le_succ _, fun _ h => absurd h (by simp), fun _ h => absurd h (by simp)⟩
  · have hvisit : visit s = (ok (), { s with nestingDepth := s.nestingDepth + 1 }) := by
      rw [visit, if_neg hmax]
    rw [Run.bind_ok hvisit]
    obtain ⟨hgrow, hok, hends⟩ := hx { s with nestingDepth := s.nestingDepth + 1 }
      (not_lt.mp hmax)
    refine ⟨(Nat.le_succ _).trans hgrow, hok, fun hk => hends ?_⟩
    show MAX_NESTING_DEPTH + 1 ≤ s.nestingDepth + 1 + k
    omega

section Ends

variable [Double R] (boundVars : ValueMap R) (realExprRefs : RealExprRefMap R)
  (sets : SetExprRefMap R)

/-- The object without the first lines of its methods. -/
def unvisited : Self R (Method R) :=
  { methods boundVars realExprRefs with visit := pure () }

omit [Double R] in
theorem related_unvisited (k : ℕ) :
    Related (within k) (CaseFree realExprRefs sets) (fun _ => False)
      (unvisited boundVars realExprRefs) (unvisited boundVars realExprRefs) where
  boundVars := rfl
  visit := (within k).rel_pure ()
  visitSet h := h.elim
  real h := ⟨rfl, fun _ => h.of_reference⟩
  set h := h.elim

/-- **A recursion of depth `k` is not cut off** where at most `k` visits are left. -/
theorem within_calls (k : ℕ) :
    RelCalls (within k) (CaseFree realExprRefs sets) (fun _ => False)
      (calls (methods boundVars realExprRefs) k) (calls (methods boundVars realExprRefs) k) := by
  induction k with
  | zero =>
    refine ⟨fun _ s hs => ⟨le_rfl, fun _ h => absurd h (by simp [calls]), fun h => ?_⟩,
      fun _ h => h.elim⟩
    omega
  | succ k ih =>
    refine ⟨fun {e} he => ?_, fun _ h => h.elim⟩
    have hbody := rel_evalRealExpr (CaseFree.closed realExprRefs sets)
      (related_unvisited boundVars realExprRefs sets k) ih he
    exact within_visit_bind hbody

theorem within_deriv (x : String) (k : ℕ) {e : RealExpr R}
    (he : CaseFree realExprRefs sets e) :
    (within k).rel (evalPartialDerivative (methods boundVars realExprRefs) x k e)
      (evalPartialDerivative (methods boundVars realExprRefs) x k e) := by
  induction k generalizing e with
  | zero =>
    refine fun s hs => ⟨le_rfl, fun _ h => absurd h (by simp [evalPartialDerivative]), fun h => ?_⟩
    omega
  | succ k ih =>
    have hbody := rel_derivRealExpr (CaseFree.closed realExprRefs sets)
      (related_unvisited boundVars realExprRefs sets k)
      (within_calls boundVars realExprRefs sets k) (fun _ he => ih he) x he
    exact within_visit_bind hbody

end Ends

/-! ### Queries -/

namespace AdvFunc

variable [Double R]

/-- A query and the number of its entries. -/
def counted {α : Type} (boundVars : ValueMap R)
    (method : Self R (Counted R) → Counted R α) (af : AdvFunc R) : Outcome Err α × ℕ :=
  let r := method (counting boundVars af.realExprRefs)
    ({ af.toAdvState with nestingDepth := 0 }, 0)
  (r.1, r.2.2)

/-- A query enters its functions at most `N` times and then has returned or thrown. -/
structure EntersAtMost (N : ℕ) {α : Type} (count : ℕ → Outcome Err α × ℕ)
    (q : ℕ → Run (AdvFunc R) Err α) (af : AdvFunc R) : Prop where
  /-- the query that is counted -/
  outcome (fuel : ℕ) : (count fuel).1 = (q fuel af).1
  entries (fuel : ℕ) : (count fuel).2 ≤ N
  ends (fuel : ℕ) : N ≤ fuel → (q fuel af).1 ≠ outOfFuel

omit [Double R] in
/-- What a query on case-free expressions has to meet. -/
theorem entersAtMost {af : AdvFunc R} (hv : af.advValid = true) {bv : ValueMap R} {α : Type}
    {x : ℕ → Self R (Counted R) → Counted R α} {y : ℕ → Self R (Method R) → Method R α}
    (hcount : ∀ n, entering.rel (x n (counting bv af.realExprRefs))
      (y n (methods bv af.realExprRefs)))
    (hends : ∀ n, (within n).rel (y n (methods bv af.realExprRefs))
      (y n (methods bv af.realExprRefs))) :
    EntersAtMost (MAX_NESTING_DEPTH + 1) (fun n => counted bv (x n) af)
      (fun n => query bv (y n)) af where
  outcome n := by
    rw [query_fst hv]
    exact (hcount n _ 0 (Nat.zero_le _)).1
  entries n := by
    obtain ⟨-, -, hadd, hle, -⟩ :=
      hcount n { af.toAdvState with nestingDepth := 0 } 0 (Nat.zero_le _)
    show (x n (counting bv af.realExprRefs) ({ af.toAdvState with nestingDepth := 0 }, 0)).2.2 ≤ _
    exact (hadd.trans (Nat.zero_add _)).trans_le hle
  ends n hn := by
    rw [query_fst hv]
    exact (hends n _ (Nat.zero_le _)).2.2 (hn.trans (Nat.le_add_left _ _))

/-- **Evaluation without case distinctions is bounded**, whatever the references. -/
theorem entries_bounded {af : AdvFunc R} (hv : af.advValid = true) (bv : ValueMap R)
    {e : RealExpr R} (hfree : CaseFree af.realExprRefs af.setExprRefs e) :
    EntersAtMost (MAX_NESTING_DEPTH + 1)
      (fun n => counted bv (fun self => (calls self n).eval e) af)
      (fun n => evaluate n e bv) af ∧
    ∀ x, EntersAtMost (MAX_NESTING_DEPTH + 1)
      (fun n => counted bv (fun self => Commelec.evalPartialDerivative self x n e) af)
      (fun n => evalPartialDerivative n e x bv) af := by
  have hclosed := CaseFree.closed af.realExprRefs af.setExprRefs
  have hrel := related_counting bv af.realExprRefs af.setExprRefs
  refine ⟨entersAtMost hv (fun n => ?_) fun n => ?_,
    fun x => entersAtMost hv (fun n => ?_) fun n => ?_⟩
  · exact (rel_calls hclosed hrel entering_stop n).eval hfree
  · exact (within_calls bv af.realExprRefs af.setExprRefs n).eval hfree
  · exact rel_evalPartialDerivative hclosed hrel entering_stop x n hfree
  · exact within_deriv bv af.realExprRefs af.setExprRefs x n hfree

/-- The expression named `a`, which is the expression named `a`, squared. -/
def squareOfItself : RealExpr ℝ := .unaryOperation (some "a") .square (.reference none "a")

/-- An object that knows it. -/
def squaring : AdvFunc ℝ :=
  { blank with
    advValid := true
    realExprRefs := fun n => if n = "a" then some squareOfItself else none }

theorem caseFree_squareOfItself :
    CaseFree squaring.realExprRefs squaring.setExprRefs squareOfItself := by
  intro n vars cases hreach
  have hinv : ∀ {node : Node ℝ},
      Node.Reaches squaring.realExprRefs squaring.setExprRefs (.real squareOfItself) node →
      node = .real squareOfItself ∨ node = .real (.reference none "a") := by
    intro node h
    induction h with
    | refl => exact Or.inl rfl
    | tail _ hchild ih =>
      rcases ih with rfl | rfl
      · exact Or.inr (List.mem_singleton.mp hchild)
      · exact Or.inl (List.mem_singleton.mp hchild)
  rcases hinv hreach with h | h
  · simp [squareOfItself] at h
  · simp at h

/-- A cyclic reference ends after `MAX_NESTING_DEPTH + 1` entries. -/
theorem entries_bounded_sample :
    (evaluate (MAX_NESTING_DEPTH + 1) squareOfItself (bindPQ 0 0) squaring).1 ≠ outOfFuel :=
  (entries_bounded rfl (bindPQ 0 0) caseFree_squareOfItself).1.ends _ le_rfl

end AdvFunc

end Commelec
