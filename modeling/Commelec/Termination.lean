/-
Commelec/Termination.lean

When does a query terminate?

Every visit of the recursion counts: `eval`, `evalPartialDerivative` and `rectHull` throw
when the counter exceeds `MAX_NESTING_DEPTH`, but `membership` and `proj` print a line and
set it back to zero.  So a recursion through sets alone is never stopped.

`Env.tracing` is an object without a counter that notes each visit.  A query on the real
object is its traced run, cut short by an exception at the first visit number
`k * (MAX_NESTING_DEPTH + 1)` that is one of a real expression (`watched`).  Hence it
terminates exactly when the traced run ends by itself or comes to such a visit
(`queries_terminate_iff`).
-/
import Commelec.Semantics

namespace Commelec

open Effectful Outcome

variable {R : Type}

/-- A visit of `eval`, or one of `membership` or `proj`. -/
inductive Visit where
  | real | set
  deriving DecidableEq, Repr

/-- Runs that note their visits. -/
abbrev Traced : Type → Type := Run (List Visit) Err

def Traced.note (v : Visit) : Traced Unit := fun τ => (ok (), τ ++ [v])

/-- An object that counts nothing and notes every visit. -/
def Env.tracing (env : Env R) : Self R Traced where
  boundVars := env.boundVars
  realExprRefs := env.realExprRefs
  visit := Traced.note .real
  visitSet := Traced.note .set
  findSet ref := pure (env.setExprRefs.get ref)

/-- Where the counter is full, a real expression is visited. -/
def Caught (τ : List Visit) : Prop :=
  ∃ k, τ[k * (MAX_NESTING_DEPTH + 1) + MAX_NESTING_DEPTH]? = some .real

theorem Caught.mono {τ τ' : List Visit} (h : Caught τ) (hpre : τ <+: τ') : Caught τ' := by
  obtain ⟨k, hk⟩ := h
  obtain ⟨rest, rfl⟩ := hpre
  refine ⟨k, ?_⟩
  rw [List.getElem?_append_left]
  · exact hk
  · exact (List.getElem?_eq_some_iff.mp hk).1

/-- Only the last visit can be caught. -/
theorem caught_concat {τ : List Visit} (h : ¬ Caught τ) (v : Visit) :
    Caught (τ ++ [v]) ↔ v = .real ∧ τ.length % (MAX_NESTING_DEPTH + 1) = MAX_NESTING_DEPTH := by
  constructor
  · rintro ⟨k, hk⟩
    have hlen : k * (MAX_NESTING_DEPTH + 1) + MAX_NESTING_DEPTH = τ.length := by
      obtain ⟨hlt, -⟩ := List.getElem?_eq_some_iff.mp hk
      rw [List.length_append, List.length_singleton] at hlt
      by_contra hne
      refine h ⟨k, ?_⟩
      rwa [List.getElem?_append_left (by omega)] at hk
    rw [hlen, List.getElem?_append_right le_rfl, Nat.sub_self] at hk
    refine ⟨by simpa using hk, ?_⟩
    rw [← hlen, Nat.add_comm, Nat.add_mul_mod_self_right]
    exact Nat.mod_eq_of_lt (Nat.lt_succ_self _)
  · rintro ⟨rfl, hmod⟩
    refine ⟨τ.length / (MAX_NESTING_DEPTH + 1), ?_⟩
    have hlen : τ.length / (MAX_NESTING_DEPTH + 1) * (MAX_NESTING_DEPTH + 1)
        + MAX_NESTING_DEPTH = τ.length := by
      conv_rhs => rw [← Nat.div_add_mod' τ.length (MAX_NESTING_DEPTH + 1), hmod]
    rw [hlen, List.getElem?_append_right le_rfl, Nat.sub_self]
    rfl

/-! ### The object against its trace -/

/-- The counter after the visits `τ`. -/
def Counts (refs : SetExprRefMap R) (τ : List Visit) (s : AdvState R) : Prop :=
  s.nestingDepth = τ.length % (MAX_NESTING_DEPTH + 1) ∧ SameSets s.setExprRefs refs

/-- The second run is the first one, unless it is caught. -/
def watched (refs : SetExprRefMap R) : EffectRel Err Traced (Method R) where
  rel x y := (∀ τ, τ <+: (x τ).2) ∧
    ∀ τ s, ¬ Caught τ → Counts refs τ s →
      (Caught (x τ).2 ∧ (y s).1 = .throw maxNesting) ∨
        ¬ Caught (x τ).2 ∧ (y s).1 = (x τ).1 ∧ Counts refs (x τ).2 (y s).2
  rel_pure _ := ⟨fun _ => List.prefix_rfl, fun _ _ hτ hs => Or.inr ⟨hτ, rfl, hs⟩⟩
  rel_raise _ := ⟨fun _ => List.prefix_rfl, fun _ _ hτ hs => Or.inr ⟨hτ, rfl, hs⟩⟩
  rel_bind := by
    rintro α β x y f g ⟨hpre, hx⟩ hf
    have hgrow : ∀ τ, (x τ).2 <+: ((x >>= f) τ).2 := by
      intro τ
      rcases hxτ : x τ with ⟨o, τ'⟩
      cases o with
      | ok a =>
        rw [Run.bind_ok hxτ]
        exact (hf a).1 τ'
      | throw e => rw [Run.bind_throw hxτ]
      | outOfFuel => rw [Run.bind_outOfFuel hxτ]
    refine ⟨fun τ => (hpre τ).trans (hgrow τ), fun τ s hτ hs => ?_⟩
    rcases hys : y s with ⟨o, s'⟩
    rcases hx τ s hτ hs with ⟨hcaught, hout⟩ | ⟨hfree, hout, hcount⟩
    · -- the exception ends the run, whatever the traced run goes on to do
      rw [hys] at hout
      obtain rfl : o = .throw maxNesting := hout
      exact Or.inl ⟨hcaught.mono (hgrow τ), by rw [Run.bind_throw hys]⟩
    · rcases hxτ : x τ with ⟨o', τ'⟩
      rw [hxτ] at hfree hout hcount
      rw [hys] at hout hcount
      obtain rfl : o = o' := hout
      cases o with
      | ok a =>
        rw [Run.bind_ok hxτ, Run.bind_ok hys]
        exact (hf a).2 τ' s' hfree hcount
      | throw e =>
        rw [Run.bind_throw hxτ, Run.bind_throw hys]
        exact Or.inr ⟨hfree, rfl, hcount⟩
      | outOfFuel =>
        rw [Run.bind_outOfFuel hxτ, Run.bind_outOfFuel hys]
        exact Or.inr ⟨hfree, rfl, hcount⟩

theorem watched_stop (refs : SetExprRefMap R) {α : Type} :
    (watched refs).rel (stop : Traced α) stop :=
  ⟨fun _ => List.prefix_rfl, fun _ _ hτ hs => Or.inr ⟨hτ, rfl, hs⟩⟩

/-- A visit on both objects. -/
theorem counts_note {refs : SetExprRefMap R} {τ : List Visit} {s : AdvState R} (v : Visit)
    (h : Counts refs τ s) (hmod : τ.length % (MAX_NESTING_DEPTH + 1) ≠ MAX_NESTING_DEPTH) :
    s.nestingDepth + 1 ≤ MAX_NESTING_DEPTH ∧
      Counts refs (τ ++ [v]) { s with nestingDepth := s.nestingDepth + 1 } := by
  obtain ⟨hdepth, hrefs⟩ := h
  have hlt : τ.length % (MAX_NESTING_DEPTH + 1) < MAX_NESTING_DEPTH + 1 :=
    Nat.mod_lt _ (Nat.succ_pos _)
  refine ⟨by omega, ?_, hrefs⟩
  show s.nestingDepth + 1 = _
  rw [hdepth, List.length_append, List.length_singleton]
  unfold MAX_NESTING_DEPTH at hmod ⊢
  omega

theorem counts_reset {refs : SetExprRefMap R} {τ : List Visit} {s : AdvState R} (v : Visit)
    (printed : ℕ) (h : Counts refs τ s)
    (hmod : τ.length % (MAX_NESTING_DEPTH + 1) = MAX_NESTING_DEPTH) :
    Counts refs (τ ++ [v]) { s with nestingDepth := 0, printed := printed } := by
  refine ⟨?_, h.2⟩
  show 0 = _
  rw [List.length_append, List.length_singleton]
  unfold MAX_NESTING_DEPTH at hmod ⊢
  omega

theorem related_tracing (env : Env R) :
    Related (watched env.setExprRefs) (fun _ => True) (fun _ => True) env.tracing
      (methods env.boundVars env.realExprRefs) where
  boundVars := rfl
  visit := by
    refine ⟨fun τ => List.prefix_append _ _, fun τ s hτ hs => ?_⟩
    show (Caught (τ ++ [.real]) ∧ (visit s).1 = .throw maxNesting) ∨
      ¬ Caught (τ ++ [.real]) ∧ (visit s).1 = ok () ∧ Counts _ (τ ++ [.real]) (visit s).2
    rw [caught_concat hτ]
    by_cases hmod : τ.length % (MAX_NESTING_DEPTH + 1) = MAX_NESTING_DEPTH
    · have hfull : s.nestingDepth + 1 > MAX_NESTING_DEPTH := by
        rw [hs.1, hmod]
        exact Nat.lt_succ_self _
      refine Or.inl ⟨⟨rfl, hmod⟩, ?_⟩
      simp only [visit, if_pos hfull]
    · obtain ⟨hle, hcount⟩ := counts_note .real hs hmod
      refine Or.inr ⟨fun h => hmod h.2, ?_⟩
      simp only [visit, if_neg (not_lt.mpr hle)]
      exact ⟨trivial, hcount⟩
  visitSet := by
    intro _ _
    refine ⟨fun τ => List.prefix_append _ _, fun τ s hτ hs => Or.inr ?_⟩
    show ¬ Caught (τ ++ [.set]) ∧ (visitSet s).1 = ok () ∧ Counts _ (τ ++ [.set]) (visitSet s).2
    refine ⟨fun h => by simpa using ((caught_concat hτ _).mp h).1, ?_⟩
    by_cases hmod : τ.length % (MAX_NESTING_DEPTH + 1) = MAX_NESTING_DEPTH
    · -- the counter is full, and starts again
      have hfull : s.nestingDepth + 1 > MAX_NESTING_DEPTH := by
        rw [hs.1, hmod]
        exact Nat.lt_succ_self _
      simp only [visitSet, if_pos hfull]
      exact ⟨trivial, counts_reset .set _ hs hmod⟩
    · obtain ⟨hle, hcount⟩ := counts_note .set hs hmod
      simp only [visitSet, if_neg (not_lt.mpr hle)]
      exact ⟨trivial, hcount⟩
  real _ := ⟨rfl, fun _ _ => trivial⟩
  set := by
    intro n ref _ α k k' hk
    have hfind : (watched env.setExprRefs).rel (env.tracing.findSet ref) (findSet ref) := by
      refine ⟨fun τ => List.prefix_rfl, fun τ s hτ hs => Or.inr ⟨hτ, ?_⟩⟩
      obtain ⟨hok, hsame⟩ := sameSets_findSet ref s
      refine ⟨by rw [hok, hs.2 ref]; rfl, ?_, fun ref' => (hsame ref').trans (hs.2 ref')⟩
      rw [nestingDepth_findSet]
      exact hs.1
    exact (watched env.setExprRefs).rel_bind hfind fun s => hk s trivial

/-! ### Queries -/

/-- With enough fuel, the query returns or throws. -/
def AdvFunc.Terminates {α : Type} (q : ℕ → Run (AdvFunc R) Err α) (af : AdvFunc R) : Prop :=
  ∃ o, o ≠ outOfFuel ∧ AdvFunc.Ends q af o

/-- The recursion ends by itself, or visits a real expression where the counter is full. -/
def Stops {α : Type} (x : ℕ → Traced α) : Prop :=
  ∃ n, (x n []).1 ≠ outOfFuel ∨ Caught (x n []).2

theorem not_caught_nil : ¬ Caught [] := by
  rintro ⟨k, hk⟩
  simp at hk

/-- At the start of a query, the counter is that of the empty trace. -/
theorem watched_start {af : AdvFunc R} {α : Type} {x : Traced α} {y : Method R α}
    (h : (watched af.setExprRefs).rel x y) :
    (Caught (x []).2 ∧ (y { af.toAdvState with nestingDepth := 0 }).1 = .throw maxNesting) ∨
      ¬ Caught (x []).2 ∧ (y { af.toAdvState with nestingDepth := 0 }).1 = (x []).1 := by
  have hcount : Counts af.setExprRefs [] { af.toAdvState with nestingDepth := 0 } :=
    ⟨rfl, fun _ => rfl⟩
  exact (h.2 [] _ not_caught_nil hcount).imp id fun ⟨hfree, hout, _⟩ => ⟨hfree, hout⟩

section Query

variable {af : AdvFunc R} {bv : ValueMap R} {α : Type} {x : ℕ → Traced α}
  {method : ℕ → Self R (Method R) → Method R α}

/-- **A query terminates exactly when its traced run stops.** -/
theorem terminates_iff_stops (hv : af.advValid = true)
    (hrel : ∀ n, (watched af.setExprRefs).rel (x n) (method n (methods bv af.realExprRefs)))
    (hmono : ∀ n, definedRun.rel (method n (methods bv af.realExprRefs))
      (method (n + 1) (methods bv af.realExprRefs))) :
    AdvFunc.Terminates (fun n => AdvFunc.query bv (method n)) af ↔ Stops x := by
  let start : AdvState R := { af.toAdvState with nestingDepth := 0 }
  let c : Chain Err α := fun n => (method n (methods bv af.realExprRefs) start).1
  have hq : ∀ n, (AdvFunc.query bv (method n) af).1 = c n := fun n => AdvFunc.query_fst hv _
  have hc : c.Mono := Chain.mono_of_succ fun n =>
    (hmono n start).imp id fun h => congrArg Prod.fst h
  constructor
  · rintro ⟨o, ho, n, hn⟩
    have hcn : (method n (methods bv af.realExprRefs) start).1 = o :=
      (hq n).symm.trans (hn n le_rfl)
    refine ⟨n, ?_⟩
    rcases watched_start (hrel n) with ⟨hcaught, -⟩ | ⟨-, hout⟩
    · exact Or.inr hcaught
    · refine Or.inl ?_
      rw [← hout, hcn]
      exact ho
  · rintro ⟨n, hn⟩
    have hcn : c n ≠ outOfFuel := by
      rcases watched_start (hrel n) with ⟨-, hout⟩ | ⟨hfree, hout⟩
      · show (method n (methods bv af.realExprRefs) start).1 ≠ _
        rw [hout]
        simp
      · show (method n (methods bv af.realExprRefs) start).1 ≠ _
        rw [hout]
        exact hn.resolve_right hfree
    exact ⟨c n, hcn, n, fun k hk => (hq k).trans ((hc n k hk).eq hcn).symm⟩

end Query

/-- An object is related to itself. -/
theorem related_self (boundVars : ValueMap R) (realExprRefs : RealExprRefMap R) :
    Related definedRun (fun _ => True) (fun _ => True) (methods boundVars realExprRefs)
      (methods boundVars realExprRefs) where
  boundVars := rfl
  visit _ := Or.inr rfl
  visitSet _ _ := Or.inr rfl
  real _ := ⟨rfl, fun _ _ => trivial⟩
  set _ _ _ _ hk := definedRun.rel_bind (fun _ => Or.inr rfl) fun s => hk s trivial

theorem definedRun_bot {α : Type} (y : Method R α) : definedRun.rel (stop : Method R α) y :=
  fun _ => Or.inl rfl

/-- **When do membership tests, projections and evaluations terminate?**  Exactly when
the recursion without a counter ends by itself, or one of its visits number 10001, 20002,
30003, ... is one of a real expression. -/
theorem queries_terminate_iff [Double R] {af : AdvFunc R} (hv : af.advValid = true)
    (bv : ValueMap R) :
    (∀ set point, AdvFunc.Terminates (fun n => AdvFunc.testMembership n set point bv) af ↔
      Stops fun n => (calls (af.env bv).tracing n).membership set point) ∧
    (∀ set point, AdvFunc.Terminates (fun n => AdvFunc.project n set point bv) af ↔
      Stops fun n => projPoint (af.env bv).tracing n set point) ∧
    ∀ expr, AdvFunc.Terminates (fun n => AdvFunc.evaluate n expr bv) af ↔
      Stops fun n => (calls (af.env bv).tracing n).eval expr := by
  have hrel := related_tracing (af.env bv)
  have hself := related_self bv af.realExprRefs
  refine ⟨fun set point => ?_, fun set point => ?_, fun expr => ?_⟩
  · exact terminates_iff_stops hv
      (fun n => (rel_calls .all hrel (watched_stop _) n).membership point trivial)
      (fun n => (rel_calls_succ .all hself definedRun_bot n).membership point trivial)
  · exact terminates_iff_stops hv
      (fun n => rel_projPoint .all hrel (watched_stop _) n trivial point)
      (fun n => rel_projPoint_succ .all hself definedRun_bot n trivial point)
  · exact terminates_iff_stops hv
      (fun n => (rel_calls .all hrel (watched_stop _) n).eval trivial)
      (fun n => (rel_calls_succ .all hself definedRun_bot n).eval trivial)

/-- An object with the point `(P, Q)` under the name `a`. -/
def pointNamedA : AdvFunc ℝ :=
  (AdvFunc.new ⟨some (.singleton (some "a") [.var none "P", .var none "Q"]), none, none, []⟩).2

/-- A test by that name, with two visits of sets and two of expressions. -/
theorem queries_terminate_iff_sample :
    AdvFunc.Terminates (fun n =>
      AdvFunc.testMembership n (.reference none "a") [1, 2] (bindPQ 1 2)) pointNamedA := by
  refine ((queries_terminate_iff rfl (bindPQ 1 2)).1 _ _).mpr ⟨3, Or.inl ?_⟩
  show ok (isApprox [1, 2] [1, 2]) ≠ outOfFuel
  simp

/-! ### A set that refers to itself -/

/-- The set named `a`, which is the set named `a`. -/
def selfReference : SetExpr ℝ := .reference (some "a") "a"

/-- An advertisement with that set as PQ profile. -/
def circular : AdvFunc ℝ := (AdvFunc.new ⟨some selfReference, none, none, []⟩).2

theorem membership_selfReference (bv : ValueMap ℝ) (point : List ℝ) (fuel : ℕ)
    (s : AdvState ℝ) (hs : s.setExprRefs "a" = some selfReference) :
    ((calls (methods bv circular.realExprRefs) fuel).membership selfReference point s).1
      = outOfFuel := by
  induction fuel generalizing s with
  | zero => rfl
  | succ fuel ih =>
    obtain ⟨s', hvisit, hs'⟩ : ∃ s', visitSet s = (ok (), s') ∧
        s'.setExprRefs "a" = some selfReference := by
      rw [visitSet]
      split
      · exact ⟨_, rfl, hs⟩
      · exact ⟨_, rfl, hs⟩
    have hfind : findSet "a" s' = (ok selfReference, s') := by rw [findSet, hs']
    show ((visitSet >>= fun _ => findSet "a" >>= fun set =>
      (calls (methods bv circular.realExprRefs) fuel).membership set point) s).1 = _
    rw [Run.bind_ok hvisit, Run.bind_ok hfind]
    exact ih s' hs'

/-- Testing membership in it never ends. -/
theorem membership_diverges :
    (AdvFunc.new ⟨some selfReference, none, none, []⟩).1 = ok () ∧
    ∀ fuel, (AdvFunc.testMembership fuel selfReference [0, 0] (bindPQ 0 0) circular).1
      = outOfFuel :=
  ⟨rfl, fun fuel => membership_selfReference _ _ fuel _ rfl⟩

end Commelec
