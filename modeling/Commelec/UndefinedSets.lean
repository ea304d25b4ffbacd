/-
Commelec/UndefinedSets.lean

Is a reference to an undefined set reported?

`membership` finds a referenced set with `_set_expr_refs[ref]`.  Under a name that no set
carries, `operator[]` inserts a default-constructed set, the singleton without coordinates,
and the test goes on with it.

`listing` is the object with a list of the names it looks up.  A run on it is the real run,
and afterwards the map has the names it had before and those on the list (`listed`).  So a
query that comes to an undefined name changes the map, whatever else it does
(`undefined_set_reported_iff`).
-/
import Commelec.SetReferences

namespace Commelec

open Effectful Outcome

variable {R : Type}

/-! ### A list of the names that are looked up -/

/-- Methods beside a list of names. -/
abbrev Listed (R : Type) : Type → Type := Run (AdvState R × List String) Err

/-- A method that looks up no set. -/
def Listed.silent {α : Type} (x : Method R α) : Listed R α := fun s =>
  ((x s.1).1, (x s.1).2, s.2)

/-- The object, listing the names of sets it looks up. -/
def listing (boundVars : ValueMap R) (realExprRefs : RealExprRefMap R) :
    Self R (Listed R) where
  boundVars := boundVars
  realExprRefs := realExprRefs
  visit := .silent visit
  visitSet := .silent visitSet
  findSet ref := fun s => ((findSet ref s.1).1, (findSet ref s.1).2, s.2 ++ [ref])

/-- The names in the map. -/
def Named (s : AdvState R) (ref : String) : Prop := (s.setExprRefs ref).isSome

/-- The run on the listing object is the real one, and adds to the map the names it lists. -/
def listed : EffectRel Err (Listed R) (Method R) where
  rel x y := ∀ s τ, (x (s, τ)).1 = (y s).1 ∧ (x (s, τ)).2.1 = (y s).2 ∧
    ∃ new, (x (s, τ)).2.2 = τ ++ new ∧
      ∀ ref, Named (y s).2 ref ↔ Named s ref ∨ ref ∈ new
  rel_pure a s τ := ⟨rfl, rfl, [], (List.append_nil τ).symm, fun ref => by simp⟩
  rel_raise e s τ := ⟨rfl, rfl, [], (List.append_nil τ).symm, fun ref => by simp⟩
  rel_bind := by
    intro α β x y f g hx hf s τ
    obtain ⟨hout, hstate, new, hlist, hnamed⟩ := hx s τ
    rcases hys : y s with ⟨o, s'⟩
    rcases hxs : x (s, τ) with ⟨o', s'', τ'⟩
    rw [hxs] at hout hstate hlist
    rw [hys] at hout hstate hnamed
    obtain rfl : o' = o := hout
    obtain rfl : s'' = s' := hstate
    obtain rfl : τ' = τ ++ new := hlist
    cases o' with
    | ok a =>
      rw [Run.bind_ok hxs, Run.bind_ok hys]
      obtain ⟨hout, hstate, new', hlist', hnamed'⟩ := hf a s'' (τ ++ new)
      refine ⟨hout, hstate, new ++ new', ?_, fun ref => ?_⟩
      · rw [hlist', List.append_assoc]
      · rw [hnamed', hnamed, List.mem_append, or_assoc]
    | throw e =>
      rw [Run.bind_throw hxs, Run.bind_throw hys]
      exact ⟨rfl, rfl, new, rfl, hnamed⟩
    | outOfFuel =>
      rw [Run.bind_outOfFuel hxs, Run.bind_outOfFuel hys]
      exact ⟨rfl, rfl, new, rfl, hnamed⟩

theorem listed_stop {α : Type} : (listed (R := R)).rel (stop : Listed R α) stop :=
  fun _ τ => ⟨rfl, rfl, [], (List.append_nil τ).symm, fun ref => by simp⟩

/-- What looks up nothing and leaves the map alone. -/
theorem listed_silent {α : Type} {x : Method R α}
    (h : ∀ s, (x s).2.setExprRefs = s.setExprRefs) : listed.rel (.silent x) x := by
  intro s τ
  refine ⟨rfl, rfl, [], (List.append_nil τ).symm, fun ref => ?_⟩
  rw [Named, h, Named]
  simp

theorem listed_findSet (boundVars : ValueMap R) (realExprRefs : RealExprRefMap R)
    (ref : String) :
    listed.rel ((listing boundVars realExprRefs).findSet ref) (findSet ref) := by
  intro s τ
  refine ⟨rfl, rfl, [ref], rfl, fun ref' => ?_⟩
  rw [Named, findSet, List.mem_singleton]
  split
  · next set h =>
    constructor
    · exact Or.inl
    · rintro (h' | rfl)
      · exact h'
      · show (s.setExprRefs ref').isSome
        rw [h]
        rfl
  · -- the default set is inserted
    show (Function.update s.setExprRefs ref (some .default) ref').isSome ↔ _
    by_cases hr : ref' = ref
    · rw [hr, Function.update_self]
      exact iff_of_true rfl (Or.inr rfl)
    · rw [Function.update_of_ne hr, or_iff_left hr, Named]

theorem related_listing (boundVars : ValueMap R) (realExprRefs : RealExprRefMap R) :
    Related listed (fun _ => True) (fun _ => True) (listing boundVars realExprRefs)
      (methods boundVars realExprRefs) where
  boundVars := rfl
  visit := by
    refine listed_silent fun s => ?_
    show (visit s).2.setExprRefs = _
    rw [visit]
    split <;> rfl
  visitSet _ := by
    refine listed_silent fun s => ?_
    show (visitSet s).2.setExprRefs = _
    rw [visitSet]
    split <;> rfl
  real _ := ⟨rfl, fun _ _ => trivial⟩
  set _ _ _ _ hk := listed.rel_bind (listed_findSet _ _ _) fun s => hk s trivial

/-! ### More fuel -/

/-- Names stay in the map, and where the first run is cut off, the second has the names of
the first. -/
def keeping : EffectRel Err (Method R) (Method R) where
  rel x y := ∀ s, (∀ ref, Named s ref → Named (y s).2 ref) ∧
    (x s = y s ∨ (x s).1 = outOfFuel ∧ ∀ ref, Named (x s).2 ref → Named (y s).2 ref)
  rel_pure _ _ := ⟨fun _ h => h, Or.inl rfl⟩
  rel_raise _ _ := ⟨fun _ h => h, Or.inl rfl⟩
  rel_bind := by
    intro α β x y f g hx hf s
    obtain ⟨hstay, hcut⟩ := hx s
    have hgrow : ∀ ref, Named (y s).2 ref → Named ((y >>= g) s).2 ref := by
      intro ref h
      rcases hys : y s with ⟨a | e | -, s'⟩
      · rw [Run.bind_ok hys]
        rw [hys] at h
        exact (hf a s').1 ref h
      · rw [Run.bind_throw hys]
        rwa [hys] at h
      · rw [Run.bind_outOfFuel hys]
        rwa [hys] at h
    refine ⟨fun ref h => hgrow ref (hstay ref h), ?_⟩
    rcases hcut with heq | ⟨hout, hcut⟩
    · rcases hys : y s with ⟨a | e | -, s'⟩
      · rw [Run.bind_ok (heq.trans hys), Run.bind_ok hys]
        exact (hf a s').2
      · rw [Run.bind_throw (heq.trans hys), Run.bind_throw hys]
        exact Or.inl rfl
      · rw [Run.bind_outOfFuel (heq.trans hys), Run.bind_outOfFuel hys]
        exact Or.inl rfl
    · have hxs : x s = (outOfFuel, (x s).2) := Prod.ext hout rfl
      rw [Run.bind_outOfFuel hxs]
      exact Or.inr ⟨rfl, fun ref h => hgrow ref (hcut ref h)⟩

/-- A run that was cut off at once. -/
theorem keeping_stop {α : Type} {y : Method R α} {x : Listed R α} (h : listed.rel x y) :
    keeping.rel stop y := by
  intro s
  obtain ⟨-, -, new, -, hnamed⟩ := h s []
  have hstay : ∀ ref, Named s ref → Named (y s).2 ref := fun ref h => (hnamed ref).mpr (Or.inl h)
  exact ⟨hstay, Or.inr ⟨rfl, hstay⟩⟩

theorem related_keeping (boundVars : ValueMap R) (realExprRefs : RealExprRefMap R) :
    Related keeping (fun _ => True) (fun _ => True) (methods boundVars realExprRefs)
      (methods boundVars realExprRefs) := by
  have hlisting := related_listing boundVars realExprRefs
  have hself : ∀ {α : Type} {x : Listed R α} {y : Method R α}, listed.rel x y →
      keeping.rel y y := fun h s => ⟨(keeping_stop h s).1, Or.inl rfl⟩
  exact {
    boundVars := rfl
    visit := hself hlisting.visit
    visitSet := fun h => hself (hlisting.visitSet (s := .default) h)
    real := fun _ => ⟨rfl, fun _ _ => trivial⟩
    set := fun _ _ _ _ hk => keeping.rel_bind
      (hself (listed_findSet boundVars realExprRefs _)) fun s => hk s trivial }

variable [Double R]

/-- With more fuel, a test keeps the names it has found. -/
theorem keeping_calls (boundVars : ValueMap R) (realExprRefs : RealExprRefMap R) (n : ℕ) :
    RelCalls keeping (fun _ => True) (fun _ => True) (calls (methods boundVars realExprRefs) n)
      (calls (methods boundVars realExprRefs) (n + 1)) := by
  have hlisting := related_listing boundVars realExprRefs
  have hself := related_keeping boundVars realExprRefs
  induction n with
  | zero =>
    have hcalls := rel_calls .all hlisting listed_stop 1
    exact ⟨fun h => keeping_stop (hcalls.eval h),
      fun pt h => keeping_stop (hcalls.membership pt h)⟩
  | succ n ih =>
    exact ⟨fun h => rel_evalRealExpr .all hself ih h,
      fun pt h => rel_membershipSetExpr .all hself ih h pt⟩

/-! ### Queries -/

variable (af : AdvFunc R) (set : SetExpr R) (point : List R) (bv : ValueMap R)

/-- The test of membership looks up a set with the name `ref`. -/
def AdvFunc.LooksUp (ref : String) : Prop :=
  ∃ n, ref ∈ ((calls (listing bv af.realExprRefs) n).membership set point
    ({ af.toAdvState with nestingDepth := 0 }, [])).2.2

/-- It raises `UnknownReference`, and leaves the map of named sets as it is. -/
def AdvFunc.ReportsReference : Prop :=
  ∃ n₀, ∀ n, n₀ ≤ n →
    (∃ ref msg, (AdvFunc.testMembership n set point bv af).1
      = .throw (.unknownReference ref msg)) ∧
    (AdvFunc.testMembership n set point bv af).2.setExprRefs = af.setExprRefs

variable {af}

/-- The names in the map after a test. -/
theorem named_testMembership (hv : af.advValid = true) (n : ℕ) (ref : String) :
    ((AdvFunc.testMembership n set point bv af).2.setExprRefs ref).isSome ↔
      (af.setExprRefs ref).isSome ∨
        ref ∈ ((calls (listing bv af.realExprRefs) n).membership set point
          ({ af.toAdvState with nestingDepth := 0 }, [])).2.2 := by
  have hlisting := related_listing bv af.realExprRefs
  obtain ⟨-, -, new, hnew, hnamed⟩ :=
    (rel_calls .all hlisting listed_stop n).membership (s := set) point trivial
      { af.toAdvState with nestingDepth := 0 } []
  rw [hnew, List.nil_append, AdvFunc.testMembership, AdvFunc.query, if_pos hv]
  exact hnamed ref

/-- A name that was looked up stays in the map, whatever the fuel. -/
theorem named_of_looksUp (hv : af.advValid = true) {ref : String}
    (h : AdvFunc.LooksUp af set point bv ref) :
    ∃ n₀, ∀ n, n₀ ≤ n →
      ((AdvFunc.testMembership n set point bv af).2.setExprRefs ref).isSome := by
  obtain ⟨n₀, hn₀⟩ := h
  refine ⟨n₀, fun n hn => ?_⟩
  induction hn with
  | refl => exact (named_testMembership set point bv hv n₀ ref).mpr (Or.inr hn₀)
  | @step n _ ih =>
    have hkeep := (keeping_calls bv af.realExprRefs n).membership (s := set) point trivial
      { af.toAdvState with nestingDepth := 0 }
    rw [AdvFunc.testMembership, AdvFunc.query, if_pos hv] at ih ⊢
    rcases hkeep.2 with heq | ⟨-, hcut⟩
    · rw [← heq]
      exact ih
    · exact hcut ref ih

/-- **Is a reference to an undefined set reported?**  Never: a test that comes to such a
reference changes the map. -/
theorem undefined_set_reported_iff {adv : Advertisement R}
    (hnew : AdvFunc.new adv = (ok (), af)) :
    ((∃ ref, AdvFunc.LooksUp af set point bv ref ∧ ¬ adv.CarriesSet ref) →
        AdvFunc.ReportsReference af set point bv) ↔
      ∀ ref, AdvFunc.LooksUp af set point bv ref → adv.CarriesSet ref := by
  obtain ⟨hv, -, hsets⟩ := AdvFunc.of_new hnew
  have hcarries : ∀ ref, (af.setExprRefs ref).isSome ↔ adv.CarriesSet ref := fun ref => by
    rw [hsets, AdvFunc.isSome_lastSet]
    rfl
  constructor
  · intro hreports ref hlook
    by_contra hundef
    obtain ⟨n₁, hn₁⟩ := hreports ⟨ref, hlook, hundef⟩
    obtain ⟨n₂, hn₂⟩ := named_of_looksUp set point bv hv hlook
    have hnamed := hn₂ (max n₁ n₂) (le_max_right n₁ n₂)
    rw [(hn₁ (max n₁ n₂) (le_max_left n₁ n₂)).2] at hnamed
    exact hundef ((hcarries ref).mp hnamed)
  · rintro hdefined ⟨ref, hlook, hundef⟩
    exact absurd (hdefined ref hlook) hundef

/-- An advertisement whose PQ profile is one point, with the name `r`. -/
def pointAdv : Advertisement ℝ :=
  ⟨some (.singleton (some "r") [.real none 0, .real none 0]), none, none, []⟩

/-- A test that looks up this set, and no other. -/
theorem undefined_set_reported_iff_sample :
    ∃ af, AdvFunc.new pointAdv = (ok (), af) ∧
      AdvFunc.LooksUp af (.reference none "r") [1, 1] (bindPQ 0 0) "r" ∧
      ∀ ref, AdvFunc.LooksUp af (.reference none "r") [1, 1] (bindPQ 0 0) ref →
        pointAdv.CarriesSet ref := by
  obtain ⟨af, hnew⟩ : ∃ af, AdvFunc.new pointAdv = (ok (), af) := ⟨_, rfl⟩
  obtain rfl : (AdvFunc.new pointAdv).2 = af := by rw [hnew]
  have hlist : ∀ n, ((calls (listing (bindPQ 0 0) (AdvFunc.new pointAdv).2.realExprRefs)
      (n + 1)).membership (.reference none "r") [1, 1]
      ({ (AdvFunc.new pointAdv).2.toAdvState with nestingDepth := 0 }, [])).2.2 = ["r"] := by
    rintro (- | - | - | n) <;> rfl
  refine ⟨_, hnew, ⟨1, hlist 0 ▸ List.mem_singleton_self _⟩,
    (undefined_set_reported_iff _ _ _ hnew).mp ?_⟩
  rintro ⟨ref, ⟨n, hn⟩, hundef⟩
  cases n with
  | zero => exact absurd hn List.not_mem_nil
  | succ n =>
    rw [hlist n] at hn
    obtain rfl := List.mem_singleton.mp hn
    exact absurd ⟨_, List.mem_cons_self, rfl⟩ hundef

/-! ### The name `r`, which no set carries -/

/-- An advertisement without sets. -/
def noSets : Advertisement ℝ := ⟨none, none, none, []⟩

/-- The empty point is tested against the set `r`, which is not there: the answer is yes, and
now there is a set `r`. -/
theorem undefined_set_accepted :
    (AdvFunc.new noSets).1 = ok () ∧ ¬ noSets.CarriesSet "r" ∧
    AdvFunc.LooksUp (AdvFunc.new noSets).2 (.reference none "r") [] (bindPQ 0 0) "r" ∧
    (∀ n, 2 ≤ n → (AdvFunc.testMembership n (.reference none "r") [] (bindPQ 0 0)
      (AdvFunc.new noSets).2).1 = ok true) ∧
    ¬ AdvFunc.ReportsReference (AdvFunc.new noSets).2 (.reference none "r") [] (bindPQ 0 0) := by
  have htrue : ∀ n, 2 ≤ n → (AdvFunc.testMembership n (.reference none "r") [] (bindPQ 0 0)
      (AdvFunc.new noSets).2).1 = ok true := by
    intro n hn
    obtain ⟨n, rfl⟩ := Nat.exists_eq_add_of_le' hn
    have happrox : isApprox ([] : List ℝ) [] = true := by
      simp [isApprox, squaredNorm, vecSub, stdMin, Double.le, dot]
    rw [← happrox]
    rfl
  refine ⟨rfl, ?_, ⟨1, List.mem_singleton_self _⟩, htrue, ?_⟩
  · rintro ⟨s, hs, -⟩
    exact absurd hs List.not_mem_nil
  · rintro ⟨n₀, hn₀⟩
    obtain ⟨⟨ref, msg, hthrow⟩, -⟩ := hn₀ (max n₀ 2) (le_max_left n₀ 2)
    rw [htrue _ (le_max_right n₀ 2)] at hthrow
    exact absurd hthrow (by simp)

end Commelec
