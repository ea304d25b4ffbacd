/-
Commelec/Reuse.lean

Is an interpreter that is used again like a new one?

`setAdv` collects the names of the new advertisement into maps that still hold those of
the earlier ones.  A name that the new advertisement carries is overwritten; any other
name stays (`refs_setAdvs`).  So a reference of the new advertisement to a name
that only an earlier one carries is resolved, and otherwise every query behaves as on a
new object (`reuse_iff`).
-/
import Commelec.References
import Commelec.Semantics

namespace Commelec

open Effectful Outcome

variable {R : Type}

/-! ### Nodes -/

@[simp] theorem RealExpr.mem_nodes (expr : RealExpr R) : .real expr ∈ expr.nodes := by
  cases expr <;> exact List.mem_cons_self

@[simp] theorem SetExpr.mem_nodes (set : SetExpr R) : .set set ∈ set.nodes := by
  cases set <;> exact List.mem_cons_self

theorem mem_realNodes {expr : RealExpr R} {exprs : List (RealExpr R)} (h : expr ∈ exprs) :
    .real expr ∈ realNodes exprs := by
  induction exprs with
  | nil => simp at h
  | cons e exprs ih =>
    rw [realNodes, List.mem_append]
    rcases List.mem_cons.mp h with rfl | h
    · exact Or.inl expr.mem_nodes
    · exact Or.inr (ih h)

theorem mem_matrixNodes {expr : RealExpr R} {row : List (RealExpr R)}
    {a : List (List (RealExpr R))} (hrow : row ∈ a) (h : expr ∈ row) :
    .real expr ∈ matrixNodes a := by
  induction a with
  | nil => simp at hrow
  | cons list a ih =>
    rw [matrixNodes, List.mem_append]
    rcases List.mem_cons.mp hrow with rfl | hrow
    · exact Or.inl (mem_realNodes h)
    · exact Or.inr (ih hrow)

theorem mem_boundNodes {bound : RealExpr R × RealExpr R}
    {rect : List (RealExpr R × RealExpr R)} (h : bound ∈ rect) :
    .real bound.1 ∈ boundNodes rect ∧ .real bound.2 ∈ boundNodes rect := by
  induction rect with
  | nil => simp at h
  | cons b rect ih =>
    obtain ⟨boundA, boundB⟩ := b
    rw [boundNodes]
    rcases List.mem_cons.mp h with rfl | h
    · simp
    · simp [ih h]

theorem mem_setNodes {set : SetExpr R} {sets : List (SetExpr R)} (h : set ∈ sets) :
    .set set ∈ setNodes sets := by
  induction sets with
  | nil => simp at h
  | cons s sets ih =>
    rw [setNodes, List.mem_append]
    rcases List.mem_cons.mp h with rfl | h
    · exact Or.inl set.mem_nodes
    · exact Or.inr (ih h)

theorem mem_realCaseNodes {c : SetExpr R × RealExpr R} {cases : List (SetExpr R × RealExpr R)}
    (h : c ∈ cases) :
    .set c.1 ∈ realCaseNodes cases ∧ .real c.2 ∈ realCaseNodes cases := by
  induction cases with
  | nil => simp at h
  | cons c' cases ih =>
    obtain ⟨set, expression⟩ := c'
    rw [realCaseNodes]
    rcases List.mem_cons.mp h with rfl | h
    · simp
    · simp [ih h]

namespace Advertisement

variable (adv : Advertisement R)

/-- The real expressions of the advertisement. -/
def HasReal (expr : RealExpr R) : Prop := .real expr ∈ adv.nodes

/-- Its sets, and the one that stands for an unknown name. -/
def HasSet (set : SetExpr R) : Prop := .set set ∈ adv.nodes ∨ set = .default

def CarriesReal (n : String) : Prop := ∃ e, .real e ∈ adv.nodes ∧ e.name = some n

def CarriesSet (n : String) : Prop := ∃ s, .set s ∈ adv.nodes ∧ s.name = some n

variable {adv}

theorem real_subset {expr : RealExpr R} (h : adv.HasReal expr) : expr.nodes ⊆ adv.nodes :=
  adv.downClosed _ h

theorem set_subset {set : SetExpr R} (h : .set set ∈ adv.nodes) : set.nodes ⊆ adv.nodes :=
  adv.downClosed _ h

/-- **The parts of an advertisement's expressions are its expressions.** -/
theorem closed (adv : Advertisement R) : Closed adv.HasReal adv.HasSet where
  unary h := real_subset h (List.mem_cons_of_mem _ (RealExpr.mem_nodes _))
  binary h :=
    ⟨real_subset h (List.mem_cons_of_mem _ (List.mem_append_left _ (RealExpr.mem_nodes _))),
      real_subset h (List.mem_cons_of_mem _ (List.mem_append_right _ (RealExpr.mem_nodes _)))⟩
  list h a ha := real_subset h (List.mem_cons_of_mem _ (mem_realNodes ha))
  realCases h c hc := by
    obtain ⟨hset, hreal⟩ := mem_realCaseNodes hc
    exact ⟨Or.inl (real_subset h (List.mem_cons_of_mem _ hset)),
      real_subset h (List.mem_cons_of_mem _ hreal)⟩
  singleton h a ha := by
    rcases h with h | h
    · exact set_subset h (List.mem_cons_of_mem _ (mem_realNodes ha))
    · -- the default set has no coordinates
      rw [SetExpr.default, SetExpr.singleton.injEq] at h
      rw [h.2] at ha
      exact absurd ha (List.not_mem_nil)
  ball h := by
    have hsub := set_subset (h.resolve_right (by simp [SetExpr.default]))
    exact ⟨fun a ha => hsub (List.mem_cons_of_mem _ (List.mem_append_left _ (mem_realNodes ha))),
      hsub (List.mem_cons_of_mem _ (List.mem_append_right _ (RealExpr.mem_nodes _)))⟩
  rectangle h b hb := by
    have hsub := set_subset (h.resolve_right (by simp [SetExpr.default]))
    obtain ⟨hA, hB⟩ := mem_boundNodes hb
    exact ⟨hsub (List.mem_cons_of_mem _ hA), hsub (List.mem_cons_of_mem _ hB)⟩
  convexPolytope h := by
    have hsub := set_subset (h.resolve_right (by simp [SetExpr.default]))
    exact ⟨fun row hrow e he => hsub (List.mem_cons_of_mem _
        (List.mem_append_left _ (mem_matrixNodes hrow he))),
      fun e he => hsub (List.mem_cons_of_mem _ (List.mem_append_right _ (mem_realNodes he)))⟩
  intersection h s hs := by
    have hsub := set_subset (h.resolve_right (by simp [SetExpr.default]))
    exact Or.inl (hsub (List.mem_cons_of_mem _ (mem_setNodes hs)))

end Advertisement

/-! ### A sequence of advertisements -/

namespace AdvFunc

/-- `setAdv`, for one advertisement after the other. -/
def setAdvs : List (Advertisement R) → Run (AdvFunc R) Err Unit
  | [] => pure ()
  | adv :: advs => do
    setAdv adv
    setAdvs advs

theorem realExprRefs_collected (ns : List (Node R)) (af : AdvFunc R) :
    (collected ns af).realExprRefs = fun n => (lastReal ns n).or (af.realExprRefs n) := rfl

theorem setExprRefs_collected (ns : List (Node R)) (af : AdvFunc R) :
    (collected ns af).setExprRefs = fun n => (lastSet ns n).or (af.setExprRefs n) := rfl

/-- A new object: valid, with the last node of each name. -/
theorem of_new {adv : Advertisement R} {af : AdvFunc R} (h : new adv = (ok (), af)) :
    af.advValid = true ∧ (∀ n, af.realExprRefs n = lastReal adv.nodes n) ∧
      ∀ n, af.setExprRefs n = lastSet adv.nodes n := by
  have hcol := collectable_of_setAdv (congrArg Prod.fst h)
  rw [new, setAdv_of_collectable hcol] at h
  obtain rfl := congrArg Prod.snd h
  exact ⟨rfl, fun n => Option.or_none, fun n => Option.or_none⟩

/-- What is in the maps after a sequence of advertisements: the nodes of all of them. -/
theorem refs_setAdvs {advs : List (Advertisement R)} {af af' : AdvFunc R}
    (h : setAdvs advs af = (ok (), af')) :
    (∀ n, af'.realExprRefs n
      = (lastReal (advs.flatMap Advertisement.nodes) n).or (af.realExprRefs n)) ∧
    ∀ n, af'.setExprRefs n
      = (lastSet (advs.flatMap Advertisement.nodes) n).or (af.setExprRefs n) := by
  induction advs generalizing af with
  | nil =>
    obtain rfl : af = af' := congrArg Prod.snd h
    exact ⟨fun _ => rfl, fun _ => rfl⟩
  | cons adv advs ih =>
    rw [setAdvs] at h
    obtain ⟨⟨⟩, af₁, hadv, -⟩ := Run.of_bind_ok (congrArg Prod.fst h)
    rw [Run.bind_ok hadv] at h
    rw [setAdv_of_collectable (collectable_of_setAdv (congrArg Prod.fst hadv))] at hadv
    obtain rfl := congrArg Prod.snd hadv
    obtain ⟨hreal, hset⟩ := ih h
    refine ⟨fun n => ?_, fun n => ?_⟩
    · rw [hreal, realExprRefs_collected, List.flatMap_cons, lastReal_append, Option.or_assoc]
    · rw [hset, setExprRefs_collected, List.flatMap_cons, lastSet_append, Option.or_assoc]

end AdvFunc

/-! ### Two objects that agree on some names -/

/-- Two states with the same count that give the same set, one in `PS`, for each of the
names in `Q`. -/
def AgreeOn (PS : SetExpr R → Prop) (Q : String → Prop) (s t : AdvState R) : Prop :=
  s.nestingDepth = t.nestingDepth ∧ ∀ ref, Q ref →
    s.setExprRefs.get ref = t.setExprRefs.get ref ∧ PS (s.setExprRefs.get ref)

/-- Runs that have the same outcome on such states. -/
def agreeing (PS : SetExpr R → Prop) (Q : String → Prop) :
    EffectRel Err (Method R) (Method R) where
  rel x y := ∀ s t, AgreeOn PS Q s t → (x s).1 = (y t).1 ∧ AgreeOn PS Q (x s).2 (y t).2
  rel_pure _ _ _ h := ⟨rfl, h⟩
  rel_raise _ _ _ h := ⟨rfl, h⟩
  rel_bind := by
    intro α β x y f g hx hf s t hst
    obtain ⟨hout, hagree⟩ := hx s t hst
    rcases hxs : x s with ⟨o, s'⟩
    rcases hyt : y t with ⟨o', t'⟩
    rw [hxs, hyt] at hout hagree
    obtain rfl : o = o' := hout
    cases o with
    | ok a =>
      rw [Run.bind_ok hxs, Run.bind_ok hyt]
      exact hf a s' t' hagree
    | throw e =>
      rw [Run.bind_throw hxs, Run.bind_throw hyt]
      exact ⟨rfl, hagree⟩
    | outOfFuel =>
      rw [Run.bind_outOfFuel hxs, Run.bind_outOfFuel hyt]
      exact ⟨rfl, hagree⟩

theorem agreeing_stop (PS : SetExpr R → Prop) (Q : String → Prop) {α : Type} :
    (agreeing PS Q).rel (stop : Method R α) stop :=
  fun _ _ h => ⟨rfl, h⟩

/-- **Two objects that agree on the names that the expressions refer to are related.** -/
theorem related_agreeing {PR : RealExpr R → Prop} {PS : SetExpr R → Prop}
    {Q : String → Prop} {reals reals' : RealExprRefMap R}
    (hreal : ∀ n ref, PR (.reference n ref) →
      reals ref = reals' ref ∧ ∀ e, reals ref = some e → PR e)
    (hset : ∀ n ref, PS (.reference n ref) → Q ref) (bv : ValueMap R) :
    Related (agreeing PS Q) PR PS (methods bv reals) (methods bv reals') where
  boundVars := rfl
  visit := by
    intro s t h
    show (visit s).1 = (visit t).1 ∧ AgreeOn PS Q (visit s).2 (visit t).2
    -- the counts are the same, so both overflow or neither does
    by_cases hfull : s.nestingDepth + 1 > MAX_NESTING_DEPTH
    · rw [visit, visit, if_pos hfull, if_pos (h.1 ▸ hfull)]
      exact ⟨rfl, congrArg (· + 1) h.1, h.2⟩
    · rw [visit, visit, if_neg hfull, if_neg (h.1 ▸ hfull)]
      exact ⟨rfl, congrArg (· + 1) h.1, h.2⟩
  visitSet := by
    intro _ _ s t h
    show (visitSet s).1 = (visitSet t).1 ∧ AgreeOn PS Q (visitSet s).2 (visitSet t).2
    by_cases hfull : s.nestingDepth + 1 > MAX_NESTING_DEPTH
    · rw [visitSet, visitSet, if_pos hfull, if_pos (h.1 ▸ hfull)]
      exact ⟨rfl, rfl, h.2⟩
    · rw [visitSet, visitSet, if_neg hfull, if_neg (h.1 ▸ hfull)]
      exact ⟨rfl, congrArg (· + 1) h.1, h.2⟩
  real h := hreal _ _ h
  set := by
    intro n ref hs α k k' hk s t hst
    obtain ⟨heq, hin⟩ := hst.2 ref (hset n ref hs)
    have hagree : AgreeOn PS Q (findSet ref s).2 (findSet ref t).2 := by
      -- the lookup may insert a default set, which no later lookup can tell from its absence
      refine ⟨?_, fun ref' hq => ?_⟩
      · rw [nestingDepth_findSet, nestingDepth_findSet]
        exact hst.1
      · rw [(sameSets_findSet ref s).2 ref', (sameSets_findSet ref t).2 ref']
        exact hst.2 ref' hq
    have hfind : findSet ref s = (ok (s.setExprRefs.get ref), (findSet ref s).2) :=
      Prod.ext (sameSets_findSet ref s).1 rfl
    have hfind' : findSet ref t = (ok (s.setExprRefs.get ref), (findSet ref t).2) :=
      Prod.ext ((sameSets_findSet ref t).1.trans (by rw [heq])) rfl
    show ((findSet ref >>= k) s).1 = ((findSet ref >>= k') t).1 ∧
      AgreeOn PS Q ((findSet ref >>= k) s).2 ((findSet ref >>= k') t).2
    rw [Run.bind_ok hfind, Run.bind_ok hfind']
    exact hk _ hin _ _ hagree

/-! ### Using an interpreter again -/

/-- The object answers all queries about the expressions of the advertisement as the
other one does, and resolves none of their references that the other one does not. -/
structure ActsLike [Double R] (adv : Advertisement R) (af fresh : AdvFunc R) : Prop where
  evaluate (expr : RealExpr R) : adv.HasReal expr → ∀ fuel bv,
    (AdvFunc.evaluate fuel expr bv af).1 = (AdvFunc.evaluate fuel expr bv fresh).1
  evalPartialDerivative (expr : RealExpr R) : adv.HasReal expr → ∀ fuel x bv,
    (AdvFunc.evalPartialDerivative fuel expr x bv af).1
      = (AdvFunc.evalPartialDerivative fuel expr x bv fresh).1
  testMembership (set : SetExpr R) : .set set ∈ adv.nodes → ∀ fuel point bv,
    (AdvFunc.testMembership fuel set point bv af).1
      = (AdvFunc.testMembership fuel set point bv fresh).1
  project (set : SetExpr R) : .set set ∈ adv.nodes → ∀ fuel point bv,
    (AdvFunc.project fuel set point bv af).1 = (AdvFunc.project fuel set point bv fresh).1
  rectangularHull (set : SetExpr R) : .set set ∈ adv.nodes → ∀ lp fuel bv,
    (AdvFunc.rectangularHull lp fuel set bv af).1
      = (AdvFunc.rectangularHull lp fuel set bv fresh).1
  real_unresolved {n ref} : adv.HasReal (.reference n ref) →
    fresh.realExprRefs ref = none → af.realExprRefs ref = none
  set_unresolved {n ref} : .set (.reference n ref) ∈ adv.nodes →
    fresh.setExprRefs ref = none → af.setExprRefs ref = none

/-- The advertisement carries each name that it refers to and one of the others carries. -/
def CarriesItsNames (advs : List (Advertisement R)) (adv : Advertisement R) : Prop :=
  (∀ n ref, adv.HasReal (.reference n ref) → (∃ old ∈ advs, old.CarriesReal ref) →
    adv.CarriesReal ref) ∧
  ∀ n ref, .set (.reference n ref) ∈ adv.nodes → (∃ old ∈ advs, old.CarriesSet ref) →
    adv.CarriesSet ref

theorem isSome_lastReal_flatMap {advs : List (Advertisement R)} {n : String} :
    (AdvFunc.lastReal (advs.flatMap Advertisement.nodes) n).isSome
      ↔ ∃ old ∈ advs, old.CarriesReal n := by
  rw [AdvFunc.isSome_lastReal]
  constructor
  · rintro ⟨e, hmem, hname⟩
    obtain ⟨old, hold, he⟩ := List.mem_flatMap.mp hmem
    exact ⟨old, hold, e, he, hname⟩
  · rintro ⟨old, hold, e, he, hname⟩
    exact ⟨e, List.mem_flatMap.mpr ⟨old, hold, he⟩, hname⟩

theorem isSome_lastSet_flatMap {advs : List (Advertisement R)} {n : String} :
    (AdvFunc.lastSet (advs.flatMap Advertisement.nodes) n).isSome
      ↔ ∃ old ∈ advs, old.CarriesSet n := by
  rw [AdvFunc.isSome_lastSet]
  constructor
  · rintro ⟨s, hmem, hname⟩
    obtain ⟨old, hold, hs⟩ := List.mem_flatMap.mp hmem
    exact ⟨old, hold, s, hs, hname⟩
  · rintro ⟨old, hold, s, hs, hname⟩
    exact ⟨s, List.mem_flatMap.mpr ⟨old, hold, hs⟩, hname⟩

theorem or_eq_left {α : Type} {a b : Option α} (h : b.isSome → a.isSome) : a.or b = a := by
  cases a with
  | some x => rfl
  | none =>
    cases b with
    | some y => simp at h
    | none => rfl

theorem isSome_of_or {α : Type} {a b : Option α} (h : a = none → a.or b = none)
    (hb : b.isSome) : a.isSome := by
  cases a with
  | some x => rfl
  | none =>
    obtain rfl : b = none := by simpa using h rfl
    simp at hb

namespace AdvFunc

/-- The object after a sequence of advertisements: the last of them, and the maps of a new
object over those of the earlier ones. -/
structure AfterAdvs (advs : List (Advertisement R)) (adv : Advertisement R)
    (af fresh : AdvFunc R) : Prop where
  advValid : af.advValid = true
  advValid_fresh : fresh.advValid = true
  fresh_real (n : String) : fresh.realExprRefs n = lastReal adv.nodes n
  fresh_set (n : String) : fresh.setExprRefs n = lastSet adv.nodes n
  real (n : String) : af.realExprRefs n
    = (lastReal adv.nodes n).or (lastReal (advs.flatMap Advertisement.nodes) n)
  set (n : String) : af.setExprRefs n
    = (lastSet adv.nodes n).or (lastSet (advs.flatMap Advertisement.nodes) n)

theorem setAdvs_append {advs : List (Advertisement R)} {adv : Advertisement R}
    {af af' : AdvFunc R} (h : setAdvs (advs ++ [adv]) af = (ok (), af')) :
    ∃ af₁, setAdvs advs af = (ok (), af₁) ∧ setAdv adv af₁ = (ok (), af') := by
  induction advs generalizing af with
  | nil =>
    rw [List.nil_append, setAdvs] at h
    obtain ⟨⟨⟩, af₁, hadv, -⟩ := Run.of_bind_ok (congrArg Prod.fst h)
    rw [Run.bind_ok hadv] at h
    obtain rfl : af₁ = af' := congrArg Prod.snd h
    exact ⟨af, rfl, hadv⟩
  | cons old advs ih =>
    rw [List.cons_append, setAdvs] at h
    obtain ⟨⟨⟩, af₁, hold, -⟩ := Run.of_bind_ok (congrArg Prod.fst h)
    rw [Run.bind_ok hold] at h
    obtain ⟨af₂, hadvs, hadv⟩ := ih h
    exact ⟨af₂, by rw [setAdvs, Run.bind_ok hold, hadvs], hadv⟩

theorem afterAdvs {advs : List (Advertisement R)} {adv : Advertisement R} {af : AdvFunc R}
    (h : setAdvs (advs ++ [adv]) blank = (ok (), af)) :
    AfterAdvs advs adv af (new adv).2 := by
  obtain ⟨af₁, hadvs, hadv⟩ := setAdvs_append h
  obtain ⟨hreal, hset⟩ := refs_setAdvs hadvs
  have hcol := collectable_of_setAdv (congrArg Prod.fst hadv)
  have hnew : (new adv).2 = collected adv.nodes { blank with adv := adv, advValid := true } := by
    rw [new, setAdv_of_collectable hcol]
  rw [setAdv_of_collectable hcol] at hadv
  obtain rfl := congrArg Prod.snd hadv
  rw [hnew]
  -- both maps start with the nodes of the last advertisement; they differ in what is below
  refine ⟨rfl, rfl, fun n => ?_, fun n => ?_, fun n => ?_, fun n => ?_⟩
  · exact Option.or_none
  · exact Option.or_none
  · show (lastReal adv.nodes n).or (af₁.realExprRefs n) = _
    rw [hreal, show blank.realExprRefs n = none from rfl, Option.or_none]
  · show (lastSet adv.nodes n).or (af₁.setExprRefs n) = _
    rw [hset, show blank.setExprRefs n = none from rfl, Option.or_none]

end AdvFunc

section ActsLike

variable [Double R] {advs : List (Advertisement R)} {adv : Advertisement R}
  {af fresh : AdvFunc R}

theorem ActsLike.carriesItsNames (h : ActsLike adv af fresh)
    (hafter : AdvFunc.AfterAdvs advs adv af fresh) : CarriesItsNames advs adv := by
  refine ⟨fun n ref href hold => ?_, fun n ref href hold => ?_⟩
  · have hunres := h.real_unresolved href
    rw [hafter.fresh_real, hafter.real] at hunres
    exact AdvFunc.isSome_lastReal.mp (isSome_of_or hunres (isSome_lastReal_flatMap.mpr hold))
  · have hunres := h.set_unresolved href
    rw [hafter.fresh_set, hafter.set] at hunres
    exact AdvFunc.isSome_lastSet.mp (isSome_of_or hunres (isSome_lastSet_flatMap.mpr hold))

omit [Double R] in
theorem CarriesItsNames.real_eq (h : CarriesItsNames advs adv)
    (hafter : AdvFunc.AfterAdvs advs adv af fresh) {n : Option String} {ref : String}
    (href : adv.HasReal (.reference n ref)) : af.realExprRefs ref = fresh.realExprRefs ref := by
  rw [hafter.real, hafter.fresh_real]
  exact or_eq_left fun hold =>
    AdvFunc.isSome_lastReal.mpr (h.1 n ref href (isSome_lastReal_flatMap.mp hold))

omit [Double R] in
theorem CarriesItsNames.set_eq (h : CarriesItsNames advs adv)
    (hafter : AdvFunc.AfterAdvs advs adv af fresh) {n : Option String} {ref : String}
    (href : .set (.reference n ref) ∈ adv.nodes) :
    af.setExprRefs ref = fresh.setExprRefs ref := by
  rw [hafter.set, hafter.fresh_set]
  exact or_eq_left fun hold =>
    AdvFunc.isSome_lastSet.mpr (h.2 n ref href (isSome_lastSet_flatMap.mp hold))

omit [Double R] in
/-- What a name stands for is a set of the advertisement, or the default one. -/
theorem Advertisement.hasSet_lastSet (adv : Advertisement R) (ref : String) :
    adv.HasSet ((AdvFunc.lastSet adv.nodes ref).getD .default) := by
  rcases hs : AdvFunc.lastSet adv.nodes ref with - | s
  · -- nothing carries the name, which stands for the default set
    exact Or.inr rfl
  · exact Or.inl (AdvFunc.of_lastSet hs).1

/-- The names of the sets that the advertisement refers to. -/
def Advertisement.RefersToSet (adv : Advertisement R) (ref : String) : Prop :=
  ∃ n, .set (.reference n ref) ∈ adv.nodes

omit [Double R] in
theorem CarriesItsNames.related (h : CarriesItsNames advs adv)
    (hafter : AdvFunc.AfterAdvs advs adv af fresh) (bv : ValueMap R) :
    Related (agreeing adv.HasSet adv.RefersToSet) adv.HasReal adv.HasSet
      (methods bv af.realExprRefs) (methods bv fresh.realExprRefs) := by
  refine related_agreeing (fun n ref href => ?_) (fun n ref href => ?_) bv
  · have heq := h.real_eq hafter href
    refine ⟨heq, fun e he => ?_⟩
    rw [heq, hafter.fresh_real] at he
    exact (AdvFunc.of_lastReal he).1
  · exact ⟨n, href.resolve_right (by simp [SetExpr.default])⟩

omit [Double R] in
theorem CarriesItsNames.agreeOn (h : CarriesItsNames advs adv)
    (hafter : AdvFunc.AfterAdvs advs adv af fresh) :
    AgreeOn adv.HasSet adv.RefersToSet { af.toAdvState with nestingDepth := 0 }
      { fresh.toAdvState with nestingDepth := 0 } := by
  refine ⟨rfl, ?_⟩
  rintro ref ⟨n, href⟩
  have heq : af.setExprRefs.get ref = fresh.setExprRefs.get ref := by
    rw [SetExprRefMap.get, SetExprRefMap.get, h.set_eq hafter href]
  refine ⟨heq, ?_⟩
  show adv.HasSet (af.setExprRefs.get ref)
  rw [heq, SetExprRefMap.get, hafter.fresh_set]
  exact adv.hasSet_lastSet ref

omit [Double R] in
/-- Related methods give the same outcomes. -/
theorem CarriesItsNames.query_eq (h : CarriesItsNames advs adv)
    (hafter : AdvFunc.AfterAdvs advs adv af fresh) {α : Type} {bv : ValueMap R}
    {method : Self R (Method R) → Method R α}
    (hrel : (agreeing adv.HasSet adv.RefersToSet).rel (method (methods bv af.realExprRefs))
      (method (methods bv fresh.realExprRefs))) :
    (AdvFunc.query bv method af).1 = (AdvFunc.query bv method fresh).1 := by
  rw [AdvFunc.query_fst hafter.advValid, AdvFunc.query_fst hafter.advValid_fresh]
  exact (hrel _ _ (h.agreeOn hafter)).1

theorem CarriesItsNames.actsLike (h : CarriesItsNames advs adv)
    (hafter : AdvFunc.AfterAdvs advs adv af fresh) : ActsLike adv af fresh where
  evaluate _ he fuel bv := h.query_eq hafter
    ((rel_calls adv.closed (h.related hafter bv) (agreeing_stop _ _) fuel).eval he)
  evalPartialDerivative _ he fuel x bv := h.query_eq hafter
    (rel_evalPartialDerivative adv.closed (h.related hafter bv) (agreeing_stop _ _) x fuel he)
  testMembership _ hs fuel point bv := h.query_eq hafter
    ((rel_calls adv.closed (h.related hafter bv) (agreeing_stop _ _) fuel).membership point
      (Or.inl hs))
  project _ hs fuel point bv := h.query_eq hafter
    (rel_projPoint adv.closed (h.related hafter bv) (agreeing_stop _ _) fuel (Or.inl hs) point)
  rectangularHull _ hs lp fuel bv := h.query_eq hafter
    (rel_rectHull adv.closed (h.related hafter bv) (agreeing_stop _ _) lp fuel (Or.inl hs))
  real_unresolved href hnone := (h.real_eq hafter href).trans hnone
  set_unresolved href hnone := (h.set_eq hafter href).trans hnone

end ActsLike

/-- **Is using an interpreter again like making a new one?**  Exactly when the last
advertisement carries every name that it refers to and an earlier one carries. -/
theorem reuse_iff [Double R] {advs : List (Advertisement R)} {adv : Advertisement R}
    {af : AdvFunc R} (h : AdvFunc.setAdvs (advs ++ [adv]) AdvFunc.blank = (ok (), af)) :
    ActsLike adv af (AdvFunc.new adv).2 ↔ CarriesItsNames advs adv :=
  ⟨fun hlike => hlike.carriesItsNames (AdvFunc.afterAdvs h),
    fun hnames => hnames.actsLike (AdvFunc.afterAdvs h)⟩

/-! ### A name of an earlier advertisement -/

/-- An advertisement with the given cost function. -/
def costAdv (cost : RealExpr ℝ) : Advertisement ℝ := ⟨none, none, some cost, []⟩

/-- The cost function 5, named `a`. -/
def namedFive : Advertisement ℝ := costAdv (.real (some "a") 5)

/-- The cost function `7 + a`, where `a` is the name of 7. -/
def ownName : Advertisement ℝ :=
  costAdv (.listOperation none .sum [.real (some "a") 7, .reference none "a"])

theorem collectable_namedFive : namedFive.Collectable :=
  ⟨Nat.zero_le _, Nat.zero_le _, Nat.succ_le_succ (Nat.zero_le _)⟩

theorem collectable_ownName : ownName.Collectable := by
  refine ⟨Nat.zero_le _, Nat.zero_le _, ?_⟩
  show 3 ≤ 10000
  norm_num

theorem nodes_ownName : ownName.nodes = [.real (.listOperation none .sum
      [.real (some "a") 7, .reference none "a"]), .real (.real (some "a") 7),
      .real (.reference none "a")] := rfl

theorem reuse_iff_sample :
    ∃ af, AdvFunc.setAdvs ([namedFive] ++ [ownName]) AdvFunc.blank = (ok (), af) ∧
      ActsLike ownName af (AdvFunc.new ownName).2 := by
  have hok : ∃ af, AdvFunc.setAdvs ([namedFive] ++ [ownName]) AdvFunc.blank = (ok (), af) := by
    rw [List.singleton_append, AdvFunc.setAdvs, AdvFunc.setAdvs,
      Run.bind_ok (AdvFunc.setAdv_of_collectable collectable_namedFive _),
      Run.bind_ok (AdvFunc.setAdv_of_collectable collectable_ownName _)]
    exact ⟨_, rfl⟩
  have hcarries : ownName.CarriesReal "a" :=
    ⟨.real (some "a") 7, List.mem_cons_of_mem _ List.mem_cons_self, rfl⟩
  obtain ⟨af, haf⟩ := hok
  refine ⟨af, haf, (reuse_iff haf).mpr ⟨fun n ref href _ => ?_, fun n ref href _ => ?_⟩⟩
  · rw [Advertisement.HasReal, nodes_ownName] at href
    obtain ⟨-, rfl⟩ : n = none ∧ ref = "a" := by simpa using href
    exact hcarries
  · rw [nodes_ownName] at href
    simp at href

/-- The cost function of the second advertisement is the name `a`, which only the first
one carries: the reused interpreter gives 5, a new one throws. -/
theorem reference_survives :
    (AdvFunc.setAdvs [namedFive, costAdv (.reference none "a")] AdvFunc.blank).1 = ok () ∧
    (AdvFunc.evaluate 2 (.reference none "a") (bindPQ 0 0)
      (AdvFunc.setAdvs [namedFive, costAdv (.reference none "a")] AdvFunc.blank).2).1 = ok 5 ∧
    (AdvFunc.evaluate 2 (.reference none "a") (bindPQ 0 0)
      (AdvFunc.new (costAdv (.reference none "a"))).2).1
      = .throw (.unknownReference "a"
        "AdvFunc::evalRef(std::string ref, ...) in Evaluate.cpp [ref=a]") := by
  have hcollect : (costAdv (.reference none "a")).Collectable :=
    ⟨Nat.zero_le _, Nat.zero_le _, Nat.succ_le_succ (Nat.zero_le _)⟩
  have hnew := AdvFunc.setAdv_of_collectable hcollect AdvFunc.blank
  obtain ⟨af, hboth, hfive⟩ : ∃ af,
      AdvFunc.setAdvs [namedFive, costAdv (.reference none "a")] AdvFunc.blank = (ok (), af) ∧
        (AdvFunc.evaluate 2 (.reference none "a") (bindPQ 0 0) af).1 = ok 5 := by
    rw [AdvFunc.setAdvs, AdvFunc.setAdvs,
      Run.bind_ok (AdvFunc.setAdv_of_collectable collectable_namedFive _),
      Run.bind_ok (AdvFunc.setAdv_of_collectable hcollect _)]
    exact ⟨_, rfl, rfl⟩
  refine ⟨congrArg Prod.fst hboth, ?_, ?_⟩
  · rw [hboth]
    exact hfive
  · show (AdvFunc.evaluate 2 _ _ (AdvFunc.setAdv _ AdvFunc.blank).2).1 = _
    rw [hnew]
    rfl

end Commelec
