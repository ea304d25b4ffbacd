/-
Commelec/Collection.lean

What `AdvFunc` knows after `setAdv`, and after a `setAdv` that has failed.

* The collection is complete and exact: a name is in a map exactly if some expression or set
  that occurs in the advertisement carries it, and it stands for the last of these in the
  order of the traversal (`collection_exact`).  The traversal comes to every node that occurs
  (`mem_nodes_iff`), under whatever member of a union.
* A part with too many nodes makes `setAdv` throw.  By then the new advertisement has been
  stored and marked as valid, and the names met before the exception are in the maps
  (`setAdv_of_not_collectable`); none of this is taken back (`usable_iff`).
-/
import Commelec.NestingError

namespace Commelec

open Effectful Outcome

variable {R : Type}

/-! ### Occurrences -/

/-- `b` is a direct sub-expression of `a`. -/
def Node.Child (a b : Node R) : Prop := b ∈ a.children (fun _ => none) (fun _ => none)

/-- `b` is `a`, or lies somewhere below it. -/
abbrev Node.Descends : Node R → Node R → Prop := Relation.ReflTransGen Node.Child

namespace Advertisement

variable (adv : Advertisement R)

/-- The node occurs in one of the three parts. -/
def Occurs (node : Node R) : Prop := ∃ part ∈ adv.parts, part.Descends node

end Advertisement

/-- A node that is visited is the first one, or one below it. -/
theorem Node.Descends.of_cons {root node : Node R} {ns : List (Node R)} (h : node ∈ root :: ns)
    (htail : node ∈ ns → ∃ child, root.Child child ∧ child.Descends node) :
    root.Descends node := by
  rcases List.mem_cons.mp h with rfl | h
  · exact .refl
  · obtain ⟨child, hchild, h⟩ := htail h
    exact .head hchild h

mutual

theorem RealExpr.descends (expr : RealExpr R) {node : Node R} (h : node ∈ expr.nodes) :
    (Node.real expr).Descends node := by
  cases expr with
  | unaryOperation n op arg =>
    refine .of_cons h fun h => ⟨.real arg, ?_, arg.descends h⟩
    exact List.mem_singleton_self _
  | binaryOperation n op argA argB =>
    refine .of_cons h fun h => ?_
    rcases List.mem_append.mp h with h | h
    · exact ⟨.real argA, List.mem_cons_self, argA.descends h⟩
    · exact ⟨.real argB, List.mem_cons_of_mem _ List.mem_cons_self, argB.descends h⟩
  | listOperation n op args =>
    refine .of_cons h fun h => ?_
    obtain ⟨arg, harg, h⟩ := descends_realNodes args h
    exact ⟨.real arg, List.mem_map_of_mem harg, h⟩
  | caseDistinction n vars cases => exact .of_cons h (descends_realCaseNodes cases)
  | real | polynomial | reference | var | unknown =>
    exact .of_cons h fun h => absurd h List.not_mem_nil

theorem SetExpr.descends (set : SetExpr R) {node : Node R} (h : node ∈ set.nodes) :
    (Node.set set).Descends node := by
  cases set with
  | singleton n singleton =>
    refine .of_cons h fun h => ?_
    obtain ⟨expr, hexpr, h⟩ := descends_realNodes singleton h
    exact ⟨.real expr, List.mem_map_of_mem hexpr, h⟩
  | ball n center radius =>
    refine .of_cons h fun h => ?_
    rcases List.mem_append.mp h with h | h
    · obtain ⟨expr, hexpr, h⟩ := descends_realNodes center h
      exact ⟨.real expr, List.mem_append_left _ (List.mem_map_of_mem hexpr), h⟩
    · exact ⟨.real radius, List.mem_append_right _ (List.mem_singleton_self _),
        radius.descends h⟩
  | rectangle n rect => exact .of_cons h (descends_boundNodes rect)
  | convexPolytope n a b =>
    refine .of_cons h fun h => ?_
    rcases List.mem_append.mp h with h | h
    · obtain ⟨expr, hexpr, h⟩ := descends_matrixNodes a h
      exact ⟨.real expr, List.mem_append_left _ (List.mem_map_of_mem hexpr), h⟩
    · obtain ⟨expr, hexpr, h⟩ := descends_realNodes b h
      exact ⟨.real expr, List.mem_append_right _ (List.mem_map_of_mem hexpr), h⟩
  | intersection n sets =>
    refine .of_cons h fun h => ?_
    obtain ⟨set, hset, h⟩ := descends_setNodes sets h
    exact ⟨.set set, List.mem_map_of_mem hset, h⟩
  | caseDistinction n vars cases => exact .of_cons h (descends_setCaseNodes cases)
  | reference | unknown => exact .of_cons h fun h => absurd h List.not_mem_nil

theorem descends_realNodes (exprs : List (RealExpr R)) {node : Node R}
    (h : node ∈ realNodes exprs) : ∃ expr ∈ exprs, (Node.real expr).Descends node := by
  cases exprs with
  | nil => exact absurd h (by simp [realNodes])
  | cons expr exprs =>
    rcases List.mem_append.mp h with h | h
    · exact ⟨expr, by simp, expr.descends h⟩
    · obtain ⟨expr', hmem, h⟩ := descends_realNodes exprs h
      exact ⟨expr', by simp [hmem], h⟩

theorem descends_matrixNodes (a : List (List (RealExpr R))) {node : Node R}
    (h : node ∈ matrixNodes a) : ∃ expr ∈ a.flatten, (Node.real expr).Descends node := by
  cases a with
  | nil => exact absurd h (by simp [matrixNodes])
  | cons list a =>
    rcases List.mem_append.mp h with h | h
    · obtain ⟨expr, hmem, h⟩ := descends_realNodes list h
      exact ⟨expr, by simp [hmem], h⟩
    · obtain ⟨expr, hmem, h⟩ := descends_matrixNodes a h
      exact ⟨expr, List.mem_append_right _ hmem, h⟩

theorem descends_boundNodes (rect : List (RealExpr R × RealExpr R)) {node : Node R}
    (h : node ∈ boundNodes rect) :
    ∃ child ∈ rect.flatMap fun b => [Node.real b.1, .real b.2], child.Descends node := by
  cases rect with
  | nil => exact absurd h (by simp [boundNodes])
  | cons bound rect =>
    obtain ⟨boundA, boundB⟩ := bound
    rcases List.mem_append.mp h with h | h
    · exact ⟨_, by simp, boundA.descends h⟩
    rcases List.mem_append.mp h with h | h
    · exact ⟨.real boundB, by simp, boundB.descends h⟩
    · obtain ⟨child, hmem, h⟩ := descends_boundNodes rect h
      exact ⟨child, List.mem_append_right _ hmem, h⟩

theorem descends_setNodes (sets : List (SetExpr R)) {node : Node R}
    (h : node ∈ setNodes sets) : ∃ set ∈ sets, (Node.set set).Descends node := by
  cases sets with
  | nil => exact absurd h (by simp [setNodes])
  | cons set sets =>
    rcases List.mem_append.mp h with h | h
    · exact ⟨set, by simp, set.descends h⟩
    · obtain ⟨set', hmem, h⟩ := descends_setNodes sets h
      exact ⟨set', by simp [hmem], h⟩

theorem descends_realCaseNodes (cases : List (SetExpr R × RealExpr R)) {node : Node R}
    (h : node ∈ realCaseNodes cases) :
    ∃ child ∈ cases.flatMap fun c => [Node.set c.1, .real c.2], child.Descends node := by
  cases cases with
  | nil => exact absurd h (by simp [realCaseNodes])
  | cons c cases =>
    obtain ⟨set, expression⟩ := c
    rcases List.mem_append.mp h with h | h
    · exact ⟨_, by simp, set.descends h⟩
    rcases List.mem_append.mp h with h | h
    · exact ⟨.real expression, by simp, expression.descends h⟩
    · obtain ⟨child, hmem, h⟩ := descends_realCaseNodes cases h
      exact ⟨child, List.mem_append_right _ hmem, h⟩

theorem descends_setCaseNodes (cases : List (SetExpr R × SetExpr R)) {node : Node R}
    (h : node ∈ setCaseNodes cases) :
    ∃ child ∈ cases.flatMap fun c => [Node.set c.1, .set c.2], child.Descends node := by
  cases cases with
  | nil => exact absurd h (by simp [setCaseNodes])
  | cons c cases =>
    obtain ⟨set, expression⟩ := c
    rcases List.mem_append.mp h with h | h
    · exact ⟨_, by simp, set.descends h⟩
    rcases List.mem_append.mp h with h | h
    · exact ⟨.set expression, by simp, expression.descends h⟩
    · obtain ⟨child, hmem, h⟩ := descends_setCaseNodes cases h
      exact ⟨child, List.mem_append_right _ hmem, h⟩

end

/-! ### The traversal comes to every node -/

theorem mem_setCaseNodes {c : SetExpr R × SetExpr R} {cases : List (SetExpr R × SetExpr R)}
    (h : c ∈ cases) : .set c.1 ∈ setCaseNodes cases ∧ .set c.2 ∈ setCaseNodes cases := by
  induction cases with
  | nil => simp at h
  | cons c' cases ih =>
    obtain ⟨set, expression⟩ := c'
    rw [setCaseNodes]
    rcases List.mem_cons.mp h with rfl | h
    · simp
    · simp [ih h]

/-- A child is visited. -/
theorem Node.Child.mem_nodes {a b : Node R} (h : a.Child b) : b ∈ a.nodes := by
  rw [Child] at h
  cases a with
  | real expr =>
    cases expr with
    | unaryOperation n op arg =>
      rw [List.mem_singleton.mp h]
      exact List.mem_cons_of_mem _ arg.mem_nodes
    | binaryOperation n op argA argB =>
      rcases List.mem_pair.mp h with rfl | rfl
      · exact List.mem_cons_of_mem _ (List.mem_append_left _ argA.mem_nodes)
      · exact List.mem_cons_of_mem _ (List.mem_append_right _ argB.mem_nodes)
    | listOperation n op args =>
      obtain ⟨arg, harg, rfl⟩ := List.mem_map.mp h
      exact List.mem_cons_of_mem _ (mem_realNodes harg)
    | caseDistinction n vars cases =>
      obtain ⟨c, hc, h⟩ := List.mem_flatMap.mp h
      obtain ⟨hset, hreal⟩ := mem_realCaseNodes hc
      rcases List.mem_pair.mp h with rfl | rfl
      · exact List.mem_cons_of_mem _ hset
      · exact List.mem_cons_of_mem _ hreal
    | real | polynomial | reference | var | unknown => exact absurd h (by simp [children])
  | set s =>
    cases s with
    | singleton n singleton =>
      obtain ⟨expr, hexpr, rfl⟩ := List.mem_map.mp h
      exact List.mem_cons_of_mem _ (mem_realNodes hexpr)
    | ball n center radius =>
      rcases List.mem_append.mp h with h | h
      · obtain ⟨expr, hexpr, rfl⟩ := List.mem_map.mp h
        exact List.mem_cons_of_mem _ (List.mem_append_left _ (mem_realNodes hexpr))
      · rw [List.mem_singleton.mp h]
        exact List.mem_cons_of_mem _ (List.mem_append_right _ radius.mem_nodes)
    | rectangle n rect =>
      obtain ⟨bound, hbound, h⟩ := List.mem_flatMap.mp h
      obtain ⟨hA, hB⟩ := mem_boundNodes hbound
      rcases List.mem_pair.mp h with rfl | rfl
      · exact List.mem_cons_of_mem _ hA
      · exact List.mem_cons_of_mem _ hB
    | convexPolytope n a b =>
      rcases List.mem_append.mp h with h | h
      · obtain ⟨expr, hexpr, rfl⟩ := List.mem_map.mp h
        obtain ⟨row, hrow, hexpr⟩ := List.mem_flatten.mp hexpr
        exact List.mem_cons_of_mem _ (List.mem_append_left _ (mem_matrixNodes hrow hexpr))
      · obtain ⟨expr, hexpr, rfl⟩ := List.mem_map.mp h
        exact List.mem_cons_of_mem _ (List.mem_append_right _ (mem_realNodes hexpr))
    | intersection n sets =>
      obtain ⟨set, hset, rfl⟩ := List.mem_map.mp h
      exact List.mem_cons_of_mem _ (mem_setNodes hset)
    | caseDistinction n vars cases =>
      obtain ⟨c, hc, h⟩ := List.mem_flatMap.mp h
      obtain ⟨hset, hexpr⟩ := mem_setCaseNodes hc
      rcases List.mem_pair.mp h with rfl | rfl
      · exact List.mem_cons_of_mem _ hset
      · exact List.mem_cons_of_mem _ hexpr
    | reference | unknown => exact absurd h (by simp [children])

theorem Node.downClosed (node : Node R) : DownClosed node.nodes := by
  cases node with
  | real expr => exact expr.downClosed
  | set s => exact s.downClosed

theorem Node.mem_nodes_self (node : Node R) : node ∈ node.nodes := by
  cases node with
  | real expr => exact expr.mem_nodes
  | set s => exact s.mem_nodes

/-- **The traversal comes to every node below, and to no other.** -/
theorem mem_nodes_iff {root node : Node R} : node ∈ root.nodes ↔ root.Descends node := by
  constructor
  · intro h
    cases root with
    | real expr => exact expr.descends h
    | set s => exact s.descends h
  · intro h
    induction h with
    | refl => exact root.mem_nodes_self
    | tail _ hchild ih => exact root.downClosed _ ih hchild.mem_nodes

/-- The nodes of an advertisement are those that occur in it. -/
theorem Advertisement.occurs_iff {adv : Advertisement R} {node : Node R} :
    adv.Occurs node ↔ node ∈ adv.nodes := by
  have hparts : adv.nodes = adv.parts.flatMap Node.nodes := by
    have hset : ∀ part : Option (SetExpr R),
        AdvFunc.partNodes SetExpr.nodes part = (part.toList.map Node.set).flatMap Node.nodes := by
      intro part
      cases part with
      | none => rfl
      | some s => simp [AdvFunc.partNodes, Node.nodes]
    have hreal : AdvFunc.partNodes RealExpr.nodes adv.costFunction
        = (adv.costFunction.toList.map Node.real).flatMap Node.nodes := by
      cases adv.costFunction with
      | none => rfl
      | some e => simp [AdvFunc.partNodes, Node.nodes]
    rw [nodes, parts, List.flatMap_append, List.flatMap_append, pQNodes, beliefNodes, costNodes,
      hset, hset, hreal, List.append_assoc]
  rw [hparts, List.mem_flatMap]
  exact exists_congr fun part => and_congr_right fun _ => mem_nodes_iff.symm

/-! ### The maps after a construction -/

namespace AdvFunc

theorem lastReal_eq (ns : List (Node R)) (n : String) :
    lastReal ns n = (ns.filterMap (Node.realNamed n)).getLast? := by
  rw [lastReal, ← List.head?_filterMap, List.filterMap_reverse, List.head?_reverse]

theorem lastSet_eq (ns : List (Node R)) (n : String) :
    lastSet ns n = (ns.filterMap (Node.setNamed n)).getLast? := by
  rw [lastSet, ← List.head?_filterMap, List.filterMap_reverse, List.head?_reverse]

/-- The maps hold what the advertisement names, and nothing else. -/
structure CollectsExactly (adv : Advertisement R) (af : AdvFunc R) : Prop where
  real_iff (n : String) : (af.realExprRefs n).isSome ↔
    ∃ e, adv.Occurs (.real e) ∧ e.name = some n
  set_iff (n : String) : (af.setExprRefs n).isSome ↔
    ∃ s, adv.Occurs (.set s) ∧ s.name = some n
  real_only (n : String) (e : RealExpr R) : adv.Occurs (.real e) → e.name = some n →
    (∀ e', adv.Occurs (.real e') → e'.name = some n → e' = e) → af.realExprRefs n = some e
  set_only (n : String) (s : SetExpr R) : adv.Occurs (.set s) → s.name = some n →
    (∀ s', adv.Occurs (.set s') → s'.name = some n → s' = s) → af.setExprRefs n = some s
  real_last (n : String) :
    af.realExprRefs n = (adv.nodes.filterMap (Node.realNamed n)).getLast?
  set_last (n : String) : af.setExprRefs n = (adv.nodes.filterMap (Node.setNamed n)).getLast?

/-- **The collection is complete and exact.** -/
theorem collection_exact {adv : Advertisement R} (h : adv.Collectable) :
    (new adv).1 = ok () ∧ CollectsExactly adv (new adv).2 := by
  have hnew : new adv = (ok (), collected adv.nodes { blank with adv := adv, advValid := true }) :=
    setAdv_of_collectable h blank
  have hreal : ∀ n, (new adv).2.realExprRefs n = lastReal adv.nodes n := by
    intro n
    rw [hnew]
    exact Option.or_none
  have hset : ∀ n, (new adv).2.setExprRefs n = lastSet adv.nodes n := by
    intro n
    rw [hnew]
    exact Option.or_none
  refine ⟨by rw [hnew], ?_⟩
  constructor
  · intro n
    rw [hreal, isSome_lastReal]
    exact exists_congr fun e => and_congr_left fun _ => Advertisement.occurs_iff.symm
  · intro n
    rw [hset, isSome_lastSet]
    exact exists_congr fun s => and_congr_left fun _ => Advertisement.occurs_iff.symm
  · intro n e hocc hname honly
    obtain ⟨e', he'⟩ := Option.isSome_iff_exists.mp
      (isSome_lastReal.mpr ⟨e, Advertisement.occurs_iff.mp hocc, hname⟩)
    obtain ⟨hmem, hname'⟩ := of_lastReal he'
    rw [hreal, he', honly e' (Advertisement.occurs_iff.mpr hmem) hname']
  · intro n s hocc hname honly
    obtain ⟨s', hs'⟩ := Option.isSome_iff_exists.mp
      (isSome_lastSet.mpr ⟨s, Advertisement.occurs_iff.mp hocc, hname⟩)
    obtain ⟨hmem, hname'⟩ := of_lastSet hs'
    rw [hset, hs', honly s' (Advertisement.occurs_iff.mpr hmem) hname']
  · intro n
    rw [hreal, lastReal_eq]
  · intro n
    rw [hset, lastSet_eq]

theorem collection_exact_sample :
    (new ownName).1 = ok () ∧ CollectsExactly ownName (new ownName).2 :=
  collection_exact collectable_ownName

/-! ### A collection that fails -/

theorem findReferencesPart_overflow {α : Type} {part : Option α} {nodes : α → List (Node R)}
    {find : α → Run (AdvFunc R) Err Unit} (hfind : ∀ x, find x = visitAll (nodes x))
    {af : AdvFunc R} (h0 : af.nestingDepth = 0)
    (hlt : MAX_NESTING_DEPTH < (partNodes nodes part).length) :
    findReferencesPart part find af = (.throw maxNesting,
      { stored ((partNodes nodes part).take MAX_NESTING_DEPTH) af with
        nestingDepth := MAX_NESTING_DEPTH + 1 }) := by
  cases part with
  | none => exact absurd hlt (Nat.not_lt_zero _)
  | some x =>
    have hvisit : find x af = (.throw maxNesting,
        { stored ((nodes x).take MAX_NESTING_DEPTH) af with
          nestingDepth := MAX_NESTING_DEPTH + 1 }) := by
      rw [hfind, visitAll_overflow, h0, Nat.sub_zero]
      · rwa [h0, Nat.zero_add]
      · rw [h0]
        exact Nat.zero_le _
    rw [findReferencesPart, Run.bind_throw hvisit]
    rfl

end AdvFunc

/-- The nodes that are stored before the exception. -/
def Advertisement.storedNodes (adv : Advertisement R) : List (Node R) :=
  if MAX_NESTING_DEPTH < adv.pQNodes.length then adv.pQNodes.take MAX_NESTING_DEPTH
  else if MAX_NESTING_DEPTH < adv.beliefNodes.length then
    adv.pQNodes ++ adv.beliefNodes.take MAX_NESTING_DEPTH
  else adv.pQNodes ++ (adv.beliefNodes ++ adv.costNodes.take MAX_NESTING_DEPTH)

namespace AdvFunc

theorem stored_collected (ms ns : List (Node R)) (af : AdvFunc R) (depth : ℕ) :
    ({ stored ns (collected ms af) with nestingDepth := depth } : AdvFunc R)
      = { stored (ms ++ ns) af with nestingDepth := depth } := by
  simp only [collected, stored, lastReal_append, lastSet_append, Option.or_assoc]

/-- **What a failed `setAdv` leaves behind.** -/
theorem setAdv_of_not_collectable {adv : Advertisement R} (h : ¬ adv.Collectable)
    (af : AdvFunc R) :
    setAdv adv af = (.throw maxNesting,
      { stored adv.storedNodes { af with adv := adv, advValid := true } with
        nestingDepth := MAX_NESTING_DEPTH + 1 }) := by
  let af₀ : AdvFunc R := { af with adv := adv, advValid := true, nestingDepth := 0 }
  have hreset : resetDepth { af with adv := adv, advValid := true } = (ok (), af₀) := rfl
  rw [setAdv, findReferences, Run.bind_ok hreset, Advertisement.storedNodes]
  -- the first part with too many nodes throws
  by_cases hpq : MAX_NESTING_DEPTH < adv.pQNodes.length
  · rw [if_pos hpq, Run.bind_throw (findReferencesPart_overflow findReferencesSet_eq rfl hpq)]
    rfl
  rw [if_neg hpq,
    Run.bind_ok (findReferencesPart_of_le findReferencesSet_eq rfl (not_lt.mp hpq))]
  by_cases hbelief : MAX_NESTING_DEPTH < adv.beliefNodes.length
  · rw [if_pos hbelief,
      Run.bind_throw (findReferencesPart_overflow findReferencesSet_eq rfl hbelief)]
    exact congrArg (Prod.mk _) (stored_collected _ _ af₀ _)
  have hcost : MAX_NESTING_DEPTH < adv.costNodes.length := by
    by_contra hle
    exact h ⟨not_lt.mp hpq, not_lt.mp hbelief, not_lt.mp hle⟩
  rw [if_neg hbelief,
    Run.bind_ok (findReferencesPart_of_le findReferencesSet_eq rfl (not_lt.mp hbelief)),
    findReferencesPart_overflow findReferencesReal_eq rfl hcost, collected_append]
  refine congrArg (Prod.mk _) ?_
  rw [← List.append_assoc]
  exact stored_collected _ _ af₀ _

/-- The object is as it was before, or holds no valid advertisement. -/
def Usable (before after : AdvFunc R) : Prop :=
  after.advValid = false ∨
    after.advValid = before.advValid ∧ after.adv = before.adv ∧
      after.realExprRefs = before.realExprRefs ∧ after.setExprRefs = before.setExprRefs

/-- **When a failed `setAdv` leaves a usable object**: the object held the same
advertisement, as a valid one, and every name met before the exception already stood for
the last node with this name.  An object that was never set, or whose advertisement was
collected without an exception, is never left so. -/
theorem usable_iff {adv : Advertisement R} {af : AdvFunc R} {e : Err}
    (h : (setAdv adv af).1 = .throw e) :
    (Usable af (setAdv adv af).2 ↔ af.advValid = true ∧ af.adv = adv ∧
      (∀ n e, lastReal adv.storedNodes n = some e → af.realExprRefs n = some e) ∧
      ∀ n s, lastSet adv.storedNodes n = some s → af.setExprRefs n = some s) ∧
    (af.advValid = false ∨ af.adv.Collectable → ¬ Usable af (setAdv adv af).2) := by
  have hcol : ¬ adv.Collectable := by
    intro hcol
    rw [setAdv_of_collectable hcol] at h
    simp at h
  have hor : ∀ {α : Type} {f g : String → Option α},
      (fun n => (f n).or (g n)) = g ↔ ∀ n a, f n = some a → g n = some a := by
    intro α f g
    constructor
    · intro heq n a hn
      have := congrFun heq n
      rw [hn] at this
      exact this.symm
    · intro hsub
      funext n
      rcases hn : f n with - | a
      · rfl
      · exact (hsub n a hn).symm
  have hiff : Usable af (setAdv adv af).2 ↔ af.advValid = true ∧ af.adv = adv ∧
      (∀ n e, lastReal adv.storedNodes n = some e → af.realExprRefs n = some e) ∧
      ∀ n s, lastSet adv.storedNodes n = some s → af.setExprRefs n = some s := by
    -- the object is valid and holds the new advertisement
    obtain ⟨after, hafter, hvalid, hadv, hreals, hsets⟩ : ∃ after, (setAdv adv af).2 = after ∧
        after.advValid = true ∧ after.adv = adv ∧
        after.realExprRefs = (fun n => (lastReal adv.storedNodes n).or (af.realExprRefs n)) ∧
        after.setExprRefs = fun n => (lastSet adv.storedNodes n).or (af.setExprRefs n) := by
      rw [setAdv_of_not_collectable hcol]
      exact ⟨_, rfl, rfl, rfl, rfl, rfl⟩
    rw [hafter, Usable, hvalid, hadv, hreals, hsets, hor, hor, eq_comm (b := af.advValid),
      eq_comm (b := af.adv)]
    exact or_iff_right (by simp)
  refine ⟨hiff, fun hbefore husable => ?_⟩
  obtain ⟨hvalid, rfl, -⟩ := hiff.mp husable
  rcases hbefore with hfalse | hcollected
  · rw [hvalid] at hfalse
    exact Bool.true_eq_false.mp hfalse
  · exact hcol hcollected

/-- A cost function with too many nodes. -/
def wideCost : Advertisement ℝ := costAdv wideSum

theorem setAdv_wideCost (af : AdvFunc ℝ) : setAdv wideCost af = (.throw maxNesting,
    { stored wideCost.storedNodes { af with adv := wideCost, advValid := true } with
      nestingDepth := MAX_NESTING_DEPTH + 1 }) := by
  refine setAdv_of_not_collectable ?_ af
  rintro ⟨-, -, hcost⟩
  have hlen : wideCost.costNodes.length = MAX_NESTING_DEPTH + 1 := by
    show (RealExpr.nodes wideSum).length = _
    rw [wideSum, RealExpr.nodes, List.length_cons, realNodes_replicate]
  omega

theorem usable_sample : ¬ Usable (new namedFive).2 (setAdv wideCost (new namedFive).2).2 :=
  (usable_iff (congrArg Prod.fst (setAdv_wideCost _))).2 (Or.inr collectable_namedFive)

/-- After a failed construction the object counts as valid, and answers queries. -/
theorem failed_setAdv_valid :
    (setAdv wideCost blank).1 = .throw maxNesting ∧
    (setAdv wideCost blank).2.advValid = true ∧ (setAdv wideCost blank).2.adv = wideCost ∧
    ¬ Usable blank (setAdv wideCost blank).2 ∧
    (evaluate 1 (.real none 7) (bindPQ 0 0) (setAdv wideCost blank).2).1 = ok 7 := by
  rw [setAdv_wideCost]
  refine ⟨rfl, rfl, rfl, fun h => ?_, rfl⟩
  rcases h with h | ⟨h, -⟩
  · exact Bool.true_eq_false.mp h
  · exact Bool.true_eq_false.mp h

end AdvFunc

end Commelec
