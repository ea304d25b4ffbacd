/-
Commelec/References.lean

What `findReferences` collects.

The recursive traversal visits the nodes of a message in preorder (`RealExpr.nodes`,
`SetExpr.nodes`), counting each and storing those that carry a name
(`findReferencesReal_eq`).  So the map of named expressions holds the last node of each
name, and keeps what it held before under all other names (`visitAll_of_le`); the
collection succeeds when no part of the advertisement has more than `MAX_NESTING_DEPTH`
nodes (`setAdv_of_collectable`).
-/
import Commelec.AdvFunc

namespace Commelec

open Effectful Outcome

variable {R : Type}

/-- A node of a message. -/
inductive Node (R : Type) where
  | real (expr : RealExpr R)
  | set (set : SetExpr R)

mutual

/-- The nodes that `findReferences(RealExpr)` visits, in this order. -/
def RealExpr.nodes (expr : RealExpr R) : List (Node R) :=
  .real expr ::
    match expr with
    | .unaryOperation _ _ arg => arg.nodes
    | .binaryOperation _ _ argA argB => argA.nodes ++ argB.nodes
    | .listOperation _ _ args => realNodes args
    | .caseDistinction _ _ cases => realCaseNodes cases
    | _ => []

/-- The nodes that `findReferences(SetExpr)` visits. -/
def SetExpr.nodes (set : SetExpr R) : List (Node R) :=
  .set set ::
    match set with
    | .singleton _ singleton => realNodes singleton
    | .ball _ center radius => realNodes center ++ radius.nodes
    | .rectangle _ rect => boundNodes rect
    | .convexPolytope _ a b => matrixNodes a ++ realNodes b
    | .intersection _ sets => setNodes sets
    | .caseDistinction _ _ cases => setCaseNodes cases
    | _ => []

def realNodes : List (RealExpr R) → List (Node R)
  | [] => []
  | expr :: exprs => expr.nodes ++ realNodes exprs

def matrixNodes : List (List (RealExpr R)) → List (Node R)
  | [] => []
  | list :: a => realNodes list ++ matrixNodes a

def boundNodes : List (RealExpr R × RealExpr R) → List (Node R)
  | [] => []
  | (boundA, boundB) :: rect => boundA.nodes ++ (boundB.nodes ++ boundNodes rect)

def setNodes : List (SetExpr R) → List (Node R)
  | [] => []
  | set :: sets => set.nodes ++ setNodes sets

def realCaseNodes : List (SetExpr R × RealExpr R) → List (Node R)
  | [] => []
  | (set, expression) :: cases => set.nodes ++ (expression.nodes ++ realCaseNodes cases)

def setCaseNodes : List (SetExpr R × SetExpr R) → List (Node R)
  | [] => []
  | (set, expression) :: cases => set.nodes ++ (expression.nodes ++ setCaseNodes cases)

end

namespace Node

/-- The node with all below it. -/
def nodes : Node R → List (Node R)
  | real expr => expr.nodes
  | set s => s.nodes

/-- The name of a real expression. -/
def realNamed (n : String) : Node R → Option (RealExpr R)
  | real expr => if expr.name = some n then some expr else none
  | set _ => none

def setNamed (n : String) : Node R → Option (SetExpr R)
  | real _ => none
  | set s => if s.name = some n then some s else none

end Node

namespace AdvFunc

/-! ### The traversal -/

/-- Store a node under its name, if it has one. -/
def storeNode : Node R → Run (AdvFunc R) Err Unit
  | .real expr => storeReal expr
  | .set set => storeSet set

/-- Visit the nodes of a list. -/
def visitAll : List (Node R) → Run (AdvFunc R) Err Unit
  | [] => pure ()
  | node :: nodes => do
    enter
    storeNode node
    visitAll nodes

theorem visitAll_append (ms ns : List (Node R)) :
    visitAll (ms ++ ns) = visitAll ms >>= fun _ => visitAll ns := by
  induction ms with
  | nil => rfl
  | cons m ms ih =>
    rw [List.cons_append, visitAll, visitAll, ih, Run.bind_assoc]
    refine congrArg (enter >>= ·) (funext fun _ => ?_)
    rw [Run.bind_assoc]

/-- One step of the traversal, at a real expression. -/
theorem visitAll_real {expr : RealExpr R} {ns : List (Node R)} {rest : Run (AdvFunc R) Err Unit}
    (h : rest = visitAll ns) :
    (enter >>= fun _ => storeReal expr >>= fun _ => rest) = visitAll (.real expr :: ns) := by
  rw [h, visitAll, storeNode]

theorem visitAll_set {set : SetExpr R} {ns : List (Node R)} {rest : Run (AdvFunc R) Err Unit}
    (h : rest = visitAll ns) :
    (enter >>= fun _ => storeSet set >>= fun _ => rest) = visitAll (.set set :: ns) := by
  rw [h, visitAll, storeNode]

mutual

theorem findReferencesReal_eq (expr : RealExpr R) :
    findReferencesReal expr = visitAll expr.nodes := by
  cases expr with
  | unaryOperation n op arg =>
    rw [findReferencesReal, RealExpr.nodes]
    exact visitAll_real (findReferencesReal_eq arg)
  | binaryOperation n op argA argB =>
    rw [findReferencesReal, RealExpr.nodes]
    apply visitAll_real
    rw [visitAll_append, findReferencesReal_eq argA, findReferencesReal_eq argB]
  | listOperation n op args =>
    rw [findReferencesReal, RealExpr.nodes]
    exact visitAll_real (findReferencesReals_eq args)
  | caseDistinction n vars cases =>
    rw [findReferencesReal, RealExpr.nodes]
    exact visitAll_real (findReferencesRealCases_eq cases)
  | real | polynomial | reference | var | unknown => exact visitAll_real rfl

theorem findReferencesSet_eq (set : SetExpr R) : findReferencesSet set = visitAll set.nodes := by
  cases set with
  | singleton n singleton =>
    rw [findReferencesSet, SetExpr.nodes]
    exact visitAll_set (findReferencesReals_eq singleton)
  | ball n center radius =>
    rw [findReferencesSet, SetExpr.nodes]
    apply visitAll_set
    rw [visitAll_append, findReferencesReals_eq center, findReferencesReal_eq radius]
  | rectangle n rect =>
    rw [findReferencesSet, SetExpr.nodes]
    exact visitAll_set (findReferencesBounds_eq rect)
  | convexPolytope n a b =>
    rw [findReferencesSet, SetExpr.nodes]
    apply visitAll_set
    rw [visitAll_append, findReferencesMatrix_eq a, findReferencesReals_eq b]
  | intersection n sets =>
    rw [findReferencesSet, SetExpr.nodes]
    exact visitAll_set (findReferencesSets_eq sets)
  | caseDistinction n vars cases =>
    rw [findReferencesSet, SetExpr.nodes]
    exact visitAll_set (findReferencesSetCases_eq cases)
  | reference | unknown => exact visitAll_set rfl

theorem findReferencesReals_eq (exprs : List (RealExpr R)) :
    findReferencesReals exprs = visitAll (realNodes exprs) := by
  cases exprs with
  | nil => rfl
  | cons expr exprs =>
    rw [findReferencesReals, realNodes, visitAll_append, findReferencesReal_eq expr,
      findReferencesReals_eq exprs]

theorem findReferencesMatrix_eq (a : List (List (RealExpr R))) :
    findReferencesMatrix a = visitAll (matrixNodes a) := by
  cases a with
  | nil => rfl
  | cons list a =>
    rw [findReferencesMatrix, matrixNodes, visitAll_append, findReferencesReals_eq list,
      findReferencesMatrix_eq a]

theorem findReferencesBounds_eq (rect : List (RealExpr R × RealExpr R)) :
    findReferencesBounds rect = visitAll (boundNodes rect) := by
  cases rect with
  | nil => rfl
  | cons bound rect =>
    obtain ⟨boundA, boundB⟩ := bound
    rw [findReferencesBounds, boundNodes, visitAll_append, visitAll_append,
      findReferencesReal_eq boundA, findReferencesReal_eq boundB, findReferencesBounds_eq rect]

theorem findReferencesSets_eq (sets : List (SetExpr R)) :
    findReferencesSets sets = visitAll (setNodes sets) := by
  cases sets with
  | nil => rfl
  | cons set sets =>
    rw [findReferencesSets, setNodes, visitAll_append, findReferencesSet_eq set,
      findReferencesSets_eq sets]

theorem findReferencesRealCases_eq (cases : List (SetExpr R × RealExpr R)) :
    findReferencesRealCases cases = visitAll (realCaseNodes cases) := by
  cases cases with
  | nil => rfl
  | cons c cases =>
    obtain ⟨set, expression⟩ := c
    rw [findReferencesRealCases, realCaseNodes, visitAll_append, visitAll_append,
      findReferencesSet_eq set, findReferencesReal_eq expression,
      findReferencesRealCases_eq cases]

theorem findReferencesSetCases_eq (cases : List (SetExpr R × SetExpr R)) :
    findReferencesSetCases cases = visitAll (setCaseNodes cases) := by
  cases cases with
  | nil => rfl
  | cons c cases =>
    obtain ⟨set, expression⟩ := c
    rw [findReferencesSetCases, setCaseNodes, visitAll_append, visitAll_append,
      findReferencesSet_eq set, findReferencesSet_eq expression,
      findReferencesSetCases_eq cases]

end

/-! ### What is stored -/

/-- The last node that carries the name. -/
def lastReal (ns : List (Node R)) (n : String) : Option (RealExpr R) :=
  ns.reverse.findSome? (Node.realNamed n)

def lastSet (ns : List (Node R)) (n : String) : Option (SetExpr R) :=
  ns.reverse.findSome? (Node.setNamed n)

theorem lastReal_cons (node : Node R) (ns : List (Node R)) (n : String) :
    lastReal (node :: ns) n = (lastReal ns n).or (node.realNamed n) := by
  rw [lastReal, List.reverse_cons, List.findSome?_append, lastReal, List.findSome?_singleton]

theorem lastSet_cons (node : Node R) (ns : List (Node R)) (n : String) :
    lastSet (node :: ns) n = (lastSet ns n).or (node.setNamed n) := by
  rw [lastSet, List.reverse_cons, List.findSome?_append, lastSet, List.findSome?_singleton]

/-- The object after the nodes have been stored, one visit each. -/
def stored (ns : List (Node R)) (af : AdvFunc R) : AdvFunc R :=
  { af with
    nestingDepth := af.nestingDepth + ns.length
    realExprRefs := fun n => (lastReal ns n).or (af.realExprRefs n)
    setExprRefs := fun n => (lastSet ns n).or (af.setExprRefs n) }

theorem storeNode_apply (node : Node R) (af : AdvFunc R) :
    storeNode node af = (ok (), { af with
      realExprRefs := fun n => (node.realNamed n).or (af.realExprRefs n)
      setExprRefs := fun n => (node.setNamed n).or (af.setExprRefs n) }) := by
  cases node with
  | real expr =>
    rw [storeNode, storeReal]
    rcases h : expr.name with - | m
    · simp [Node.realNamed, Node.setNamed, h]
    · have hmap : Function.update af.realExprRefs m (some expr)
          = fun n => (Node.realNamed n (.real expr)).or (af.realExprRefs n) := by
        funext n
        by_cases hn : n = m
        · subst hn
          simp [Node.realNamed, h]
        · simp [Node.realNamed, h, Function.update_of_ne hn, Ne.symm hn]
      simp [hmap, Node.setNamed]
  | set set =>
    rw [storeNode, storeSet]
    rcases h : set.name with - | m
    · simp [Node.realNamed, Node.setNamed, h]
    · have hmap : Function.update af.setExprRefs m (some set)
          = fun n => (Node.setNamed n (.set set)).or (af.setExprRefs n) := by
        funext n
        by_cases hn : n = m
        · subst hn
          simp [Node.setNamed, h]
        · simp [Node.setNamed, h, Function.update_of_ne hn, Ne.symm hn]
      simp [hmap, Node.realNamed]

theorem enter_of_lt {af : AdvFunc R} (h : af.nestingDepth < MAX_NESTING_DEPTH) :
    enter af = (ok (), { af with nestingDepth := af.nestingDepth + 1 }) := by
  rw [enter, if_neg (not_lt.mpr h)]

theorem enter_of_le {af : AdvFunc R} (h : MAX_NESTING_DEPTH ≤ af.nestingDepth) :
    enter af = (.throw maxNesting, { af with nestingDepth := af.nestingDepth + 1 }) := by
  rw [enter, if_pos (Nat.lt_succ_of_le h)]

/-- **What a traversal stores**, if there are not too many nodes. -/
theorem visitAll_of_le {ns : List (Node R)} {af : AdvFunc R}
    (h : af.nestingDepth + ns.length ≤ MAX_NESTING_DEPTH) :
    visitAll ns af = (ok (), stored ns af) := by
  induction ns generalizing af with
  | nil => rfl
  | cons node ns ih =>
    rw [List.length_cons] at h
    rw [visitAll, Run.bind_ok (enter_of_lt (by omega)), Run.bind_ok (storeNode_apply _ _), ih]
    · simp only [stored, lastReal_cons, lastSet_cons, Option.or_assoc, List.length_cons]
      rw [Nat.add_assoc, Nat.add_comm 1]
    · show af.nestingDepth + 1 + ns.length ≤ _
      omega

/-- A traversal that comes to too many nodes has stored the first of them. -/
theorem visitAll_overflow {ns : List (Node R)} {af : AdvFunc R}
    (h : MAX_NESTING_DEPTH < af.nestingDepth + ns.length)
    (hle : af.nestingDepth ≤ MAX_NESTING_DEPTH) :
    visitAll ns af = (.throw maxNesting,
      { stored (ns.take (MAX_NESTING_DEPTH - af.nestingDepth)) af with
        nestingDepth := MAX_NESTING_DEPTH + 1 }) := by
  induction ns generalizing af with
  | nil =>
    rw [List.length_nil] at h
    omega
  | cons node ns ih =>
    rw [List.length_cons] at h
    rcases Nat.lt_or_ge af.nestingDepth MAX_NESTING_DEPTH with hlt | hge
    · have hsub : MAX_NESTING_DEPTH - af.nestingDepth
          = MAX_NESTING_DEPTH - (af.nestingDepth + 1) + 1 := by omega
      rw [visitAll, Run.bind_ok (enter_of_lt hlt), Run.bind_ok (storeNode_apply _ _), ih, hsub,
        List.take_succ_cons]
      · simp only [stored, lastReal_cons, lastSet_cons, Option.or_assoc]
      · show _ < af.nestingDepth + 1 + ns.length
        omega
      · exact hlt
    · -- the next node is one too many
      obtain hdepth : af.nestingDepth = MAX_NESTING_DEPTH := le_antisymm hle hge
      rw [visitAll, Run.bind_throw (enter_of_le hge), hdepth, Nat.sub_self, List.take_zero]
      rfl

theorem visitAll_of_lt {ns : List (Node R)} {af : AdvFunc R}
    (h : MAX_NESTING_DEPTH < af.nestingDepth + ns.length)
    (hle : af.nestingDepth ≤ MAX_NESTING_DEPTH) :
    (visitAll ns af).1 = .throw maxNesting :=
  congrArg Prod.fst (visitAll_overflow h hle)

theorem lastReal_append (ms ns : List (Node R)) (n : String) :
    lastReal (ms ++ ns) n = (lastReal ns n).or (lastReal ms n) := by
  rw [lastReal, List.reverse_append, List.findSome?_append]
  rfl

theorem lastSet_append (ms ns : List (Node R)) (n : String) :
    lastSet (ms ++ ns) n = (lastSet ns n).or (lastSet ms n) := by
  rw [lastSet, List.reverse_append, List.findSome?_append]
  rfl

theorem of_lastReal {ns : List (Node R)} {n : String} {e : RealExpr R}
    (h : lastReal ns n = some e) : .real e ∈ ns ∧ e.name = some n := by
  obtain ⟨node, hmem, hnamed⟩ := List.exists_of_findSome?_eq_some h
  cases node with
  | real expr =>
    rw [Node.realNamed] at hnamed
    split at hnamed
    · next hname =>
      obtain rfl := Option.some.inj hnamed
      exact ⟨List.mem_reverse.mp hmem, hname⟩
    · exact absurd hnamed (by simp)
  | set s => exact absurd hnamed (by simp [Node.realNamed])

theorem of_lastSet {ns : List (Node R)} {n : String} {s : SetExpr R}
    (h : lastSet ns n = some s) : .set s ∈ ns ∧ s.name = some n := by
  obtain ⟨node, hmem, hnamed⟩ := List.exists_of_findSome?_eq_some h
  cases node with
  | real expr => exact absurd hnamed (by simp [Node.setNamed])
  | set s =>
    rw [Node.setNamed] at hnamed
    split at hnamed
    · next hname =>
      obtain rfl := Option.some.inj hnamed
      exact ⟨List.mem_reverse.mp hmem, hname⟩
    · exact absurd hnamed (by simp)

theorem isSome_lastReal {ns : List (Node R)} {n : String} :
    (lastReal ns n).isSome ↔ ∃ e, .real e ∈ ns ∧ e.name = some n := by
  constructor
  · intro h
    obtain ⟨e, he⟩ := Option.isSome_iff_exists.mp h
    exact ⟨e, of_lastReal he⟩
  · rintro ⟨e, hmem, hname⟩
    rw [lastReal, List.findSome?_isSome_iff]
    exact ⟨.real e, List.mem_reverse.mpr hmem, by simp [Node.realNamed, hname]⟩

theorem isSome_lastSet {ns : List (Node R)} {n : String} :
    (lastSet ns n).isSome ↔ ∃ s, .set s ∈ ns ∧ s.name = some n := by
  constructor
  · intro h
    obtain ⟨s, hs⟩ := Option.isSome_iff_exists.mp h
    exact ⟨s, of_lastSet hs⟩
  · rintro ⟨s, hmem, hname⟩
    rw [lastSet, List.findSome?_isSome_iff]
    exact ⟨.set s, List.mem_reverse.mpr hmem, by simp [Node.setNamed, hname]⟩

/-! ### Advertisements -/

/-- The object after a part of an advertisement has been collected. -/
def collected (ns : List (Node R)) (af : AdvFunc R) : AdvFunc R :=
  { stored ns af with nestingDepth := 0 }

theorem collected_append (ms ns : List (Node R)) (af : AdvFunc R) :
    collected ns (collected ms af) = collected (ms ++ ns) af := by
  simp only [collected, stored, lastReal_append, lastSet_append, Option.or_assoc]

/-- The nodes of a part. -/
def partNodes {α : Type} (nodes : α → List (Node R)) (part : Option α) : List (Node R) :=
  part.elim [] nodes

theorem findReferencesPart_of_le {α : Type} {part : Option α} {nodes : α → List (Node R)}
    {find : α → Run (AdvFunc R) Err Unit} (hfind : ∀ x, find x = visitAll (nodes x))
    {af : AdvFunc R} (h0 : af.nestingDepth = 0)
    (hle : (partNodes nodes part).length ≤ MAX_NESTING_DEPTH) :
    findReferencesPart part find af = (ok (), collected (partNodes nodes part) af) := by
  cases part with
  | none =>
    obtain ⟨⟨depth, sets, printed⟩, adv, valid, bv, reals⟩ := af
    obtain rfl : depth = 0 := h0
    rfl
  | some x =>
    have hvisit : find x af = (ok (), stored (nodes x) af) := by
      rw [hfind, visitAll_of_le]
      rw [h0, Nat.zero_add]
      exact hle
    rw [findReferencesPart, Run.bind_ok hvisit]
    rfl

/-- A part that is collected does not have too many nodes. -/
theorem of_findReferencesPart {α : Type} {part : Option α} {nodes : α → List (Node R)}
    {find : α → Run (AdvFunc R) Err Unit} (hfind : ∀ x, find x = visitAll (nodes x))
    {af af' : AdvFunc R} (h0 : af.nestingDepth = 0)
    (h : findReferencesPart part find af = (ok (), af')) :
    (partNodes nodes part).length ≤ MAX_NESTING_DEPTH ∧ af'.nestingDepth = 0 := by
  have hle : (partNodes nodes part).length ≤ MAX_NESTING_DEPTH := by
    cases part with
    | none => exact Nat.zero_le _
    | some x =>
      by_contra hlt
      have hthrow : (find x af).1 = .throw maxNesting := by
        rw [hfind, visitAll_of_lt]
        · rw [h0, Nat.zero_add]
          exact not_le.mp hlt
        · rw [h0]
          exact Nat.zero_le _
      obtain ⟨u, s, hx, -⟩ := Run.of_bind_ok (congrArg Prod.fst h)
      rw [hx] at hthrow
      exact absurd hthrow (by simp)
  refine ⟨hle, ?_⟩
  rw [findReferencesPart_of_le hfind h0 hle] at h
  obtain rfl : collected (partNodes nodes part) af = af' := congrArg Prod.snd h
  rfl

end AdvFunc

namespace Advertisement

variable (adv : Advertisement R)

def pQNodes : List (Node R) := AdvFunc.partNodes SetExpr.nodes adv.pQProfile

def beliefNodes : List (Node R) := AdvFunc.partNodes SetExpr.nodes adv.beliefFunction

def costNodes : List (Node R) := AdvFunc.partNodes RealExpr.nodes adv.costFunction

/-- All nodes, in the order in which they are visited. -/
def nodes : List (Node R) := adv.pQNodes ++ (adv.beliefNodes ++ adv.costNodes)

/-- No part has too many nodes. -/
def Collectable : Prop :=
  adv.pQNodes.length ≤ MAX_NESTING_DEPTH ∧ adv.beliefNodes.length ≤ MAX_NESTING_DEPTH ∧
    adv.costNodes.length ≤ MAX_NESTING_DEPTH

end Advertisement

namespace AdvFunc

/-- **`setAdv`** adds the names of the advertisement to those that are there. -/
theorem setAdv_of_collectable {adv : Advertisement R} (h : adv.Collectable)
    (af : AdvFunc R) :
    setAdv adv af = (ok (), collected adv.nodes { af with adv := adv, advValid := true }) := by
  obtain ⟨hpq, hbelief, hcost⟩ := h
  let af₀ : AdvFunc R := { af with adv := adv, advValid := true, nestingDepth := 0 }
  have hreset : resetDepth { af with adv := adv, advValid := true } = (ok (), af₀) := rfl
  rw [setAdv, findReferences, Run.bind_ok hreset,
    Run.bind_ok (findReferencesPart_of_le findReferencesSet_eq rfl hpq),
    Run.bind_ok (findReferencesPart_of_le findReferencesSet_eq rfl hbelief),
    findReferencesPart_of_le findReferencesReal_eq rfl hcost, collected_append,
    collected_append]
  rfl

/-- It returns normally only if no part has too many nodes. -/
theorem collectable_of_setAdv {adv : Advertisement R} {af : AdvFunc R}
    (h : (setAdv adv af).1 = ok ()) : adv.Collectable := by
  let af₀ : AdvFunc R := { af with adv := adv, advValid := true, nestingDepth := 0 }
  have hreset : resetDepth { af with adv := adv, advValid := true } = (ok (), af₀) := rfl
  rw [setAdv, findReferences, Run.bind_ok hreset] at h
  obtain ⟨⟨⟩, af₁, hpq, h⟩ := Run.of_bind_ok h
  obtain ⟨⟨⟩, af₂, hbelief, h⟩ := Run.of_bind_ok h
  obtain ⟨hpq, h₁⟩ := of_findReferencesPart findReferencesSet_eq rfl hpq
  obtain ⟨hbelief, h₂⟩ := of_findReferencesPart findReferencesSet_eq h₁ hbelief
  exact ⟨hpq, hbelief, (of_findReferencesPart findReferencesReal_eq h₂ (Prod.ext h rfl)).1⟩

end AdvFunc

/-! ### Parts of a message are among its nodes -/

/-- With a node, the list has all nodes below it. -/
def DownClosed (ns : List (Node R)) : Prop := ∀ node ∈ ns, node.nodes ⊆ ns

namespace DownClosed

theorem nil : DownClosed ([] : List (Node R)) := fun _ h => absurd h (by simp)

theorem append {ms ns : List (Node R)} (hm : DownClosed ms) (hn : DownClosed ns) :
    DownClosed (ms ++ ns) := by
  intro node h
  rcases List.mem_append.mp h with h | h
  · exact List.Subset.trans (hm node h) (List.subset_append_left ms ns)
  · exact List.Subset.trans (hn node h) (List.subset_append_right ms ns)

theorem cons {node : Node R} {ns : List (Node R)} (hnode : node.nodes = node :: ns)
    (h : DownClosed ns) : DownClosed (node :: ns) := by
  intro node' h'
  rcases List.mem_cons.mp h' with rfl | h'
  · rw [hnode]
    exact fun _ h => h
  · exact List.Subset.trans (h node' h') (List.subset_cons_self node ns)

end DownClosed

mutual

theorem RealExpr.downClosed (expr : RealExpr R) : DownClosed expr.nodes := by
  cases expr with
  | unaryOperation n op arg => exact .cons rfl arg.downClosed
  | binaryOperation n op argA argB => exact .cons rfl (argA.downClosed.append argB.downClosed)
  | listOperation n op args => exact .cons rfl (downClosed_realNodes args)
  | caseDistinction n vars cases => exact .cons rfl (downClosed_realCaseNodes cases)
  | real | polynomial | reference | var | unknown => exact .cons rfl .nil

theorem SetExpr.downClosed (set : SetExpr R) : DownClosed set.nodes := by
  cases set with
  | singleton n singleton => exact .cons rfl (downClosed_realNodes singleton)
  | ball n center radius =>
    exact .cons rfl ((downClosed_realNodes center).append radius.downClosed)
  | rectangle n rect => exact .cons rfl (downClosed_boundNodes rect)
  | convexPolytope n a b =>
    exact .cons rfl ((downClosed_matrixNodes a).append (downClosed_realNodes b))
  | intersection n sets => exact .cons rfl (downClosed_setNodes sets)
  | caseDistinction n vars cases => exact .cons rfl (downClosed_setCaseNodes cases)
  | reference | unknown => exact .cons rfl .nil

theorem downClosed_realNodes (exprs : List (RealExpr R)) : DownClosed (realNodes exprs) := by
  cases exprs with
  | nil => exact .nil
  | cons expr exprs => exact expr.downClosed.append (downClosed_realNodes exprs)

theorem downClosed_matrixNodes (a : List (List (RealExpr R))) :
    DownClosed (matrixNodes a) := by
  cases a with
  | nil => exact .nil
  | cons list a => exact (downClosed_realNodes list).append (downClosed_matrixNodes a)

theorem downClosed_boundNodes (rect : List (RealExpr R × RealExpr R)) :
    DownClosed (boundNodes rect) := by
  cases rect with
  | nil => exact .nil
  | cons bound rect =>
    obtain ⟨boundA, boundB⟩ := bound
    exact boundA.downClosed.append (boundB.downClosed.append (downClosed_boundNodes rect))

theorem downClosed_setNodes (sets : List (SetExpr R)) : DownClosed (setNodes sets) := by
  cases sets with
  | nil => exact .nil
  | cons set sets => exact set.downClosed.append (downClosed_setNodes sets)

theorem downClosed_realCaseNodes (cases : List (SetExpr R × RealExpr R)) :
    DownClosed (realCaseNodes cases) := by
  cases cases with
  | nil => exact .nil
  | cons c cases =>
    obtain ⟨set, expression⟩ := c
    exact set.downClosed.append
      (expression.downClosed.append (downClosed_realCaseNodes cases))

theorem downClosed_setCaseNodes (cases : List (SetExpr R × SetExpr R)) :
    DownClosed (setCaseNodes cases) := by
  cases cases with
  | nil => exact .nil
  | cons c cases =>
    obtain ⟨set, expression⟩ := c
    exact set.downClosed.append
      (expression.downClosed.append (downClosed_setCaseNodes cases))

end

theorem Advertisement.downClosed (adv : Advertisement R) : DownClosed adv.nodes := by
  have hpart : ∀ {α : Type} {nodes : α → List (Node R)} (part : Option α),
      (∀ x, DownClosed (nodes x)) → DownClosed (AdvFunc.partNodes nodes part) := by
    intro α nodes part h
    cases part with
    | none => exact .nil
    | some x => exact h x
  exact (hpart _ SetExpr.downClosed).append
    ((hpart _ SetExpr.downClosed).append (hpart _ RealExpr.downClosed))

end Commelec
