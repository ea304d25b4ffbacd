/-
Commelec/Inlining.lean

References to named real expressions are transparent.

`RealExpr.subst f` replaces references by the expressions that `f` gives for their names, in
an expression and in the sets of its case distinctions.  If these have the value and the
derivatives of the references they replace, so does the whole expression
(`evalSem_subst`, `derivSem_subst`).

`Advertisement.unfoldRef k` replaces a name by the expression that carries it, in there each
name again, and so on for `k` rounds.  When the references of an advertisement are acyclic,
more rounds than there are names leave no reference that could be replaced
(`inline_complete`).
-/
import Commelec.SetReferences

namespace Commelec

open Effectful Outcome

variable {R : Type}

/-! ### Replacing references -/

section Subst

variable (f : String → Option (RealExpr R))

mutual

/-- Replace the references that `f` knows. -/
def RealExpr.subst : RealExpr R → RealExpr R
  | .real n v => .real n v
  | .polynomial n p => .polynomial n p
  | .unaryOperation n op a => .unaryOperation n op a.subst
  | .binaryOperation n op a b => .binaryOperation n op a.subst b.subst
  | .listOperation n op as => .listOperation n op (substReals as)
  | .caseDistinction n vars cs => .caseDistinction n vars (substRealCases cs)
  | .reference n ref => (f ref).getD (.reference n ref)
  | .var n v => .var n v
  | .unknown n w => .unknown n w

/-- The references to real expressions in a set. -/
def SetExpr.subst : SetExpr R → SetExpr R
  | .singleton n as => .singleton n (substReals as)
  | .ball n c r => .ball n (substReals c) r.subst
  | .rectangle n bs => .rectangle n (substBounds bs)
  | .convexPolytope n a b => .convexPolytope n (substMatrix a) (substReals b)
  | .intersection n ss => .intersection n (substSets ss)
  | .caseDistinction n vars cs => .caseDistinction n vars (substSetCases cs)
  | .reference n ref => .reference n ref
  | .unknown n w => .unknown n w

def substReals : List (RealExpr R) → List (RealExpr R)
  | [] => []
  | e :: es => e.subst :: substReals es

def substMatrix : List (List (RealExpr R)) → List (List (RealExpr R))
  | [] => []
  | row :: a => substReals row :: substMatrix a

def substBounds : List (RealExpr R × RealExpr R) → List (RealExpr R × RealExpr R)
  | [] => []
  | (a, b) :: bs => (a.subst, b.subst) :: substBounds bs

def substSets : List (SetExpr R) → List (SetExpr R)
  | [] => []
  | s :: ss => s.subst :: substSets ss

def substRealCases : List (SetExpr R × RealExpr R) → List (SetExpr R × RealExpr R)
  | [] => []
  | (s, e) :: cs => (s.subst, e.subst) :: substRealCases cs

def substSetCases : List (SetExpr R × SetExpr R) → List (SetExpr R × SetExpr R)
  | [] => []
  | (s, t) :: cs => (s.subst, t.subst) :: substSetCases cs

end

end Subst

/-! ### Values -/

section Values

variable [Double R] {env : Env R} {f : String → Option (RealExpr R)}

/-- What `f` gives for a name has the value of a reference to it. -/
def SameValue (env : Env R) (f : String → Option (RealExpr R)) : Prop :=
  ∀ ref e, f ref = some e → ∀ n, env.evalSem e = env.evalSem (.reference n ref)

mutual

/-- **Replacing references does not change a value.** -/
theorem evalSem_subst (hf : SameValue env f) (e : RealExpr R) :
    env.evalSem (e.subst f) = env.evalSem e := by
  cases e with
  | real | polynomial | var | unknown => rfl
  | unaryOperation n op a =>
    rw [RealExpr.subst, env.evalSem_unary, env.evalSem_unary, evalSem_subst hf a]
  | binaryOperation n op a b =>
    rw [RealExpr.subst, env.evalSem_binary, env.evalSem_binary, evalSem_subst hf a,
      evalSem_subst hf b]
  | listOperation n op as =>
    rw [RealExpr.subst, env.evalSem_list, env.evalSem_list, evalSem_substReals hf as]
  | caseDistinction n vars cs =>
    rw [RealExpr.subst, env.evalSem_case, env.evalSem_case, sem_substRealCases hf cs]
  | reference n ref =>
    rw [RealExpr.subst]
    cases href : f ref with
    | none => rfl
    | some e => exact hf ref e href n

theorem memberSem_subst (hf : SameValue env f) (s : SetExpr R) :
    env.memberSem (s.subst f) = env.memberSem s := by
  funext pt
  rw [env.memberSem_eq, env.memberSem_eq]
  cases s with
  | singleton n as =>
    show membershipSingleton ((substReals f as).map env.evalSem) pt = _
    rw [evalSem_substReals hf as]
    rfl
  | ball n c r =>
    show membershipBall ((substReals f c).map env.evalSem) (env.evalSem (r.subst f)) pt = _
    rw [evalSem_substReals hf c, evalSem_subst hf r]
    rfl
  | rectangle n bs =>
    show membershipRectangle ((substBounds f bs).map fun b =>
      (env.evalSem b.1, env.evalSem b.2)) pt = _
    rw [evalSem_substBounds hf bs]
    rfl
  | convexPolytope n a b =>
    show membershipConvexPolytope ((substMatrix f a).map (List.map env.evalSem))
      ((substReals f b).map env.evalSem) pt = _
    rw [evalSem_substMatrix hf a, evalSem_substReals hf b]
    rfl
  | intersection n ss =>
    show membershipIntersection ((substSets f ss).map (env.memberSem · pt)) = _
    rw [memberSem_substSets hf ss pt]
    rfl
  | caseDistinction | reference | unknown => rfl

theorem evalSem_substReals (hf : SameValue env f) (as : List (RealExpr R)) :
    (substReals f as).map env.evalSem = as.map env.evalSem := by
  cases as with
  | nil => rfl
  | cons a as =>
    rw [substReals, List.map_cons, List.map_cons, evalSem_subst hf a, evalSem_substReals hf as]

theorem evalSem_substMatrix (hf : SameValue env f) (a : List (List (RealExpr R))) :
    (substMatrix f a).map (List.map env.evalSem) = a.map (List.map env.evalSem) := by
  cases a with
  | nil => rfl
  | cons row a =>
    rw [substMatrix, List.map_cons, List.map_cons, evalSem_substReals hf row,
      evalSem_substMatrix hf a]

theorem evalSem_substBounds (hf : SameValue env f) (bs : List (RealExpr R × RealExpr R)) :
    (substBounds f bs).map (fun b => (env.evalSem b.1, env.evalSem b.2))
      = bs.map fun b => (env.evalSem b.1, env.evalSem b.2) := by
  cases bs with
  | nil => rfl
  | cons b bs =>
    obtain ⟨a, b⟩ := b
    rw [substBounds, List.map_cons, List.map_cons, evalSem_subst hf a, evalSem_subst hf b,
      evalSem_substBounds hf bs]

theorem memberSem_substSets (hf : SameValue env f) (ss : List (SetExpr R)) (pt : List R) :
    (substSets f ss).map (env.memberSem · pt) = ss.map (env.memberSem · pt) := by
  cases ss with
  | nil => rfl
  | cons s ss =>
    rw [substSets, List.map_cons, List.map_cons, memberSem_subst hf s, memberSem_substSets hf ss pt]

theorem sem_substRealCases (hf : SameValue env f) (cs : List (SetExpr R × RealExpr R)) :
    (substRealCases f cs).map (fun c => (env.memberSem c.1, env.evalSem c.2))
      = cs.map fun c => (env.memberSem c.1, env.evalSem c.2) := by
  cases cs with
  | nil => rfl
  | cons c cs =>
    obtain ⟨s, e⟩ := c
    rw [substRealCases, List.map_cons, List.map_cons, memberSem_subst hf s, evalSem_subst hf e,
      sem_substRealCases hf cs]

end

/-- What `f` gives for a name has the derivative of a reference to it. -/
def SameDerivative (env : Env R) (x : String) (f : String → Option (RealExpr R)) : Prop :=
  ∀ ref e, f ref = some e → ∀ n, env.derivSem x e = env.derivSem x (.reference n ref)

variable {x : String}

mutual

/-- **Replacing references does not change a derivative.** -/
theorem derivSem_subst (hf : SameValue env f) (hd : SameDerivative env x f)
    (e : RealExpr R) : env.derivSem x (e.subst f) = env.derivSem x e := by
  cases e with
  | real | polynomial | var | unknown => rfl
  | unaryOperation n op a =>
    rw [RealExpr.subst, env.derivSem_unary, env.derivSem_unary, evalSem_subst hf a,
      derivSem_subst hf hd a]
  | binaryOperation n op a b =>
    rw [RealExpr.subst, env.derivSem_binary, env.derivSem_binary, evalSem_subst hf a,
      evalSem_subst hf b, derivSem_subst hf hd a, derivSem_subst hf hd b]
  | listOperation n op as =>
    rw [RealExpr.subst, env.derivSem_list, env.derivSem_list, evalSem_substReals hf as,
      derivSem_substReals hf hd as]
  | caseDistinction n vars cs =>
    rw [RealExpr.subst, env.derivSem_case, env.derivSem_case, derivSem_substRealCases hf hd cs]
  | reference n ref =>
    rw [RealExpr.subst]
    cases href : f ref with
    | none => rfl
    | some e => exact hd ref e href n

theorem derivSem_substReals (hf : SameValue env f) (hd : SameDerivative env x f)
    (as : List (RealExpr R)) :
    (substReals f as).map (env.derivSem x) = as.map (env.derivSem x) := by
  cases as with
  | nil => rfl
  | cons a as =>
    rw [substReals, List.map_cons, List.map_cons, derivSem_subst hf hd a,
      derivSem_substReals hf hd as]

theorem derivSem_substRealCases (hf : SameValue env f) (hd : SameDerivative env x f)
    (cs : List (SetExpr R × RealExpr R)) :
    (substRealCases f cs).map (fun c => (env.memberSem c.1, env.derivSem x c.2))
      = cs.map fun c => (env.memberSem c.1, env.derivSem x c.2) := by
  cases cs with
  | nil => rfl
  | cons c cs =>
    obtain ⟨s, e⟩ := c
    rw [substRealCases, List.map_cons, List.map_cons, memberSem_subst hf s, derivSem_subst hf hd e,
      derivSem_substRealCases hf hd cs]

end

end Values

/-! ### Unfolding the names of an advertisement -/

namespace Advertisement

variable (adv : Advertisement R)

/-- The first expression that carries the name. -/
def namedReal (ref : String) : Option (RealExpr R) := adv.nodes.findSome? (Node.realNamed ref)

/-- The expression that carries the name, with the names in there replaced for `k - 1`
rounds. -/
def unfoldRef : ℕ → String → Option (RealExpr R)
  | 0, _ => none
  | k + 1, ref => (adv.namedReal ref).map fun e => e.subst (unfoldRef k)

/-- Replace all references for `k` rounds. -/
def inlineRefs (k : ℕ) (e : RealExpr R) : RealExpr R := e.subst (adv.unfoldRef k)

/-- No two real expressions carry the same name. -/
def UniqueNames : Prop :=
  adv.nodes.Pairwise fun a b => ∀ n, (a.realNamed n).isSome → b.realNamed n = none

/-- The expression that carries `ref` refers to `ref'`, and some expression carries `ref'`. -/
def Depends (ref' ref : String) : Prop :=
  ∃ e n, adv.namedReal ref = some e ∧ .real (.reference n ref') ∈ e.nodes ∧
    (adv.namedReal ref').isSome

/-- No name depends on itself. -/
def Acyclic : Prop := ∀ ref, ¬ Relation.TransGen adv.Depends ref ref

end Advertisement

/-- With unique names, the first node of a name is the last one. -/
theorem findSome_eq_last {ns : List (Node R)} {n : String}
    (h : ns.Pairwise fun a b => ∀ n, (a.realNamed n).isSome → b.realNamed n = none) :
    ns.findSome? (Node.realNamed n) = AdvFunc.lastReal ns n := by
  induction ns with
  | nil => rfl
  | cons node ns ih =>
    obtain ⟨hnode, hns⟩ := List.pairwise_cons.mp h
    rw [List.findSome?_cons, AdvFunc.lastReal_cons, ← ih hns]
    cases hnamed : node.realNamed n with
    | none => exact Option.or_none.symm
    | some e =>
      -- no later node carries the name
      have hrest : ns.findSome? (Node.realNamed n) = none := by
        rw [List.findSome?_eq_none_iff]
        exact fun b hb => hnode b hb n (by rw [hnamed]; rfl)
      rw [hrest]
      rfl

section Unfold

variable {adv : Advertisement R}

/-- Replacing names for some rounds keeps values and derivatives. -/
theorem sameValue_unfoldRef [Double R] {env : Env R}
    (hrefs : ∀ ref, env.realExprRefs ref = adv.namedReal ref) (k : ℕ) :
    SameValue env (adv.unfoldRef k) ∧ ∀ x, SameDerivative env x (adv.unfoldRef k) := by
  induction k with
  | zero => exact ⟨fun ref e h => by simp [Advertisement.unfoldRef] at h,
      fun x ref e h => by simp [Advertisement.unfoldRef] at h⟩
  | succ k ih =>
    refine ⟨fun ref e' h n => ?_, fun x ref e' h n => ?_⟩
    · obtain ⟨e, he, rfl⟩ := Option.map_eq_some_iff.mp h
      rw [evalSem_subst ih.1, env.evalSem_reference n ((hrefs ref).trans he)]
    · obtain ⟨e, he, rfl⟩ := Option.map_eq_some_iff.mp h
      rw [derivSem_subst ih.1 (ih.2 x), env.derivSem_reference n x ((hrefs ref).trans he)]

/-! ### Which references are left -/

/-- A reference after the replacement: one that `f` does not know, or one in an expression
that `f` has put in. -/
def Left (f : String → Option (RealExpr R)) (ns : List (Node R)) (r : String) : Prop :=
  (f r = none ∧ ∃ n, .real (.reference n r) ∈ ns) ∨
    ∃ m n ref t, .real (.reference m ref) ∈ ns ∧ f ref = some t ∧
      .real (.reference n r) ∈ t.nodes

variable {f : String → Option (RealExpr R)} {ns ms : List (Node R)} {r : String}

theorem Left.mono (hsub : ns ⊆ ms) (h : Left f ns r) : Left f ms r := by
  rcases h with ⟨hr, n, hmem⟩ | ⟨m, n, ref, t, hmem, ht, hr⟩
  · exact Or.inl ⟨hr, n, hsub hmem⟩
  · exact Or.inr ⟨m, n, ref, t, hsub hmem, ht, hr⟩

theorem Left.cons {node : Node R} (h : Left f ns r) : Left f (node :: ns) r :=
  h.mono (List.subset_cons_self node ns)

theorem Left.left (h : Left f ns r) : Left f (ns ++ ms) r :=
  h.mono (List.subset_append_left ns ms)

theorem Left.right (h : Left f ms r) : Left f (ns ++ ms) r :=
  h.mono (List.subset_append_right ns ms)

mutual

/-- **Where the references of a replaced expression come from.** -/
theorem left_subst {n : Option String} (e : RealExpr R)
    (h : .real (.reference n r) ∈ (e.subst f).nodes) : Left f e.nodes r := by
  cases e with
  | real | polynomial | var | unknown => simp [RealExpr.subst, RealExpr.nodes] at h
  | unaryOperation k op a =>
    rw [RealExpr.subst, RealExpr.nodes] at h
    exact (left_subst a (by simpa using h)).cons
  | binaryOperation k op a b =>
    rw [RealExpr.subst, RealExpr.nodes] at h
    rcases List.mem_append.mp (by simpa using h) with h | h
    · exact (left_subst a h).left.cons
    · exact (left_subst b h).right.cons
  | listOperation k op as =>
    rw [RealExpr.subst, RealExpr.nodes] at h
    exact (left_substReals as (by simpa using h)).cons
  | caseDistinction k vars cs =>
    rw [RealExpr.subst, RealExpr.nodes] at h
    exact (left_substRealCases cs (by simpa using h)).cons
  | reference k ref =>
    rw [RealExpr.subst] at h
    cases href : f ref with
    | none =>
      rw [href] at h
      obtain ⟨-, rfl⟩ : n = k ∧ r = ref := by simpa [RealExpr.nodes] using h
      exact Or.inl ⟨href, k, RealExpr.mem_nodes _⟩
    | some t =>
      rw [href] at h
      exact Or.inr ⟨k, n, ref, t, RealExpr.mem_nodes _, href, h⟩

theorem left_substSet {n : Option String} (s : SetExpr R)
    (h : .real (.reference n r) ∈ (s.subst f).nodes) : Left f s.nodes r := by
  cases s with
  | reference | unknown => simp [SetExpr.subst, SetExpr.nodes] at h
  | singleton k as =>
    rw [SetExpr.subst, SetExpr.nodes] at h
    exact (left_substReals as (by simpa using h)).cons
  | ball k c a =>
    rw [SetExpr.subst, SetExpr.nodes] at h
    rcases List.mem_append.mp (by simpa using h) with h | h
    · exact (left_substReals c h).left.cons
    · exact (left_subst a h).right.cons
  | rectangle k bs =>
    rw [SetExpr.subst, SetExpr.nodes] at h
    exact (left_substBounds bs (by simpa using h)).cons
  | convexPolytope k a b =>
    rw [SetExpr.subst, SetExpr.nodes] at h
    rcases List.mem_append.mp (by simpa using h) with h | h
    · exact (left_substMatrix a h).left.cons
    · exact (left_substReals b h).right.cons
  | intersection k ss =>
    rw [SetExpr.subst, SetExpr.nodes] at h
    exact (left_substSets ss (by simpa using h)).cons
  | caseDistinction k vars cs =>
    rw [SetExpr.subst, SetExpr.nodes] at h
    exact (left_substSetCases cs (by simpa using h)).cons

theorem left_substReals {n : Option String} (as : List (RealExpr R))
    (h : .real (.reference n r) ∈ realNodes (substReals f as)) : Left f (realNodes as) r := by
  cases as with
  | nil => simp [substReals, realNodes] at h
  | cons a as =>
    rw [substReals, realNodes] at h
    rcases List.mem_append.mp h with h | h
    · exact (left_subst a h).left
    · exact (left_substReals as h).right

theorem left_substMatrix {n : Option String} (a : List (List (RealExpr R)))
    (h : .real (.reference n r) ∈ matrixNodes (substMatrix f a)) :
    Left f (matrixNodes a) r := by
  cases a with
  | nil => simp [substMatrix, matrixNodes] at h
  | cons row a =>
    rw [substMatrix, matrixNodes] at h
    rcases List.mem_append.mp h with h | h
    · exact (left_substReals row h).left
    · exact (left_substMatrix a h).right

theorem left_substBounds {n : Option String} (bs : List (RealExpr R × RealExpr R))
    (h : .real (.reference n r) ∈ boundNodes (substBounds f bs)) :
    Left f (boundNodes bs) r := by
  cases bs with
  | nil => simp [substBounds, boundNodes] at h
  | cons b bs =>
    obtain ⟨a, b⟩ := b
    rw [substBounds, boundNodes] at h
    rcases List.mem_append.mp h with h | h
    · exact (left_subst a h).left
    · rcases List.mem_append.mp h with h | h
      · exact (left_subst b h).left.right
      · exact (left_substBounds bs h).right.right

theorem left_substSets {n : Option String} (ss : List (SetExpr R))
    (h : .real (.reference n r) ∈ setNodes (substSets f ss)) : Left f (setNodes ss) r := by
  cases ss with
  | nil => simp [substSets, setNodes] at h
  | cons s ss =>
    rw [substSets, setNodes] at h
    rcases List.mem_append.mp h with h | h
    · exact (left_substSet s h).left
    · exact (left_substSets ss h).right

theorem left_substRealCases {n : Option String} (cs : List (SetExpr R × RealExpr R))
    (h : .real (.reference n r) ∈ realCaseNodes (substRealCases f cs)) :
    Left f (realCaseNodes cs) r := by
  cases cs with
  | nil => simp [substRealCases, realCaseNodes] at h
  | cons c cs =>
    obtain ⟨s, e⟩ := c
    rw [substRealCases, realCaseNodes] at h
    rcases List.mem_append.mp h with h | h
    · exact (left_substSet s h).left
    · rcases List.mem_append.mp h with h | h
      · exact (left_subst e h).left.right
      · exact (left_substRealCases cs h).right.right

theorem left_substSetCases {n : Option String} (cs : List (SetExpr R × SetExpr R))
    (h : .real (.reference n r) ∈ setCaseNodes (substSetCases f cs)) :
    Left f (setCaseNodes cs) r := by
  cases cs with
  | nil => simp [substSetCases, setCaseNodes] at h
  | cons c cs =>
    obtain ⟨s, t⟩ := c
    rw [substSetCases, setCaseNodes] at h
    rcases List.mem_append.mp h with h | h
    · exact (left_substSet s h).left
    · rcases List.mem_append.mp h with h | h
      · exact (left_substSet t h).left.right
      · exact (left_substSetCases cs h).right.right

end

/-! ### Acyclic references -/

namespace Advertisement

/-- The name of a real expression. -/
def realName : Node R → Option String
  | .real e => e.name
  | .set _ => none

/-- The names of the real expressions. -/
def names (adv : Advertisement R) : Finset String := (adv.nodes.filterMap realName).toFinset

theorem of_namedReal {ref : String} {e : RealExpr R} (h : adv.namedReal ref = some e) :
    ref ∈ adv.names := by
  obtain ⟨node, hmem, hnamed⟩ := List.exists_of_findSome?_eq_some h
  rw [names, List.mem_toFinset, List.mem_filterMap]
  refine ⟨node, hmem, ?_⟩
  cases node with
  | set s => simp [Node.realNamed] at hnamed
  | real e =>
    rw [Node.realNamed] at hnamed
    split at hnamed
    · assumption
    · simp at hnamed

open Classical in
/-- How many names a name depends on. -/
noncomputable def rank (adv : Advertisement R) (ref : String) : ℕ :=
  (adv.names.filter fun ref' => Relation.TransGen adv.Depends ref' ref).card

open Classical in
theorem rank_le (adv : Advertisement R) (ref : String) : adv.rank ref ≤ adv.nodes.length := by
  refine (Finset.card_filter_le _ _).trans ((List.toFinset_card_le _).trans ?_)
  exact List.length_filterMap_le _ _

open Classical in
/-- A name depends on more names than those it depends on. -/
theorem rank_lt (ha : adv.Acyclic) {ref' ref : String} (h : adv.Depends ref' ref) :
    adv.rank ref' < adv.rank ref := by
  have hmem : ref' ∈ adv.names := by
    obtain ⟨-, -, -, -, hsome⟩ := h
    obtain ⟨e, he⟩ := Option.isSome_iff_exists.mp hsome
    exact of_namedReal he
  apply Finset.card_lt_card
  rw [Finset.ssubset_iff_of_subset]
  · refine ⟨ref', Finset.mem_filter.mpr ⟨hmem, .single h⟩, fun hself => ?_⟩
    exact ha ref' (Finset.mem_filter.mp hself).2
  · intro r hr
    obtain ⟨hr, hdep⟩ := Finset.mem_filter.mp hr
    exact Finset.mem_filter.mpr ⟨hr, hdep.tail h⟩

/-- One round sees every name that an expression carries. -/
theorem namedReal_eq_none {k : ℕ} {ref : String} (hk : 0 < k)
    (h : adv.unfoldRef k ref = none) : adv.namedReal ref = none := by
  obtain ⟨j, rfl⟩ := Nat.exists_eq_add_one_of_ne_zero hk.ne'
  exact Option.map_eq_none_iff.mp h

theorem isSome_namedReal {k : ℕ} {ref : String} {t : RealExpr R}
    (h : adv.unfoldRef k ref = some t) : (adv.namedReal ref).isSome := by
  cases k with
  | zero => simp [unfoldRef] at h
  | succ k =>
    obtain ⟨e, he, -⟩ := Option.map_eq_some_iff.mp h
    rw [he]
    rfl

/-- After enough rounds no reference to a name is left. -/
theorem unfoldRef_complete (ha : adv.Acyclic) {k : ℕ} {ref : String} {e : RealExpr R}
    (hk : adv.rank ref < k) (h : adv.unfoldRef k ref = some e) {n : Option String}
    (hr : .real (.reference n r) ∈ e.nodes) : adv.namedReal r = none := by
  induction k generalizing ref e n with
  | zero => exact absurd hk (Nat.not_lt_zero _)
  | succ k ih =>
    obtain ⟨t, ht, rfl⟩ := Option.map_eq_some_iff.mp h
    rcases left_subst t hr with ⟨hnone, m, hmem⟩ | ⟨m, n', ref', t', hmem, ht', hr'⟩
    · -- if a node carries `r`, its rank is smaller, and a round is left to replace it
      by_contra hsome
      have hdep : adv.Depends r ref :=
        ⟨t, m, ht, hmem, Option.isSome_iff_ne_none.mpr hsome⟩
      have hlt := rank_lt ha hdep
      exact hsome (namedReal_eq_none (by omega) hnone)
    · -- the reference is in an expression that was put in for `ref'`
      have hdep : adv.Depends ref' ref := ⟨t, m, ht, hmem, isSome_namedReal ht'⟩
      have hlt := rank_lt ha hdep
      exact ih (by omega) ht' hr'

/-- **More rounds than there are nodes replace every reference.** -/
theorem inline_complete (ha : adv.Acyclic) {k : ℕ} (hk : adv.nodes.length < k)
    {e : RealExpr R} {n : Option String}
    (hr : .real (.reference n r) ∈ (adv.inlineRefs k e).nodes) : adv.namedReal r = none := by
  rcases left_subst e hr with ⟨hnone, -⟩ | ⟨m, n', ref, t, -, ht, hr'⟩
  · exact namedReal_eq_none (Nat.zero_lt_of_lt hk) hnone
  · exact unfoldRef_complete ha ((adv.rank_le ref).trans_lt hk) ht hr'

end Advertisement

/-- **References to named real expressions are transparent**: an expression and the one
with every reference replaced have the same value and the same derivatives, or fail alike. -/
theorem references_transparent [Double R] {af : AdvFunc R}
    (hnew : AdvFunc.new adv = (ok (), af)) (hu : adv.UniqueNames) (ha : adv.Acyclic) {k : ℕ}
    (hk : adv.nodes.length < k) (e : RealExpr R) :
    (∀ n r, .real (.reference n r) ∈ (adv.inlineRefs k e).nodes → adv.namedReal r = none) ∧
    (∀ bv o o', AdvFunc.EndsWith (fun n => AdvFunc.evaluate n e bv) af o →
      AdvFunc.EndsWith (fun n => AdvFunc.evaluate n (adv.inlineRefs k e) bv) af o' →
      o' = o) ∧
    ∀ x bv o o', AdvFunc.EndsWith (fun n => AdvFunc.evalPartialDerivative n e x bv) af o →
      AdvFunc.EndsWith
        (fun n => AdvFunc.evalPartialDerivative n (adv.inlineRefs k e) x bv) af o' →
      o' = o := by
  obtain ⟨hv, hreal, -⟩ := AdvFunc.of_new hnew
  have hrefs : ∀ bv ref, (af.env bv).realExprRefs ref = adv.namedReal ref := fun bv ref =>
    (hreal ref).trans (findSome_eq_last hu).symm
  -- every outcome but a full counter is the one of the unbounded evaluation
  refine ⟨fun n r => adv.inline_complete ha hk, fun bv o o' ho ho' => ?_,
    fun x bv o o' ho ho' => ?_⟩
  · rw [ho.eq hv (refines_eval _ e), ho'.eq hv (refines_eval _ _)]
    exact evalSem_subst (sameValue_unfoldRef (hrefs bv) k).1 e
  · rw [ho.eq hv (refines_deriv _ x e), ho'.eq hv (refines_deriv _ x _)]
    obtain ⟨hval, hder⟩ := sameValue_unfoldRef (hrefs bv) k
    exact derivSem_subst hval (hder x) e

end Unfold

/-! ### The sum of a number and its name -/

theorem namedReal_ownName (ref : String) :
    ownName.namedReal ref = if ref = "a" then some (.real (some "a") 7) else none := by
  rw [Advertisement.namedReal, nodes_ownName]
  by_cases h : ref = "a"
  · subst h
    rfl
  · have h' : ¬ "a" = ref := fun heq => h heq.symm
    simp [Node.realNamed, RealExpr.name, h, h']

theorem references_transparent_sample :
    ∃ af, AdvFunc.new ownName = (ok (), af) ∧
      ownName.inlineRefs 4 (.reference none "a") = .real (some "a") 7 ∧
      ∀ bv o o', AdvFunc.EndsWith (fun n => AdvFunc.evaluate n (.reference none "a") bv) af o →
        AdvFunc.EndsWith
          (fun n => AdvFunc.evaluate n (ownName.inlineRefs 4 (.reference none "a")) bv) af o' →
        o' = o := by
  have hunique : ownName.UniqueNames := by
    rw [Advertisement.UniqueNames, nodes_ownName]
    simp [Node.realNamed, RealExpr.name]
  have hacyclic : ownName.Acyclic := by
    -- the only name is carried by a number, which refers to nothing
    intro ref h
    obtain ⟨ref', hdep⟩ : ∃ ref', ownName.Depends ref' ref := by
      cases h with
      | single h => exact ⟨_, h⟩
      | tail _ h => exact ⟨_, h⟩
    obtain ⟨e, n, he, hmem, -⟩ := hdep
    rw [namedReal_ownName] at he
    split at he
    · obtain rfl := Option.some.inj he
      simp [RealExpr.nodes] at hmem
    · simp at he
  have hnew := AdvFunc.setAdv_of_collectable collectable_ownName AdvFunc.blank
  have h := references_transparent hnew hunique hacyclic (k := 4) (by decide)
    (.reference none "a")
  refine ⟨_, hnew, ?_, h.2.1⟩
  rw [Advertisement.inlineRefs, RealExpr.subst, Advertisement.unfoldRef, namedReal_ownName]
  rfl

end Commelec
