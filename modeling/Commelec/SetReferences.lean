/-
Commelec/SetReferences.lean

Does it matter whether a set is written out or referred to by its name?

`Replaced stands s s'` says that `s'` is `s` with some sub-sets replaced by references to
names that stand for them.  Membership resolves references, so it does not tell `s` and `s'`
apart (`memberSem_replaced`).  But `proj` and `rectHull` do not know references: they throw
`WhichError` when they come to one.  `projNoting` and `hullNoting` run them with a flag that
is raised at this point; the outcomes on `s` and `s'` are the same exactly when the flag
stays down (`naming_sets_iff`).
-/
import Commelec.Exceptions
import Commelec.IntersectionHull
import Commelec.Reuse

namespace Commelec

open Effectful Outcome

variable {R : Type}

/-- Singletons, balls, rectangles, polytopes and intersections of such sets. -/
inductive Plain : SetExpr R → Prop
  | singleton (n as) : Plain (.singleton n as)
  | ball (n c r) : Plain (.ball n c r)
  | rectangle (n bs) : Plain (.rectangle n bs)
  | convexPolytope (n a b) : Plain (.convexPolytope n a b)
  | intersection {n ss} : (∀ s ∈ ss, Plain s) → Plain (.intersection n ss)

theorem Plain.of_intersection {n : Option String} {ss : List (SetExpr R)}
    (h : Plain (.intersection n ss)) : ∀ s ∈ ss, Plain s := by
  cases h with
  | intersection h => exact h

theorem Plain.supported {s : SetExpr R} (h : Plain s) : s.supported = true := by
  cases h <;> rfl

/-- The second set is the first one with sub-sets replaced by references. -/
inductive Replaced (stands : String → SetExpr R → Prop) : SetExpr R → SetExpr R → Prop
  | same (s) : Replaced stands s s
  | intersection {n ss ss'} : ss.length = ss'.length →
      (∀ p ∈ ss.zip ss', Replaced stands p.1 p.2) →
      Replaced stands (.intersection n ss) (.intersection n ss')
  | reference {n ref s} : stands ref s → Replaced stands s (.reference n ref)

/-- In the map of named sets, `ref` names a set that equals `s` but for the names. -/
def StandsFor (refs : SetExprRefMap R) (ref : String) (s : SetExpr R) : Prop :=
  ∃ t, refs ref = some t ∧ t.setName none = s.setName none

/-- Lists whose members correspond. -/
theorem forall₂_of_zip {α β : Type} {r : α → β → Prop} {as : List α} {bs : List β}
    (hlen : as.length = bs.length) (h : ∀ p ∈ as.zip bs, r p.1 p.2) : List.Forall₂ r as bs :=
  List.forall₂_iff_zip.mpr ⟨hlen, fun {_ _} hmem => h _ hmem⟩

theorem map_eq_map {α β γ : Type} {f : α → γ} {g : β → γ} {as : List α} {bs : List β}
    (h : List.Forall₂ (fun a b => f a = g b) as bs) : as.map f = bs.map g := by
  have heq : List.Forall₂ (· = ·) (as.map f) (bs.map g) := by
    rwa [List.forall₂_map_left_iff, List.forall₂_map_right_iff]
  rwa [List.forall₂_eq_eq_eq] at heq

variable [Double R] {env : Env R} {s s' : SetExpr R}

/-! ### Membership -/

theorem memberSem_setName (n : Option String) (s : SetExpr R) (pt : List R) :
    env.memberSem (s.setName n) pt = env.memberSem s pt := by
  rw [env.memberSem_eq, env.memberSem_eq]
  cases s <;> rfl

/-- **Membership does not tell a set from a reference to it.** -/
theorem memberSem_replaced (h : Replaced (StandsFor env.setExprRefs) s s') (pt : List R) :
    env.memberSem s' pt = env.memberSem s pt := by
  induction h with
  | same s => rfl
  | @intersection n ss ss' hlen _ ih =>
    have hmap : ss.map (env.memberSem · pt) = ss'.map (env.memberSem · pt) :=
      map_eq_map (forall₂_of_zip hlen fun p hp => (ih p hp).symm)
    rw [env.memberSem_eq, env.memberSem_eq]
    show membershipIntersection (ss'.map (env.memberSem · pt))
      = membershipIntersection (ss.map (env.memberSem · pt))
    rw [← hmap]
  | @reference n ref s hstands =>
    obtain ⟨t, ht, hname⟩ := hstands
    have hget : env.setExprRefs.get ref = t := by rw [SetExprRefMap.get, ht]; rfl
    rw [env.memberSem_eq]
    show env.memberSem (env.setExprRefs.get ref) pt = _
    rw [hget, ← memberSem_setName none t, hname, memberSem_setName]

/-! ### Projections

The outcome on the replaced set is the exception that `proj` throws at a reference, or the
one on the written-out set. -/

/-- `proj` at a reference. -/
def projReference : Err := whichError "AdvFunc::proj" (.reference none "" : SetExpr Unit)

/-- `rectHull` at a reference. -/
def hullReference : Err := whichError "AdvFunc::rectangularHull" (.reference none "" : SetExpr Unit)

/-- The first outcome is the exception `w`, or the second one. -/
def throwsOr (w : Err) : EffectRel Err (Outcome Err) (Outcome Err) where
  rel x y := x = .throw w ∨ x = y
  rel_pure _ := Or.inr rfl
  rel_raise _ := Or.inr rfl
  rel_bind := by
    intro α β x y f g hx hf
    rcases hx with rfl | rfl
    · exact Or.inl rfl
    · cases x with
      | ok a => exact hf a
      | throw e => exact Or.inr rfl
      | outOfFuel => exact Or.inr rfl

theorem projSem_replaced (h : Replaced (StandsFor env.setExprRefs) s s') (pt : List R) :
    (throwsOr projReference).rel (env.projSem s' pt) (env.projSem s pt) := by
  induction h generalizing pt with
  | same s => exact Or.inr rfl
  | @intersection n ss ss' hlen hmem ih =>
    have hmembers : List.Forall₂ (throwsOr projReference).rel
        (ss'.map (env.memberSem · pt)) (ss.map (env.memberSem · pt)) := by
      rw [List.forall₂_map_left_iff, List.forall₂_map_right_iff]
      exact (forall₂_of_zip hlen fun p hp => Or.inr (memberSem_replaced (hmem p hp) pt)).flip
    have hprojs : RelProjs (throwsOr projReference) (ss'.map env.projSem)
        (ss.map env.projSem) := by
      rw [RelProjs, List.forall₂_map_left_iff, List.forall₂_map_right_iff]
      exact (forall₂_of_zip hlen fun p hp pt => ih p hp pt).flip
    rw [env.projSem_eq, env.projSem_eq]
    exact rel_projIntersection (throwsOr projReference) hmembers hprojs pt
  | @reference n ref s _ =>
    -- the switch of `proj` has no case for a reference
    rw [env.projSem_eq]
    exact Or.inl rfl

theorem merge_replaced {lp : LpSolver R} (h : Replaced (StandsFor env.setExprRefs) s s')
    (ih : (throwsOr hullReference).rel (env.hullSem lp s') (env.hullSem lp s)) :
    RelMerge (throwsOr hullReference) (member env.sem (env.hullSem lp) s')
      (member env.sem (env.hullSem lp) s) := by
  intro st
  cases h with
  | same s => exact Or.inr rfl
  | intersection hlen hmem => exact rel_mergeMember _ st (.other ih)
  | reference hstands =>
    -- the member is not merged, even if the set it refers to is a polytope
    refine Or.inl ?_
    show (env.hullSem lp (.reference _ _) >>= _) = _
    rw [env.hullSem_eq]
    rfl

theorem hullSem_replaced {lp : LpSolver R} (h : Replaced (StandsFor env.setExprRefs) s s') :
    (throwsOr hullReference).rel (env.hullSem lp s') (env.hullSem lp s) := by
  induction h with
  | same s => exact Or.inr rfl
  | @intersection n ss ss' hlen hmem ih =>
    rw [env.hullSem_eq, env.hullSem_eq]
    show (throwsOr hullReference).rel
      (hullIntersection lp (ss'.map (member env.sem (env.hullSem lp))))
      (hullIntersection lp (ss.map (member env.sem (env.hullSem lp))))
    refine rel_hullIntersection _ (Or.inr rfl) lp ?_
    rw [List.forall₂_map_left_iff, List.forall₂_map_right_iff]
    exact (forall₂_of_zip hlen fun p hp => merge_replaced (hmem p hp) (ih p hp)).flip
  | @reference n ref s _ =>
    rw [env.hullSem_eq]
    exact Or.inl rfl

/-! ### The branch that goes wrong

Runs with a flag, which is raised when `proj` or `rectHull` comes to a reference. -/

abbrev Flagged : Type → Type := Run Bool Err

/-- Raise the flag, and throw. -/
def Flagged.note {α : Type} (w : Err) : Flagged α := fun _ => (.throw w, true)

/-- `proj`, noting when it comes to a reference. -/
def projNoting (env : Env R) : ℕ → SetExpr R → List R → Flagged (List R)
  | 0, _, _ => stop
  | fuel + 1, set, pt =>
    match set with
    | .reference _ _ => Flagged.note projReference
    | set => projSetExpr env.self (calls env.self fuel) (projNoting env fuel) set pt

/-- `rectHull`, noting when it comes to a reference. -/
def hullNoting (env : Env R) (lp : LpSolver R) : ℕ → SetExpr R → Flagged (AlignedBox R)
  | 0, _ => stop
  | fuel + 1, set =>
    match set with
    | .reference _ _ => Flagged.note hullReference
    | set => hullSetExpr env.self lp (calls env.self fuel) (hullNoting env lp fuel) set

/-- A run that has the outcome and leaves the flag down, or raises it and throws `w`. -/
def noted (w : Err) : EffectRel Err Flagged (Outcome Err) where
  rel x y := x false = (y, false) ∨ x false = (.throw w, true) ∧ y = .throw w
  rel_pure _ := Or.inl rfl
  rel_raise _ := Or.inl rfl
  rel_bind := by
    intro α β x y f g hx hf
    rcases hx with hx | ⟨hx, rfl⟩
    · cases y with
      | ok a =>
        rw [Run.bind_ok hx]
        exact hf a
      | throw e => exact Or.inl (Run.bind_throw hx)
      | outOfFuel => exact Or.inl (Run.bind_outOfFuel hx)
    · exact Or.inr ⟨Run.bind_throw hx, rfl⟩

/-- A run that raises the flag and throws `w`, or has the outcome or is cut off. -/
def unlessNoted (w : Err) : EffectRel Err Flagged (Outcome Err) where
  rel x y := x false = (.throw w, true) ∨ ∃ o, x false = (o, false) ∧ o.Le y
  rel_pure a := Or.inr ⟨_, rfl, .refl _⟩
  rel_raise e := Or.inr ⟨_, rfl, .refl _⟩
  rel_bind := by
    intro α β x y f g hx hf
    rcases hx with hx | ⟨o, hx, hle⟩
    · exact Or.inl (Run.bind_throw hx)
    · cases o with
      | ok a =>
        obtain rfl := hle.eq (by simp)
        rw [Run.bind_ok hx]
        exact hf a
      | throw e =>
        obtain rfl := hle.eq (by simp)
        exact Or.inr ⟨_, Run.bind_throw hx, .refl _⟩
      | outOfFuel => exact Or.inr ⟨_, Run.bind_outOfFuel hx, .bot _⟩

omit [Double R] in
theorem noted_stop (w : Err) {α : Type} : (noted w).rel (stop : Flagged α) stop := Or.inl rfl

omit [Double R] in
theorem unlessNoted_stop (w : Err) {α : Type} (y : Outcome Err α) :
    (unlessNoted w).rel (stop : Flagged α) y := Or.inr ⟨_, rfl, .bot _⟩

theorem noted_proj (env : Env R) (n : ℕ) (s : SetExpr R) (pt : List R) :
    (noted projReference).rel (projNoting env n s pt) (proj env.self n s pt) := by
  induction n generalizing s pt with
  | zero => exact noted_stop _
  | succ n ih =>
    have hcalls := rel_calls .all (env.related (noted projReference)) (noted_stop _) n
    have hset := rel_projSetExpr .all (env.related (noted projReference)) hcalls
      (fun s pt _ => ih s pt) (s := s) trivial pt
    -- only at a reference do the two differ: there the flag is raised
    cases s with
    | reference k ref => exact Or.inr ⟨rfl, rfl⟩
    | _ => exact hset

theorem noted_hull (env : Env R) (lp : LpSolver R) (n : ℕ) (s : SetExpr R) :
    (noted hullReference).rel (hullNoting env lp n s) (rectHull env.self lp n s) := by
  induction n generalizing s with
  | zero => exact noted_stop _
  | succ n ih =>
    have hcalls := rel_calls .all (env.related (noted hullReference)) (noted_stop _) n
    have hset := rel_hullSetExpr .all (env.related (noted hullReference)) (noted_stop _) lp
      hcalls (fun s _ => ih s) (s := s) trivial
    cases s with
    | reference k ref => exact Or.inr ⟨rfl, rfl⟩
    | _ => exact hset

/-- Evaluations do not touch the flag. -/
theorem unlessNoted_calls (w : Err) (env : Env R) (n : ℕ) :
    RelCalls (unlessNoted w) (fun _ => True) (fun _ => True) (calls env.self n) env.sem := by
  have hflag := rel_calls .all (env.related (stateless (σ := Bool))) (fun _ => rfl) n
  refine ⟨fun {e} he => Or.inr ⟨_, hflag.eval he false, ?_⟩,
    fun {s} pt hs => Or.inr ⟨_, hflag.membership pt hs false, ?_⟩⟩
  · exact Chain.le_limit (env.eval_mono e) n
  · exact Chain.le_limit (env.membership_mono s pt) n

theorem unlessNoted_proj (h : Replaced (StandsFor env.setExprRefs) s s') (n : ℕ)
    (pt : List R) :
    (unlessNoted projReference).rel (projNoting env n s' pt) (env.projSem s pt) := by
  induction n generalizing s s' pt with
  | zero => exact unlessNoted_stop _ _
  | succ n ih =>
    have hcalls := unlessNoted_calls projReference env n
    cases h with
    | same =>
      have hset := rel_projSetExpr .all (env.related (unlessNoted projReference)) hcalls
        (fun s pt _ => ih (.same s) pt) (s := s) trivial pt
      rw [← env.projSem_eq] at hset
      -- a reference may also be in the set as it was written
      cases s with
      | reference k ref => exact Or.inl rfl
      | _ => exact hset
    | @intersection k ss ss' hlen hmem =>
      rw [env.projSem_eq]
      refine rel_projIntersection (unlessNoted projReference) ?_ ?_ pt
      · rw [List.forall₂_map_left_iff, List.forall₂_map_right_iff]
        refine (forall₂_of_zip hlen fun p hp => ?_).flip
        have hmember := hcalls.membership (s := p.2) pt trivial
        rwa [show env.sem.membership p.2 pt = env.sem.membership p.1 pt from
          memberSem_replaced (hmem p hp) pt] at hmember
      · rw [RelProjs, List.forall₂_map_left_iff, List.forall₂_map_right_iff]
        exact (forall₂_of_zip hlen fun p hp pt => ih (hmem p hp) pt).flip
    | reference => exact Or.inl rfl

theorem unlessNoted_merge {lp : LpSolver R} {n : ℕ}
    (ih : ∀ {s s'}, Replaced (StandsFor env.setExprRefs) s s' →
      (unlessNoted hullReference).rel (hullNoting env lp n s') (env.hullSem lp s))
    (h : Replaced (StandsFor env.setExprRefs) s s') :
    RelMerge (unlessNoted hullReference)
      (member (calls env.self n) (hullNoting env lp n) s')
      (member env.sem (env.hullSem lp) s) := by
  intro st
  cases h with
  | same =>
    exact rel_mergeMember _ st (rel_member .all (unlessNoted_calls _ env n)
      (fun s _ => ih (.same s)) trivial)
  | intersection hlen hmem => exact rel_mergeMember _ st (.other (ih (.intersection hlen hmem)))
  | reference =>
    -- the recursion comes to the reference unless it has no fuel left
    cases n with
    | zero => exact Or.inr ⟨_, rfl, .bot _⟩
    | succ n => exact Or.inl rfl

theorem unlessNoted_hull {lp : LpSolver R} (h : Replaced (StandsFor env.setExprRefs) s s')
    (n : ℕ) : (unlessNoted hullReference).rel (hullNoting env lp n s') (env.hullSem lp s) := by
  induction n generalizing s s' with
  | zero => exact unlessNoted_stop _ _
  | succ n ih =>
    have hcalls := unlessNoted_calls hullReference env n
    cases h with
    | same =>
      have hset := rel_hullSetExpr .all (env.related (unlessNoted hullReference))
        (unlessNoted_stop _ _) lp hcalls (fun s _ => ih (.same s)) (s := s) trivial
      rw [← env.hullSem_eq] at hset
      cases s with
      | reference k ref => exact Or.inl rfl
      | _ => exact hset
    | @intersection k ss ss' hlen hmem =>
      rw [env.hullSem_eq]
      refine rel_hullIntersection (unlessNoted hullReference) (unlessNoted_stop _ _) lp ?_
      rw [List.forall₂_map_left_iff, List.forall₂_map_right_iff]
      exact (forall₂_of_zip hlen fun p hp => unlessNoted_merge ih (hmem p hp)).flip
    | reference => exact Or.inl rfl

/-! ### The exact condition -/

/-- `proj` comes to a reference. -/
def ProjMeets (env : Env R) (s : SetExpr R) (pt : List R) : Prop :=
  ∃ n, (projNoting env n s pt false).2 = true

/-- `rectHull` comes to a reference. -/
def HullMeets (env : Env R) (lp : LpSolver R) (s : SetExpr R) : Prop :=
  ∃ n, (hullNoting env lp n s false).2 = true

omit [Double R] in
/-- The outcomes of a noted recursion settle on `y` exactly when nothing is noted. -/
theorem limit_eq_iff {α : Type} {w : Err} {c : Chain Err α} {x : ℕ → Flagged α}
    {y : Outcome Err α} (hc : c.Mono) (hx : ∀ n, (noted w).rel (x n) (c n))
    (hy : ∀ n, (unlessNoted w).rel (x n) y) (hor : (throwsOr w).rel c.limit y)
    (hspares : Spares w y) : c.limit = y ↔ ¬ ∃ n, (x n false).2 = true := by
  constructor
  · rintro heq ⟨n, hn⟩
    rcases hx n with hdown | ⟨-, hthrow⟩
    · rw [hdown] at hn
      simp at hn
    · -- with the flag up the recursion has thrown `w`, which `y` is not
      apply hspares
      rw [← heq, Chain.limit_eq hc (n := n) (by rw [hthrow]; simp), hthrow]
  · intro hdown
    refine hor.resolve_left fun hthrow => ?_
    obtain ⟨n, hn⟩ := Chain.exists_eq_limit (c := c) (by rw [hthrow]; simp)
    rcases hy n with hup | ⟨o, ho, hle⟩
    · exact hdown ⟨n, by rw [hup]⟩
    · -- the flag is down at fuel `n`, so `y` would be `w` too
      rcases hx n with hout | ⟨hup, -⟩
      · rw [hout, hn, hthrow, Prod.mk.injEq] at ho
        obtain ⟨rfl, -⟩ := ho
        exact hspares (hle.eq (by simp)).symm
      · rw [hup] at ho
        simp at ho

/-- Messages that start differently differ. -/
theorem whichError_ne {S T : Type} {what what' : String}
    (h : what.toList.take 12 ≠ what'.toList.take 12) (hlen : 12 ≤ what.toList.length)
    (hlen' : 12 ≤ what'.toList.length) (s : SetExpr S) (t : SetExpr T) :
    whichError what s ≠ whichError what' t := by
  have hstart : ∀ {U : Type} (what : String) (u : SetExpr U), 12 ≤ what.toList.length →
      ∃ msg, whichError what u = .whichError u.which msg ∧
        msg.toList.take 12 = what.toList.take 12 := by
    intro U what u hlen
    cases hname : u.unionFieldName with
    | some name =>
      refine ⟨_, by rw [whichError, hname], ?_⟩
      simp only [String.toList_append, List.append_assoc]
      rw [List.take_append_of_le_length hlen]
    | none =>
      refine ⟨_, by rw [whichError, hname], ?_⟩
      simp only [String.toList_append, List.append_assoc]
      rw [List.take_append_of_le_length hlen]
  obtain ⟨msg, hmsg, htake⟩ := hstart what s hlen
  obtain ⟨msg', hmsg', htake'⟩ := hstart what' t hlen'
  rw [hmsg, hmsg']
  intro heq
  rw [Err.whichError.injEq] at heq
  rw [← htake, ← htake', heq.2] at h
  exact h rfl

theorem foreign_projReference : Foreign projReference := by
  constructor
  case membership => exact fun s => whichError_ne (by decide) (by decide) (by decide) _ s
  all_goals simp [projReference, whichError]

theorem foreign_hullReference : Foreign hullReference := by
  constructor
  case membership => exact fun s => whichError_ne (by decide) (by decide) (by decide) _ s
  all_goals simp [hullReference, whichError]

/-! ### Queries -/

omit [Double R] in
/-- The name stands for the set: the advertisement carries it, and every set that it names
equals `s` but for the names. -/
def Advertisement.StandsFor (adv : Advertisement R) (ref : String) (s : SetExpr R) : Prop :=
  adv.CarriesSet ref ∧
    ∀ t, .set t ∈ adv.nodes → t.name = some ref → t.setName none = s.setName none

omit [Double R] in
theorem Replaced.mono {P Q : String → SetExpr R → Prop} (hPQ : ∀ ref s, P ref s → Q ref s)
    (h : Replaced P s s') : Replaced Q s s' := by
  induction h with
  | same s => exact .same s
  | intersection hlen _ ih => exact .intersection hlen ih
  | reference hstands => exact .reference (hPQ _ _ hstands)

omit [Double R] in
theorem standsFor_new {adv : Advertisement R} {af : AdvFunc R}
    (hnew : AdvFunc.new adv = (ok (), af)) {ref : String} {s : SetExpr R}
    (h : adv.StandsFor ref s) : StandsFor af.setExprRefs ref s := by
  obtain ⟨t, ht⟩ := Option.isSome_iff_exists.mp (AdvFunc.isSome_lastSet.mpr h.1)
  obtain ⟨hmem, hname⟩ := AdvFunc.of_lastSet ht
  exact ⟨t, ((AdvFunc.of_new hnew).2.2 ref).trans ht, h.2 t hmem hname⟩

/-- The query ends with the outcome `o`, which is not that of the visit counter. -/
def AdvFunc.EndsWith {α : Type} (q : ℕ → Run (AdvFunc R) Err α) (af : AdvFunc R)
    (o : Outcome Err α) : Prop :=
  AdvFunc.Ends q af o ∧ o ≠ .throw maxNesting

omit [Double R] in
/-- It is the outcome of the abstract operation. -/
theorem AdvFunc.EndsWith.eq {α : Type} {af : AdvFunc R} {bv : ValueMap R}
    {method : ℕ → Self R (Method R) → Method R α} {sem o : Outcome Err α}
    (h : AdvFunc.EndsWith (fun n => AdvFunc.query bv (method n)) af o)
    (hv : af.advValid = true) (href : Refines (af.env bv) method sem) : o = sem := by
  obtain ⟨⟨n₀, hn₀⟩, hmax⟩ := h
  by_cases hsem : sem = outOfFuel
  · -- the operation does not end: neither does the query, unless the counter stops it
    rcases query_refines hv href n₀ with h | h
    · exact absurd ((hn₀ n₀ le_rfl).symm.trans h) hmax
    · rw [hn₀ n₀ le_rfl, hsem] at h
      rw [hsem]
      rcases h with h | h <;> exact h
  · obtain ⟨n₁, hn₁⟩ := query_terminates hv href hsem
    have ho := hn₀ (max n₀ n₁) (le_max_left n₀ n₁)
    rcases hn₁ (max n₀ n₁) (le_max_right n₀ n₁) with h | h
    · exact absurd (ho.symm.trans h) hmax
    · exact ho.symm.trans h

/-- The three queries on `s'` against those on `s`. -/
structure NamingSets (af : AdvFunc R) (bv : ValueMap R) (lp : LpSolver R) (s s' : SetExpr R) :
    Prop where
  testMembership (pt : List R) {o o' : Outcome Err Bool} :
    AdvFunc.EndsWith (fun n => AdvFunc.testMembership n s pt bv) af o →
    AdvFunc.EndsWith (fun n => AdvFunc.testMembership n s' pt bv) af o' → o' = o
  project (pt : List R) {o o' : Outcome Err (List R)} :
    AdvFunc.EndsWith (fun n => AdvFunc.project n s pt bv) af o →
    AdvFunc.EndsWith (fun n => AdvFunc.project n s' pt bv) af o' →
    (o' = o ↔ ¬ ProjMeets (af.env bv) s' pt)
  rectangularHull {o o' : Outcome Err (AlignedBox R)} :
    AdvFunc.EndsWith (fun n => AdvFunc.rectangularHull lp n s bv) af o →
    AdvFunc.EndsWith (fun n => AdvFunc.rectangularHull lp n s' bv) af o' →
    (o' = o ↔ ¬ HullMeets (af.env bv) lp s')

/-- **Does naming a set and referring to it change anything?**  Not for membership; for
projections and bounding boxes exactly if they come to a reference. -/
theorem naming_sets_iff {adv : Advertisement R} {af : AdvFunc R}
    (hnew : AdvFunc.new adv = (ok (), af)) {s s' : SetExpr R} (hs : Plain s)
    (h : Replaced adv.StandsFor s s') (bv : ValueMap R) {lp : LpSolver R}
    (hlp : ∀ halves c, Spares hullReference (lp halves c)) : NamingSets af bv lp s s' := by
  have hv := (AdvFunc.of_new hnew).1
  have hrep : Replaced (StandsFor (af.env bv).setExprRefs) s s' :=
    h.mono fun _ _ => standsFor_new hnew
  have hplain : ∀ w what, ∀ s : SetExpr R, Plain s → s.supported = false →
      w ≠ whichError what s := by
    intro w what s hs hkind
    rw [hs.supported] at hkind
    simp at hkind
  refine ⟨fun pt o o' ho ho' => ?_, fun pt o o' ho ho' => ?_, fun {o o'} ho ho' => ?_⟩
  · rw [ho.eq hv (refines_membership _ s pt), ho'.eq hv (refines_membership _ s' pt)]
    exact memberSem_replaced hrep pt
  · -- `project` asserts the size of the result of `proj`, which is no reason to differ
    rw [ho.eq hv (refines_projPoint _ s pt), ho'.eq hv (refines_projPoint _ s' pt)]
    have hspares := spares_projPointSem (af.env bv) (fun n ss => Plain.of_intersection)
      foreign_projReference (hplain _ _) hs pt
    have hiff := limit_eq_iff ((af.env bv).proj_mono s' pt)
      (fun n => noted_proj (af.env bv) n s' pt) (fun n => unlessNoted_proj hrep n pt)
      (projSem_replaced hrep pt) hspares.1
    rw [ProjMeets, ← hiff]
    constructor
    · intro heq
      refine (projSem_replaced hrep pt).resolve_left fun hthrow => hspares.2 ?_
      rw [← heq, Env.projPointSem, hthrow]
      rfl
    · intro heq
      rw [Env.projPointSem, Env.projPointSem]
      exact congrArg (· >>= _) heq
  · rw [ho.eq hv (refines_hull _ lp s), ho'.eq hv (refines_hull _ lp s')]
    exact limit_eq_iff ((af.env bv).hull_mono lp s') (fun n => noted_hull (af.env bv) lp n s')
      (fun n => unlessNoted_hull hrep n) (hullSem_replaced hrep)
      (spares_hullSem (af.env bv) (fun n ss => Plain.of_intersection) foreign_hullReference
        (hplain _ _) hlp hs)

/-! ### A named square -/

/-- The square with sides from 0 to 2, under the name `r`. -/
def namedSquare : SetExpr ℝ :=
  .rectangle (some "r") [(.real none 0, .real none 2), (.real none 0, .real none 2)]

/-- An advertisement with that square as PQ profile. -/
def squareAdv : Advertisement ℝ := ⟨some namedSquare, none, none, []⟩

theorem collectable_squareAdv : squareAdv.Collectable := by
  refine ⟨?_, Nat.zero_le _, Nat.zero_le _⟩
  show 5 ≤ 10000
  norm_num

theorem nodes_squareAdv : squareAdv.nodes = [.set namedSquare, .real (.real none 0),
    .real (.real none 2), .real (.real none 0), .real (.real none 2)] := rfl

theorem standsFor_square : squareAdv.StandsFor "r" square := by
  refine ⟨⟨namedSquare, by simp [nodes_squareAdv], rfl⟩, fun t ht _ => ?_⟩
  obtain rfl : t = namedSquare := by simpa [nodes_squareAdv] using ht
  rfl

theorem naming_sets_iff_sample :
    ∃ af, AdvFunc.new squareAdv = (ok (), af) ∧
      NamingSets af (bindPQ 0 0) echoLp square (.reference none "r") := by
  have hnew := AdvFunc.setAdv_of_collectable collectable_squareAdv AdvFunc.blank
  exact ⟨_, hnew, naming_sets_iff hnew (.rectangle _ _) (.reference standsFor_square)
    (bindPQ 0 0) fun halves c => by simp [echoLp, Spares]⟩

/-- The bounding box of the square, and its projection of `(3, 1)`, are computed; with the
name of the square both queries throw. -/
theorem named_square_fails :
    (AdvFunc.new squareAdv).1 = ok () ∧ squareAdv.StandsFor "r" square ∧
    (AdvFunc.rectangularHull echoLp 2 square (bindPQ 0 0) (AdvFunc.new squareAdv).2).1
      = ok ⟨[stdMin 0 2, stdMin 0 2], [stdMax 0 2, stdMax 0 2]⟩ ∧
    (AdvFunc.rectangularHull echoLp 2 (.reference none "r") (bindPQ 0 0)
      (AdvFunc.new squareAdv).2).1 = .throw hullReference ∧
    (AdvFunc.project 2 square [3, 1] (bindPQ 0 0) (AdvFunc.new squareAdv).2).1
      = ok [projIntval 3 (stdMin 0 2) (stdMax 0 2), projIntval 1 (stdMin 0 2) (stdMax 0 2)] ∧
    (AdvFunc.project 2 (.reference none "r") [3, 1] (bindPQ 0 0) (AdvFunc.new squareAdv).2).1
      = .throw projReference := by
  have hnew : AdvFunc.new squareAdv = _ :=
    AdvFunc.setAdv_of_collectable collectable_squareAdv AdvFunc.blank
  rw [hnew]
  exact ⟨rfl, standsFor_square, rfl, rfl, rfl, rfl⟩

end Commelec
