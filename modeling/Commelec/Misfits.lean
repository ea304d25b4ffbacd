/-
Commelec/Misfits.lean

Where the build without checks goes outside.

A method goes outside by itself where it comes to sizes that do not fit, and it comes there if
what it evaluates before has values (`HasValue`).  For each kind of set this is a condition on the
lengths of its lists, the size of the point, and the values:

* the coordinates of a singleton or the centre of a ball are as many as those of the point;
* a rectangle may have fewer pairs than the point has coordinates for a membership test, but for a
  projection it has as many;
* the rows of a polytope are as long as the point (two, for a bounding box), and there are as many
  bounds;
* an intersection is the business of its members, but for its bounding box, which merges the
  sizes of its members and has a module of its own.
-/
import Commelec.ReleaseTasks

namespace Commelec

open Effectful Outcome Double

variable {R : Type} [Double R]

/-- The computation of `a` returns `b`. -/
def Yields {α β : Type} (f : α → Outcome Err β) (a : α) (b : β) : Prop := f a = ok b

section Values

variable (val : RealExpr R → R → Prop)

/-- The expression has a value. -/
def HasValue (e : RealExpr R) : Prop := ∃ x, val e x

/-- The matrix is one, and all its entries have values. -/
def HasValues (a : List (List (RealExpr R))) : Prop :=
  (checkCapnpMatrix a).1 = false ∧ ∀ row ∈ a, ∀ e ∈ row, HasValue val e

/-- The bounds have values, and `x` is between them. -/
def WithinBounds (b : RealExpr R × RealExpr R) (x : R) : Prop :=
  ∃ v w, val b.1 v ∧ val b.2 w ∧ (lt x (stdMin v w) || lt (stdMax v w) x) = false

end Values

namespace Release

/-! ### Evaluation before an operation -/

section Evaluation

variable {ev : RealExpr R → Outcome Err R} (hev : ∀ e, Spares outside (ev e)) {α : Type}

omit [Double R] in
/-- The rows of a matrix have one length. -/
theorem length_of_checkCapnpMatrix {β : Type} {a : List (List β)}
    (h : (checkCapnpMatrix a).1 = false) : ∀ row ∈ a, row.length = (a.headD []).length := by
  have hone : (a.map List.length).dedup.length = 1 := by simpa [checkCapnpMatrix] using h
  obtain ⟨n, hn⟩ := List.length_eq_one_iff.mp hone
  have hall : ∀ row ∈ a, row.length = n := by
    intro row hrow
    have hmem := List.mem_dedup.mpr (List.mem_map_of_mem (f := List.length) hrow)
    rw [hn] at hmem
    exact List.mem_singleton.mp hmem
  cases a with
  | nil => simp
  | cons row₀ a =>
    intro row hrow
    rw [hall row hrow]
    exact (hall row₀ (by simp)).symm

omit [Double R] in
theorem exists_evalToMatrix_iff {a : List (List (RealExpr R))} :
    (∃ A, evalToMatrix (a.map (List.map ev)) = ok A) ↔ HasValues (Yields ev) a := by
  rw [evalToMatrix, checkCapnpMatrix_map, List.map_map, HasValues]
  split
  · next h => exact iff_of_false (by simp) fun hv => by simp [h] at hv
  · next h =>
    rw [and_iff_right (by simpa using h), exists_collect_map_iff]
    exact forall₂_congr fun row _ => exists_collect_map_iff

omit [Double R] in
/-- An evaluated matrix has rows of the lengths of the rows of expressions. -/
theorem lengths_of_evalToMatrix {a : List (List (Outcome Err R))} {A : List (List R)}
    (h : evalToMatrix a = ok A) : A.map List.length = a.map List.length := by
  have hcollect := collect_eq_ok.mp (collect_of_evalToMatrix h)
  rw [List.forall₂_map_left_iff] at hcollect
  clear h
  induction hcollect with
  | nil => rfl
  | cons hrow _ ih => rw [List.map_cons, List.map_cons, ih, collect_length hrow]

omit [Double R] in
/-- The sizes of an evaluated matrix. -/
theorem shape_of_evalToMatrix {a : List (List (RealExpr R))} {A : List (List R)}
    (h : evalToMatrix (a.map (List.map ev)) = ok A) :
    A.length = a.length ∧ 0 < a.length ∧ ∀ row ∈ A, row.length = (a.headD []).length := by
  obtain ⟨hshape, -⟩ := exists_evalToMatrix_iff.mp ⟨A, h⟩
  have hlengths : A.map List.length = a.map List.length := by
    rw [lengths_of_evalToMatrix h, List.map_map]
    exact List.map_congr_left fun row _ => List.length_map ev
  have hlen : A.length = a.length := by simpa using congrArg List.length hlengths
  refine ⟨hlen, ?_, fun row hrow => ?_⟩
  · rw [← hlen]
    exact List.length_pos_of_ne_nil (ne_nil_of_evalToMatrix h)
  · have hmem := List.mem_map_of_mem (f := List.length) hrow
    rw [hlengths] at hmem
    obtain ⟨exprs, hexprs, hlen⟩ := List.mem_map.mp hmem
    rw [← hlen]
    exact length_of_checkCapnpMatrix hshape exprs hexprs

include hev

omit [Double R] in
theorem vector_bind_outside {as : List (RealExpr R)} {f : List R → Outcome Err α} {q : Prop}
    (hf : ∀ xs, xs.length = as.length → (f xs = .throw outside ↔ q)) :
    (evalToVector (as.map ev) >>= f) = .throw outside ↔ (∀ e ∈ as, HasValue (Yields ev) e) ∧ q := by
  have hspares : Spares outside (evalToVector (as.map ev)) := spares_map hev as
  rw [hspares.bind_eq_throw_iff fun xs hxs => hf xs (by simpa using collect_length hxs)]
  exact and_congr exists_collect_map_iff Iff.rfl

omit [Double R] in
theorem matrix_bind_outside {a : List (List (RealExpr R))} {f : List (List R) → Outcome Err α}
    {q : Prop} (hf : ∀ A, A.length = a.length → 0 < a.length →
      (∀ row ∈ A, row.length = (a.headD []).length) → (f A = .throw outside ↔ q)) :
    (evalToMatrix (a.map (List.map ev)) >>= f) = .throw outside ↔ HasValues (Yields ev) a ∧ q := by
  have hspares : Spares outside (evalToMatrix (a.map (List.map ev))) :=
    spares_evalToMatrix hev (fun h => by simp [outside] at h)
  rw [hspares.bind_eq_throw_iff fun A hA => ?_]
  · exact and_congr exists_evalToMatrix_iff Iff.rfl
  · obtain ⟨hlen, hpos, hrows⟩ := shape_of_evalToMatrix hA
    exact hf A hlen hpos hrows

omit [Double R] in
theorem real_bind_outside {e : RealExpr R} {f : R → Outcome Err α} {q : Prop}
    (hf : ∀ x, f x = .throw outside ↔ q) :
    (ev e >>= f) = .throw outside ↔ HasValue (Yields ev) e ∧ q :=
  (hev e).bind_eq_throw_iff fun x _ => hf x

omit [Double R] in
theorem ensures_evalToVector (as : List (RealExpr R)) :
    Ensures outside (fun xs => xs.length = as.length) (evalToVector (as.map ev)) :=
  ⟨spares_map hev as, fun xs hxs => by simpa using collect_length hxs⟩

end Evaluation

/-! ### Membership -/

theorem perform_map_eq_throw {α β : Type} {op : EigenOp R α} (g : α → β) :
    ((op.perform .worst : Outcome Err α) >>= fun a => pure (g a)) = .throw outside
      ↔ op.fits = false := by
  rw [perform_worst]
  cases op.fits <;> simp

omit [Double R] in
/-- The columns of an evaluated matrix. -/
theorem cols_ofRows {a : List (List (RealExpr R))} {A : List (List R)} (hlen : A.length = a.length)
    (hpos : 0 < a.length) (hrows : ∀ row ∈ A, row.length = (a.headD []).length) :
    (Matrix.ofRows A).cols = (a.headD []).length := by
  cases A with
  | nil => exact absurd hlen (Nat.ne_of_lt hpos)
  | cons row A => exact hrows row (by simp)

section Membership

variable {ev : RealExpr R → Outcome Err R} (hev : ∀ e, Spares outside (ev e))

include hev

theorem membershipSingleton_outside (as : List (RealExpr R)) (pt : List R) :
    membershipSingleton .worst (as.map ev) pt = .throw outside ↔
      (∀ e ∈ as, HasValue (Yields ev) e) ∧ as.length ≠ pt.length := by
  apply vector_bind_outside hev
  intro xs hxs
  rw [perform_worst_eq_throw, ← hxs]
  exact decide_eq_false_iff_not.trans ne_comm

theorem membershipBall_outside (center : List (RealExpr R)) (r : RealExpr R) (pt : List R) :
    membershipBall .worst (center.map ev) (ev r) pt = .throw outside ↔
      (∀ e ∈ center, HasValue (Yields ev) e) ∧ HasValue (Yields ev) r ∧
        center.length ≠ pt.length := by
  apply vector_bind_outside hev
  intro cent hcent
  apply real_bind_outside hev
  intro r
  rw [perform_map_eq_throw, ← hcent]
  exact decide_eq_false_iff_not

theorem membershipRectangle_outside (rect : List (RealExpr R × RealExpr R)) (pt : List R) :
    membershipRectangle (rect.map fun b => (ev b.1, ev b.2)) pt = .throw outside ↔
      ∃ b, rect[pt.length]? = some b ∧ HasValue (Yields ev) b.1 ∧ HasValue (Yields ev) b.2 ∧
        List.Forall₂ (WithinBounds (Yields ev)) (rect.take pt.length) pt := by
  induction rect generalizing pt with
  | nil => exact iff_of_false (by simp [membershipRectangle]) (by simp)
  | cons b rect ih =>
    cases pt with
    | nil =>
      have hbounds : membershipRectangle ((b :: rect).map fun b => (ev b.1, ev b.2)) []
          = .throw outside ↔ HasValue (Yields ev) b.1 ∧ HasValue (Yields ev) b.2 ∧ True :=
        real_bind_outside hev fun _ => real_bind_outside hev fun _ => iff_of_true rfl trivial
      rw [hbounds]
      simp
    | cons x pt =>
      have hbounds : membershipRectangle ((b :: rect).map fun b => (ev b.1, ev b.2)) (x :: pt)
          = .throw outside ↔ ∃ v, ev b.1 = ok v ∧ ∃ w, ev b.2 = ok w ∧
            (if lt x (stdMin v w) || lt (stdMax v w) x then pure false
              else membershipRectangle (rect.map fun b => (ev b.1, ev b.2)) pt)
              = .throw outside := by
        simp only [List.map_cons, membershipRectangle, (hev _).bind_eq_throw]
      rw [hbounds]
      constructor
      · rintro ⟨v, hv, w, hw, hrest⟩
        cases hout : (lt x (stdMin v w) || lt (stdMax v w) x) with
        | true =>
          rw [hout] at hrest
          exact absurd hrest (by simp)
        | false =>
          rw [hout] at hrest
          obtain ⟨b', hb', hlow, hhigh, hrest⟩ := (ih pt).mp hrest
          exact ⟨b', hb', hlow, hhigh, .cons ⟨v, w, hv, hw, hout⟩ hrest⟩
      · rintro ⟨b', hb', hlow, hhigh, hrest⟩
        cases hrest with
        | cons hb hrest =>
          obtain ⟨v, w, hv, hw, hout⟩ := hb
          refine ⟨v, hv, w, hw, ?_⟩
          rw [hout]
          exact (ih pt).mpr ⟨b', hb', hlow, hhigh, hrest⟩

theorem membershipConvexPolytope_outside (a : List (List (RealExpr R)))
    (b : List (RealExpr R)) (pt : List R) :
    membershipConvexPolytope .worst (a.map (List.map ev)) (b.map ev) pt = .throw outside ↔
      HasValues (Yields ev) a ∧ (∀ e ∈ b, HasValue (Yields ev) e) ∧
        ¬ ((a.headD []).length = pt.length ∧ a.length = b.length) := by
  apply matrix_bind_outside hev
  intro A hlen hpos hrows
  apply vector_bind_outside hev
  intro bs hbs
  rw [← cols_ofRows hlen hpos hrows, ← hlen, ← hbs]
  by_cases hcols : (Matrix.ofRows A).cols = pt.length
  · -- the product has as many coordinates as there are rows
    have hmul : ((EigenOp.mulVec (Matrix.ofRows A) pt).perform .worst : Outcome Err (List R))
        = ok (A.map (dot · pt)) := perform_worst_of_fits (decide_eq_true hcols)
    rw [hmul, ok_bind, perform_worst_eq_throw, not_and, imp_iff_right hcols]
    have hfits : (EigenOp.allLe (A.map (dot · pt)) bs).fits = decide (A.length = bs.length) := by
      rw [← List.length_map (dot · pt)]
      rfl
    rw [hfits]
    exact decide_eq_false_iff_not
  · have hmul : ((EigenOp.mulVec (Matrix.ofRows A) pt).perform .worst : Outcome Err (List R))
        = .throw outside := perform_worst_eq_throw.mpr (decide_eq_false hcols)
    rw [hmul]
    exact iff_of_true rfl fun h => hcols h.1

end Membership

/-! ### Operations that fit -/

theorem perform_ensures {α : Type} {op : EigenOp R α} {p : α → Prop} (h : op.fits = true)
    (hp : p op.value) : Ensures outside p (op.perform .worst) := by
  rw [perform_worst_of_fits h]
  exact .pure hp

theorem ensures_add {x y : List R} {n : ℕ} (hx : x.length = n) (hy : y.length = n) :
    Ensures outside (fun z => z.length = n)
      ((EigenOp.add x y).perform .worst : Outcome Err (List R)) := by
  apply perform_ensures
  · exact decide_eq_true (hx.trans hy.symm)
  · show (vecAdd x y).length = n
    rw [vecAdd, List.length_zipWith, hx, hy, min_self]

theorem ensures_sub {x y : List R} {n : ℕ} (hx : x.length = n) (hy : y.length = n) :
    Ensures outside (fun z => z.length = n)
      ((EigenOp.sub x y).perform .worst : Outcome Err (List R)) := by
  apply perform_ensures
  · exact decide_eq_true (hx.trans hy.symm)
  · show (vecSub x y).length = n
    rw [vecSub, List.length_zipWith, hx, hy, min_self]

/-- A result of the size of the point passes the check. -/
theorem spares_assign {x : Outcome Err (List R)} {n : ℕ}
    (h : Ensures outside (fun res => res.length = n) x) :
    Spares outside (x >>= fun res => (EigenOp.assign n res).perform .worst) := by
  have hassign : ∀ res : List R, res.length = n → Ensures outside (fun _ => True)
      ((EigenOp.assign n res).perform .worst : Outcome Err (List R)) := fun res hres =>
    perform_ensures (decide_eq_true hres) trivial
  exact (h.bind hassign).1

/-- A projection that returns the point itself if it is a member, and otherwise a point of the
same size. -/
theorem checked_member_outside {mem : List R → Outcome Err Bool}
    {rest : List R → Outcome Err (List R)} {pt : List R}
    (h : mem pt = ok false → Ensures outside (fun res => res.length = pt.length) (rest pt)) :
    checked (fun pt => do if ← mem pt then pure pt else rest pt) pt = .throw outside ↔
      mem pt = .throw outside := by
  rcases hmem : mem pt with b | e | -
  · have hensures : Ensures outside (fun res => res.length = pt.length)
        (if b = true then pure pt else rest pt) := by
      cases b with
      | true => exact .pure rfl
      | false => exact h hmem
    refine iff_of_false ?_ (by simp)
    rw [checked, hmem]
    exact spares_assign hensures
  · rw [checked, hmem]
    constructor
    · intro hthrow
      exact congrArg Outcome.throw (Outcome.throw.inj hthrow)
    · intro hthrow
      exact congrArg Outcome.throw (Outcome.throw.inj hthrow)
  · rw [checked, hmem]
    exact iff_of_false (by simp) (by simp)

/-! ### Dykstra's algorithm -/

section Dykstra

variable {n : ℕ}

/-- Projections that keep the size of a point. -/
def Keeping (n : ℕ) (ps : List (List R → Outcome Err (List R))) : Prop :=
  ∀ p ∈ ps, ∀ z, z.length = n → Ensures outside (fun res => res.length = n) (p z)

theorem ensures_dykstraSweep {ps : List (List R → Outcome Err (List R))} (hps : Keeping n ps)
    {ys : List (List R)} (hys : ∀ y ∈ ys, y.length = n) {x : List R} (hx : x.length = n) :
    Ensures outside (fun r => (∀ x ∈ r.1, x.length = n) ∧ ∀ y ∈ r.2, y.length = n)
      (dykstraSweep .worst ps ys x) := by
  induction ps generalizing ys x with
  | nil => exact .pure ⟨by simp, by simp⟩
  | cons p ps ih =>
    cases ys with
    | nil => exact .pure ⟨by simp, by simp⟩
    | cons y ys =>
      refine (ensures_add hx (hys y (by simp))).bind fun z hz => ?_
      refine (hps p (by simp) z hz).bind fun x' hx' => ?_
      refine (ensures_sub hz hx').bind fun y' hy' => ?_
      refine (ih (fun p hp => hps p (by simp [hp])) (fun y hy => hys y (by simp [hy])) hx').bind
        fun r hr => .pure ⟨?_, ?_⟩
      · exact List.forall_mem_cons.mpr ⟨hx', hr.1⟩
      · exact List.forall_mem_cons.mpr ⟨hy', hr.2⟩

theorem ensures_dykstraLoop {ps : List (List R → Outcome Err (List R))} (hps : Keeping n ps)
    (iter : ℕ) {ys : List (List R)} (hys : ∀ y ∈ ys, y.length = n) {result : List R}
    (hresult : result.length = n) :
    Ensures outside (fun o => ∀ res, o = some res → res.length = n)
      (dykstraLoop .worst ps iter ys result) := by
  induction iter generalizing ys result with
  | zero => exact .pure (by simp)
  | succ iter ih =>
    refine (ensures_dykstraSweep hps hys hresult).bind fun r hr => ?_
    have hlast : (r.1.getLast?.getD result).length = n := by
      cases hx : r.1.getLast? with
      | none => exact hresult
      | some x => exact hr.1 x (List.mem_of_getLast? hx)
    refine (ensures_sub hlast hresult).bind fun _ _ => .ite (.pure ?_) (ih hr.2 hlast)
    rintro res ⟨⟩
    exact hresult

/-- **Dykstra's algorithm keeps the size of the point**, if the projections do. -/
theorem ensures_dykstra {ps : List (List R → Outcome Err (List R))} {pt : List R}
    (hps : Keeping pt.length ps) :
    Ensures outside (fun res => res.length = pt.length)
      (dykstraProjectionAlgorithm .worst ps pt >>= convergedOr) := by
  refine (ensures_dykstraLoop hps maxIterations (fun y hy => ?_) rfl).bind fun result hresult => ?_
  · rw [List.eq_of_mem_replicate hy, List.length_replicate]
  · cases result with
    | some x => exact .pure (hresult x rfl)
    | none => exact ⟨.raise (by simp [outside]), by simp [convergedOr]⟩

theorem ensures_projHalfSpace {hs : HalfSpace R} (hhs : hs.a.length = n) {pt : List R}
    (hpt : pt.length = n) :
    Ensures outside (fun res => res.length = n) (projHalfSpace .worst hs pt) := by
  have hdot : Ensures outside (fun _ => True)
      ((EigenOp.dot hs.a pt).perform .worst : Outcome Err R) :=
    perform_ensures (decide_eq_true (hhs.trans hpt.symm)) trivial
  refine hdot.bind fun ax _ => .ite (.pure hpt) (ensures_sub hpt ?_)
  rw [vecScale, List.length_map, List.length_map, hhs]

omit [Double R] in
theorem ensures_halfSpaces {ev : RealExpr R → Outcome Err R} (hev : ∀ e, Spares outside (ev e))
    {a : List (List (RealExpr R))} (ha : ∀ row ∈ a, row.length = n) {b : List (RealExpr R)}
    (hlen : a.length ≤ b.length) :
    Ensures outside (fun hss : List (HalfSpace R) => ∀ hs ∈ hss, hs.a.length = n)
      (halfSpaces (a.map (List.map ev)) (b.map ev)) := by
  induction a generalizing b with
  | nil => exact .pure (by simp)
  | cons row a ih =>
    refine (ensures_evalToVector hev row).bind fun ai hai => ?_
    cases b with
    | nil => exact absurd hlen (Nat.not_succ_le_zero _)
    | cons bi b =>
      refine (hev bi).ensures.bind fun bi _ => ?_
      refine (ih (fun row hrow => ha row (by simp [hrow])) (Nat.le_of_succ_le_succ hlen)).bind
        fun hss hhss => .pure ?_
      exact List.forall_mem_cons.mpr ⟨hai.trans (ha row (by simp)), hhss⟩

end Dykstra

/-! ### Projection -/

section Projection

variable {ev : RealExpr R → Outcome Err R} (hev : ∀ e, Spares outside (ev e))

include hev

theorem projSingleton_outside (as : List (RealExpr R)) (pt : List R) :
    checked (fun _ => projSingleton (as.map ev)) pt = .throw outside ↔
      (∀ e ∈ as, HasValue (Yields ev) e) ∧ as.length ≠ pt.length := by
  apply vector_bind_outside hev
  intro xs hxs
  rw [perform_worst_eq_throw, ← hxs]
  exact decide_eq_false_iff_not

theorem projBall_outside (center : List (RealExpr R)) (r : RealExpr R) (pt : List R) :
    checked (projBall .worst (center.map ev) (ev r)) pt = .throw outside ↔
      (∀ e ∈ center, HasValue (Yields ev) e) ∧ HasValue (Yields ev) r ∧
        center.length ≠ pt.length := by
  rw [← membershipBall_outside hev center r pt]
  apply checked_member_outside
  intro hmem
  -- the test has compared the sizes
  have hlen : center.length = pt.length := by
    obtain ⟨cent, hcent, hmem⟩ := bind_eq_ok.mp hmem
    obtain ⟨r, -, hmem⟩ := bind_eq_ok.mp hmem
    obtain ⟨diff, hdiff, -⟩ := bind_eq_ok.mp hmem
    have hfits : cent.length = pt.length := of_decide_eq_true (perform_worst_eq_ok.mp hdiff).1
    rw [← hfits]
    simpa using (collect_length hcent).symm
  refine (ensures_evalToVector hev center).bind fun cent hcent => ?_
  refine (hev r).ensures.bind fun r _ => ?_
  refine (ensures_sub rfl (hcent.trans hlen)).bind fun diff hdiff => ?_
  refine ensures_add (hcent.trans hlen) ?_
  rw [vecScale, List.length_map, normalized]
  split
  · rw [List.length_map, hdiff]
  · exact hdiff

theorem projRectangle_outside (rect : List (RealExpr R × RealExpr R)) (pt : List R) :
    projRectangle (rect.map fun b => (ev b.1, ev b.2)) pt = .throw outside ↔
      rect.length ≠ pt.length ∧
        ∀ b ∈ rect.take (pt.length + 1), HasValue (Yields ev) b.1 ∧ HasValue (Yields ev) b.2 := by
  induction rect generalizing pt with
  | nil =>
    cases pt with
    | nil => exact iff_of_false (by simp [projRectangle]) (by simp)
    | cons x pt => exact iff_of_true rfl (by simp)
  | cons b rect ih =>
    cases pt with
    | nil =>
      have hbounds : projRectangle ((b :: rect).map fun b => (ev b.1, ev b.2)) []
          = .throw outside ↔ HasValue (Yields ev) b.1 ∧ HasValue (Yields ev) b.2 ∧ True :=
        real_bind_outside hev fun _ => real_bind_outside hev fun _ => iff_of_true rfl trivial
      rw [hbounds]
      simp
    | cons x pt =>
      have hbounds : projRectangle ((b :: rect).map fun b => (ev b.1, ev b.2)) (x :: pt)
          = .throw outside ↔ HasValue (Yields ev) b.1 ∧ HasValue (Yields ev) b.2 ∧
            projRectangle (rect.map fun b => (ev b.1, ev b.2)) pt = .throw outside := by
        apply real_bind_outside hev
        intro v
        apply real_bind_outside hev
        intro w
        rw [bind_eq_throw, or_iff_left (by simp)]
      rw [hbounds, ih, List.length_cons, List.length_cons, List.take_succ_cons,
        List.forall_mem_cons, Nat.succ_ne_succ_iff]
      tauto

omit hev in
theorem length_projRectangle {rect : List (Outcome Err R × Outcome Err R)} {pt res : List R}
    (h : projRectangle rect pt = ok res) : res.length = pt.length := by
  induction rect generalizing pt res with
  | nil =>
    cases pt with
    | nil =>
      obtain rfl := Outcome.ok.inj h
      rfl
    | cons x pt => exact absurd h (by simp [projRectangle])
  | cons b rect ih =>
    obtain ⟨v, -, h⟩ := bind_eq_ok.mp h
    obtain ⟨w, -, h⟩ := bind_eq_ok.mp h
    cases pt with
    | nil => exact absurd h (by simp)
    | cons x pt =>
      obtain ⟨rest, hrest, h⟩ := bind_eq_ok.mp h
      obtain rfl := Outcome.ok.inj h
      rw [List.length_cons, List.length_cons, ih hrest]

theorem projRectangle_checked_outside (rect : List (RealExpr R × RealExpr R)) (pt : List R) :
    checked (projRectangle (rect.map fun b => (ev b.1, ev b.2))) pt = .throw outside ↔
      rect.length ≠ pt.length ∧
        ∀ b ∈ rect.take (pt.length + 1), HasValue (Yields ev) b.1 ∧ HasValue (Yields ev) b.2 := by
  rw [← projRectangle_outside hev, checked, bind_eq_throw, or_iff_left]
  rintro ⟨res, hres, hassign⟩
  rw [perform_worst_eq_throw] at hassign
  exact of_decide_eq_false hassign (length_projRectangle hres)

theorem projConvexPolytope_outside (a : List (List (RealExpr R))) (b : List (RealExpr R))
    (pt : List R) :
    checked (projConvexPolytope .worst (a.map (List.map ev)) (b.map ev)) pt = .throw outside ↔
      HasValues (Yields ev) a ∧ (∀ e ∈ b, HasValue (Yields ev) e) ∧
        ¬ ((a.headD []).length = pt.length ∧ a.length = b.length) := by
  rw [← membershipConvexPolytope_outside hev a b pt]
  apply checked_member_outside
  intro hmem
  have hvalues : HasValues (Yields ev) a ∧ ∀ e ∈ b, HasValue (Yields ev) e := by
    obtain ⟨A, hA, hmem⟩ := bind_eq_ok.mp hmem
    obtain ⟨bs, hbs, -⟩ := bind_eq_ok.mp hmem
    exact ⟨exists_evalToMatrix_iff.mp ⟨A, hA⟩, exists_collect_map_iff.mp ⟨bs, hbs⟩⟩
  -- the test has compared the sizes
  have hsizes : (a.headD []).length = pt.length ∧ a.length = b.length := by
    by_contra hne
    have hthrow := (membershipConvexPolytope_outside hev a b pt).mpr ⟨hvalues.1, hvalues.2, hne⟩
    exact absurd (hthrow.symm.trans hmem) (by simp)
  have hrows : ∀ row ∈ a, row.length = pt.length := fun row hrow =>
    (length_of_checkCapnpMatrix hvalues.1.1 row hrow).trans hsizes.1
  refine (ensures_halfSpaces hev hrows hsizes.2.le).bind fun hss hhss => ensures_dykstra ?_
  intro p hp z hz
  obtain ⟨hs, hin, rfl⟩ := List.mem_map.mp hp
  exact ensures_projHalfSpace (hhss hs hin) hz

omit hev in
/-- An intersection does not go outside by itself. -/
theorem spares_projIntersection {mem : SetExpr R → Outcome Err Bool}
    (hmem : ∀ s, Spares outside (mem s)) (ss : List (SetExpr R))
    {ps : List (List R → Outcome Err (List R))} {pt : List R} (hps : Keeping pt.length ps) :
    Spares outside (checked (projIntersection .worst (ss.map mem) ps) pt) := by
  have h := @checked_member_outside R _ (fun _ => membershipIntersection (ss.map mem))
    (fun pt => dykstraProjectionAlgorithm .worst ps pt >>= convergedOr) pt
    fun _ => ensures_dykstra hps
  exact fun hthrow => spares_membershipIntersection hmem ss (h.mp hthrow)

end Projection

/-! ### Bounding boxes -/

end Release

/-- The solver gives a point of the plane, and if there are constraints, it does not go outside
itself. -/
structure LpSolver.Sound (lp : LpSolver R) : Prop where
  two {halves sol : List R} {x y : R} : lp halves [x, y] = ok sol → sol.length = 2
  inside {halves : List R} (h : halves ≠ []) (c : List R) : Spares outside (lp halves c)

namespace Release

section Box

variable {lp : LpSolver R} (hlp : lp.Sound)

/-- The solver gets constraints, if there is a row. -/
theorem halves_ne_nil {A : Matrix R} {b : List R} (hpos : 0 < A.rows.length)
    (hrows : A.rows.length = b.length) :
    ((EigenOp.halves A b).value.map normalized).flatten ≠ [] := by
  obtain ⟨row, rows, hA⟩ := List.exists_cons_of_length_pos hpos
  obtain ⟨bi, b, rfl⟩ := List.exists_cons_of_length_pos (hrows ▸ hpos)
  show ((List.zipWith (fun row bi => row ++ [bi]) A.rows (bi :: b)).map normalized).flatten ≠ []
  rw [hA, List.zipWith_cons_cons, List.map_cons, List.flatten_cons]
  refine List.append_ne_nil_of_left_ne_nil ?_ _
  rw [normalized]
  split
  · simp
  · simp

omit [Double R] in
theorem ensures_position {v : List R} {i : ℕ} (h : i < v.length) :
    Ensures outside (fun _ => True) (position v i : Outcome Err R) := by
  rw [position, List.getElem?_eq_getElem h]
  exact .pure trivial

include hlp

omit [Double R] in
theorem spares_solve {α : Type} {halves : List R} (hne : halves ≠ []) (x y : R) {i : ℕ}
    (hi : i < 2) {f : R → Outcome Err α} (hf : ∀ z, Spares outside (f z)) :
    Spares outside ((lp halves [x, y]).lift >>= fun sol => position sol i >>= f) := by
  have hsol : Ensures outside (fun sol => sol.length = 2) (lp halves [x, y]) :=
    ⟨hlp.inside hne _, fun sol => hlp.two⟩
  rw [Outcome.lift_self]
  exact (hsol.bind fun sol hlen =>
    (ensures_position (by rwa [hlen])).bind fun z _ => (hf z).ensures).1

/-- The box of a polytope in the plane. -/
theorem spares_computeAABB {A : Matrix R} {b : List R} (hpos : 0 < A.rows.length)
    (hcols : A.cols = 2) (hrows : A.rows.length = b.length) :
    Spares outside (computeAABBConvexPolytope .worst lp A b : Outcome Err (AlignedBox R)) := by
  have hhalves : ((EigenOp.halves A b).perform .worst : Outcome Err (List (List R)))
      = ok (EigenOp.halves A b).value := perform_worst_of_fits (decide_eq_true ⟨hcols, hrows⟩)
  have hne := halves_ne_nil hpos hrows
  rw [computeAABBConvexPolytope, hhalves]
  apply spares_solve hlp hne _ _ Nat.two_pos
  intro xmax
  apply spares_solve hlp hne _ _ Nat.two_pos
  intro xmin
  apply spares_solve hlp hne _ _ Nat.one_lt_two
  intro ymax
  apply spares_solve hlp hne _ _ Nat.one_lt_two
  intro ymin
  exact .pure _

theorem computeAABB_outside {A : Matrix R} {b : List R} (hpos : 0 < A.rows.length) :
    (computeAABBConvexPolytope .worst lp A b : Outcome Err (AlignedBox R)) = .throw outside ↔
      ¬ (A.cols = 2 ∧ A.rows.length = b.length) := by
  by_cases h : A.cols = 2 ∧ A.rows.length = b.length
  · exact iff_of_false (spares_computeAABB hlp hpos h.1 h.2) (not_not.mpr h)
  · refine iff_of_true ?_ h
    have hhalves : ((EigenOp.halves A b).perform .worst : Outcome Err (List (List R)))
        = .throw outside := perform_worst_eq_throw.mpr (decide_eq_false h)
    rw [computeAABBConvexPolytope, hhalves]
    rfl

theorem hullConvexPolytope_outside {ev : RealExpr R → Outcome Err R}
    (hev : ∀ e, Spares outside (ev e)) (a : List (List (RealExpr R))) (b : List (RealExpr R)) :
    hullConvexPolytope .worst lp (a.map (List.map ev)) (b.map ev) = .throw outside ↔
      HasValues (Yields ev) a ∧ (∀ e ∈ b, HasValue (Yields ev) e) ∧
        ¬ ((a.headD []).length = 2 ∧ a.length = b.length) := by
  apply matrix_bind_outside hev
  intro A hlen hpos hrows
  apply vector_bind_outside hev
  intro bs hbs
  rw [computeAABB_outside hlp (hlen ▸ hpos : 0 < (Matrix.ofRows A).rows.length),
    cols_ofRows hlen hpos hrows, ← hlen, ← hbs]
  rfl

end Box

end Release

end Commelec
