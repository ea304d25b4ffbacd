/-
Commelec/Seidel.lean

The solver without its arrays.

What `dlinprog` computes depends on the planes and their order only.  `seidel` computes it from
a list of the planes, and returns the list in its new order: a plane that cuts off the optimum is
put in second place (`toFront`).

`Computes m before after a x` says that the computation `x`, started where the arrays list `m`
planes in the order `before`, returns `a` and leaves them in the order `after`.  It composes, so
the loops follow by induction on the planes that are left (`wedge_computes`,
`linprogLoop_computes`).  So the solver ends, whatever the numbers are, accesses nothing outside
its arrays, reads no plane that it has not written, and leaves a list of all planes
(`dlinprog_refines`).
-/
import Commelec.Lib.LinkedOrder
import Commelec.Linprog

namespace Commelec

open Effectful Outcome Double LinkedList

namespace Lp

/-! ### The algorithm on lists -/

/-- The order after plane `i`, the next one behind `front`, has been put in second place. -/
def toFront (front : List ℕ) (i : ℕ) : List ℕ :=
  match front with
  | [] => [i]
  | z :: front => z :: i :: front

/-- The order behind plane `i`. -/
def place (offensive : Bool) (front : List ℕ) (i : ℕ) : List ℕ :=
  if offensive then toFront front i else front ++ [i]

section Lists

variable {R : Type} [Double R]

/-- The second and the third loop of `wedge`, and the order they leave. -/
def cutList (half : ℕ → R × R) : List ℕ → List ℕ → Wedge R → Option (Wedge R) × List ℕ
  | front, [], w => (some w, front)
  | front, i :: rest, w =>
    match w.cut (half i) with
    | none => (none, front ++ i :: rest)
    | some (offensive, w) =>
      if w.degen then
        (rest.foldlM (fun w j => w.cutDegenerate (half j)) w, place offensive front i ++ rest)
      else cutList half (place offensive front i) rest w

theorem cutList_none {half : ℕ → R × R} {front rest : List ℕ} {i : ℕ} {w : Wedge R}
    (h : w.cut (half i) = none) :
    cutList half front (i :: rest) w = (none, front ++ i :: rest) := by
  rw [cutList, h]

theorem cutList_some {half : ℕ → R × R} {front rest : List ℕ} {i : ℕ} {w w' : Wedge R}
    {offensive : Bool} (h : w.cut (half i) = some (offensive, w')) :
    cutList half front (i :: rest) w = if w'.degen then
        (rest.foldlM (fun w j => w.cutDegenerate (half j)) w', place offensive front i ++ rest)
      else cutList half (place offensive front i) rest w' := by
  rw [cutList, h]

/-- Nothing is left, or a wedge. -/
def wedgeResult : Option (Wedge R) → WedgeResult R
  | none => .error .infeasible
  | some w => .ok w

def wedgeList (half : ℕ → R × R) (order : List ℕ) : WedgeResult R × List ℕ :=
  match order.findSome? fun i => Wedge.start (half i) with
  | none => (.error .unbounded, order)
  | some w => (cutList half [] order w).map wedgeResult id

/-- A solver for the planes of a list. -/
abbrev OrderSolver (R : Type) : Type :=
  (ℕ → List R) → List ℕ → List R → List R → LpResult R × List ℕ

/-- The smaller problem on plane `i`, for the planes of `front`. -/
def onPlane (d : ℕ) (sub : OrderSolver R) (plane : ℕ → List R) (n_vec d_vec : List R)
    (front : List ℕ) (i : ℕ) : LpResult R × List ℕ :=
  let imax := findimax (plane i) d
  let objective := projectObjective d (plane i) imax n_vec d_vec
  sub (fun j => projectPlane (plane i) imax (plane j)) front objective.1 objective.2

/-- The loop of `linprog`. -/
def seidelLoop (d : ℕ) (sub : OrderSolver R) (plane : ℕ → List R) (n_vec d_vec : List R) :
    List ℕ → List ℕ → LpResult R → LpResult R × List ℕ
  | front, [], found => (found, front)
  | front, i :: rest, (status, opt) =>
    if offends d opt (plane i) then
      match onPlane d sub plane n_vec d_vec front i with
      | ((status, new_opt), front) =>
        if status = .infeasible then ((status, opt), front ++ i :: rest)
        else seidelLoop d sub plane n_vec d_vec (toFront front i) rest
          (status, unitized (vectorUp (plane i) (findimax (plane i) d) new_opt))
    else seidelLoop d sub plane n_vec d_vec (front ++ [i]) rest (status, opt)

section Turn

variable {d : ℕ} {sub : OrderSolver R} {plane : ℕ → List R} {n_vec d_vec : List R}
variable {front front' rest : List ℕ} {i : ℕ} {status status' : LpStatus} {opt new_opt : List R}

theorem seidelLoop_pass (h : offends d opt (plane i) = false) :
    seidelLoop d sub plane n_vec d_vec front (i :: rest) (status, opt)
      = seidelLoop d sub plane n_vec d_vec (front ++ [i]) rest (status, opt) := by
  rw [seidelLoop, if_neg (by rw [h]; exact Bool.false_ne_true)]

theorem seidelLoop_infeasible (h : offends d opt (plane i) = true)
    (hsub : onPlane d sub plane n_vec d_vec front i = ((.infeasible, new_opt), front')) :
    seidelLoop d sub plane n_vec d_vec front (i :: rest) (status, opt)
      = ((.infeasible, opt), front' ++ i :: rest) := by
  rw [seidelLoop, if_pos h, hsub]
  rfl

theorem seidelLoop_project (h : offends d opt (plane i) = true)
    (hsub : onPlane d sub plane n_vec d_vec front i = ((status', new_opt), front'))
    (hstatus : status' ≠ .infeasible) :
    seidelLoop d sub plane n_vec d_vec front (i :: rest) (status, opt)
      = seidelLoop d sub plane n_vec d_vec (toFront front' i) rest
          (status', unitized (vectorUp (plane i) (findimax (plane i) d) new_opt)) := by
  rw [seidelLoop, if_pos h, hsub]
  exact if_neg hstatus

end Turn

/-- What `dlinprog` computes for the planes of `order`. -/
def seidel : ℕ → OrderSolver R
  | 0, _, order, _, _ => ((.unknown, []), order)
  | 1, plane, order, n_vec, d_vec =>
    if order = [] then (lpNoConstraints 1 n_vec d_vec, order)
    else
      let (found, order) := wedgeList (fun i => firstTwo (plane i)) order
      (baseOptimum found n_vec d_vec, order)
  | d + 2, plane, order, n_vec, d_vec =>
    seidelLoop (d + 2) (seidel (d + 1)) plane n_vec d_vec [] order
      (lpNoConstraints (d + 2) n_vec d_vec)

/-! ### The order -/

theorem toFront_perm (front : List ℕ) (i : ℕ) : (toFront front i).Perm (front ++ [i]) := by
  cases front with
  | nil => exact List.Perm.refl _
  | cons z front => exact (List.perm_append_singleton i front).symm.cons z

theorem place_perm (offensive : Bool) (front : List ℕ) (i : ℕ) :
    (place offensive front i).Perm (front ++ [i]) := by
  rw [place]
  split
  · exact toFront_perm front i
  · exact List.Perm.refl _

theorem cutList_perm (half : ℕ → R × R) (front rest : List ℕ) (w : Wedge R) :
    (cutList half front rest w).2.Perm (front ++ rest) := by
  induction rest generalizing front w with
  | nil => rw [cutList, List.append_nil]
  | cons i rest ih =>
    have hplace (offensive : Bool) :
        (place offensive front i ++ rest).Perm (front ++ i :: rest) := by
      rw [List.append_cons]
      exact (place_perm offensive front i).append_right rest
    rcases hcut : w.cut (half i) with - | ⟨offensive, w'⟩
    · rw [cutList_none hcut]
    · rw [cutList_some hcut]
      split
      · exact hplace offensive
      · exact (ih _ _).trans (hplace offensive)

theorem wedgeList_perm (half : ℕ → R × R) (order : List ℕ) :
    (wedgeList half order).2.Perm order := by
  rw [wedgeList]
  split
  · exact List.Perm.refl _
  · exact cutList_perm half [] order _

/-- A solver loses no plane. -/
def OrderSolver.Reorders (sub : OrderSolver R) : Prop :=
  ∀ plane order n_vec d_vec, (sub plane order n_vec d_vec).2.Perm order

theorem seidelLoop_perm {d : ℕ} {sub : OrderSolver R} (hsub : sub.Reorders) (plane : ℕ → List R)
    (n_vec d_vec : List R) (front rest : List ℕ) (found : LpResult R) :
    (seidelLoop d sub plane n_vec d_vec front rest found).2.Perm (front ++ rest) := by
  induction rest generalizing front found with
  | nil => rw [seidelLoop, List.append_nil]
  | cons i rest ih =>
    obtain ⟨status, opt⟩ := found
    rcases hoffends : offends d opt (plane i) with - | -
    · rw [seidelLoop_pass hoffends, List.append_cons front i rest]
      exact ih _ _
    · rcases honPlane : onPlane d sub plane n_vec d_vec front i with ⟨⟨status', new_opt⟩, front'⟩
      have hfront : front'.Perm front := by
        have hperm : (onPlane d sub plane n_vec d_vec front i).2.Perm front := hsub _ _ _ _
        rwa [honPlane] at hperm
      by_cases hstatus : status' = .infeasible
      · rw [hstatus] at honPlane
        rw [seidelLoop_infeasible hoffends honPlane]
        exact hfront.append_right _
      · rw [seidelLoop_project hoffends honPlane hstatus, List.append_cons front i rest]
        refine (ih _ _).trans (List.Perm.append_right rest ?_)
        exact (toFront_perm front' i).trans (hfront.append_right _)

/-- **The planes are reordered**, and none is lost. -/
theorem seidel_reorders (d : ℕ) : (seidel d : OrderSolver R).Reorders := by
  intro plane order n_vec d_vec
  induction d generalizing plane order n_vec d_vec with
  | zero => exact List.Perm.refl _
  | succ d ih =>
    cases d with
    | zero =>
      rw [seidel]
      split
      · exact List.Perm.refl _
      · exact wedgeList_perm _ order
    | succ d => exact seidelLoop_perm ih plane n_vec d_vec [] order _

end Lists

/-! ### Computations on the list of planes -/

/-- The computation returns `a` and reorders the planes. -/
def Computes {α : Type} (m : ℕ) (before after : List ℕ) (a : α) (x : Run PlaneList Err α) : Prop :=
  ∀ planes : PlaneList, Lists m before planes.next planes.prev →
    ∃ planes' : PlaneList, x planes = (ok a, planes') ∧ Lists m after planes'.next planes'.prev

section Computes

variable {α β : Type} {m i z : ℕ} {before mid after u v front : List ℕ} {a : α} {b : β}

theorem Computes.pure (a : α) : Computes m before before a (Pure.pure a) :=
  fun planes h => ⟨planes, rfl, h⟩

theorem Computes.bind {x : Run PlaneList Err α} {f : α → Run PlaneList Err β}
    (hx : Computes m before mid a x) (hf : Computes m mid after b (f a)) :
    Computes m before after b (x >>= f) := by
  intro planes h
  obtain ⟨planes', hrun, h'⟩ := hx planes h
  obtain ⟨planes'', hrun', h''⟩ := hf planes' h'
  exact ⟨planes'', (Run.bind_ok hrun).trans hrun', h''⟩

/-- The planes before are those of a list. -/
theorem Computes.of_lists {x : Run PlaneList Err α}
    (h : ∀ {next prev : List ℕ}, Lists m before next prev → Computes m before after a x) :
    Computes m before after a x :=
  fun planes hlists => h hlists planes hlists

/-- An outcome does not touch the list. -/
theorem Computes.lift {x : Outcome Err α} (h : x = ok a) : Computes m before before a x.lift :=
  fun planes hlists => ⟨planes, by rw [h]; rfl, hlists⟩

theorem readNext_computes (hi : u.getLast? = some i) (hj : (v ++ [m]).head? = some z) :
    Computes m (u ++ v) (u ++ v) z (readNext i) := by
  intro planes h
  obtain ⟨u, rfl⟩ : ∃ u', u = u' ++ [i] := ⟨u.dropLast, (List.dropLast_append_getLast? i hi).symm⟩
  have hnext : planes.next[i]? = some z := by
    rw [List.append_assoc] at h
    exact (h.next_eq).trans hj
  refine ⟨planes, ?_, h⟩
  rw [readNext, subscript_ok hnext]

end Computes

/-! ### Moving a plane -/

section Move

variable {i j m p q z : ℕ} {max_halves : ℤ} {next prev front v w : List ℕ} {planes : PlaneList}

theorem readNext_apply (planes : PlaneList) (h : planes.next[i]? = some z) :
    readNext i planes = (ok z, planes) := by
  rw [readNext, subscript_ok h]

theorem readPrev_apply (planes : PlaneList) (h : planes.prev[i]? = some z) :
    readPrev i planes = (ok z, planes) := by
  rw [readPrev, subscript_ok h]

theorem writeNext_apply (h : i < planes.next.length) (z : ℕ) :
    writeNext i z planes = (ok (), { planes with next := planes.next.set i z }) := by
  rw [writeNext, assignAt_ok h]
  rfl

theorem writePrev_apply (h : i < planes.prev.length) (z : ℕ) :
    writePrev i z planes = (ok (), { planes with prev := planes.prev.set i z }) := by
  rw [writePrev, assignAt_ok h]
  rfl

theorem removePlane_apply (hp : prev[i]? = some p) (hq : next[i]? = some q) (hpi : p ≠ i)
    (hplen : p < next.length) (hqlen : q ≠ max_halves → q < prev.length) :
    removePlane i max_halves ⟨next, prev⟩
      = (ok (), ⟨next.set p q, if (q : ℤ) = max_halves then prev else prev.set q p⟩) := by
  have hq' : (next.set p q)[i]? = some q := by rw [List.getElem?_set_ne hpi, hq]
  rw [removePlane, Run.bind_ok (readPrev_apply ⟨next, prev⟩ hp),
    Run.bind_ok (readNext_apply _ hq), Run.bind_ok (writeNext_apply hplen q),
    Run.bind_ok (readNext_apply _ hq')]
  by_cases h : (q : ℤ) = max_halves
  · rw [if_neg (not_not.mpr h), if_pos h]
    rfl
  · rw [if_pos h, if_neg h, Run.bind_ok (readNext_apply _ hq'), Run.bind_ok (readPrev_apply _ hp),
      writePrev_apply (hqlen h)]

theorem putSecond_apply (hz : next[0]? = some z) (hilen : i < next.length)
    (hilen' : i < prev.length) (hzlen : z < prev.length) :
    putSecond i ⟨next, prev⟩
      = (ok (), ⟨(next.set i z).set 0 i, (prev.set i 0).set z i⟩) := by
  have hz' : (next.set i z)[i]? = some z := List.getElem?_set_self hilen
  rw [putSecond, Run.bind_ok (readNext_apply ⟨next, prev⟩ hz),
    Run.bind_ok (writeNext_apply hilen z), Run.bind_ok (writePrev_apply hilen' 0),
    Run.bind_ok (readNext_apply _ hz'),
    Run.bind_ok (writePrev_apply (by rwa [List.length_set]) i),
    writeNext_apply (by rw [List.length_set]; exact Nat.zero_lt_of_lt hilen)]

/-- The assignments, for a plane that is not among the first two. -/
theorem moveToFront_apply {f : ℕ} (h : Lists m (0 :: (f :: w ++ i :: v)) next prev)
    (hp : (f :: w).getLast? = some p) (hq : (v ++ [m]).head? = some q)
    (hmax : (q : ℤ) = max_halves ↔ q = m) :
    moveToFront i max_halves ⟨next, prev⟩
      = (ok p, ⟨((next.set p q).set i f).set 0 i,
          ((v.head?.elim prev fun q => prev.set q p).set i 0).set f i⟩) := by
  obtain ⟨hzero, hnd⟩ := List.nodup_cons.mp h.nodup
  obtain ⟨-, -, hdisj⟩ := List.nodup_append.mp hnd
  have hpw : p ∈ f :: w := List.mem_of_getLast? hp
  have hpi : p ≠ i := hdisj p hpw i List.mem_cons_self
  have hif : i ≠ f := (hdisj f List.mem_cons_self i List.mem_cons_self).symm
  have hi : i ≠ 0 := by
    rintro rfl
    exact hzero (List.mem_append_right _ List.mem_cons_self)
  have hp0 : p ≠ 0 := by
    rintro rfl
    exact hzero (List.mem_append_left _ hpw)
  have hfirst : next[0]? = some f := Lists.next_eq (u := []) h
  have hprev : prev[i]? = some p :=
    Lists.prev_eq (u := 0 :: f :: w) h (by rwa [List.getLast?_cons_cons])
  have hnext : next[i]? = some q := (Lists.next_eq (u := 0 :: f :: w) h).trans hq
  have hilen : i < next.length := Lists.next_lt (u := 0 :: f :: w) h
  have hilen' : i < prev.length := Lists.prev_lt (u := 0 :: f :: w) h (List.cons_ne_nil _ _)
  have hflen : f < prev.length := Lists.prev_lt (u := [0]) h (List.cons_ne_nil _ _)
  have hplen : p < next.length := by
    obtain ⟨w', hw⟩ : ∃ w', f :: w = w' ++ [p] :=
      ⟨_, (List.dropLast_append_getLast? p hp).symm⟩
    have h' : Lists m ((0 :: w') ++ p :: i :: v) next prev := by rwa [hw, List.append_assoc] at h
    exact h'.next_lt
  -- the plane behind `i` is the end mark if `i` is the last one
  have hend : (if (q : ℤ) = max_halves then prev else prev.set q p)
      = v.head?.elim prev fun q => prev.set q p := by
    cases v with
    | nil =>
      obtain rfl : m = q := Option.some.inj hq
      rw [if_pos (hmax.mpr rfl)]
      rfl
    | cons q' v =>
      obtain rfl : q' = q := Option.some.inj hq
      rw [if_neg fun hend => Nat.ne_of_lt (h.lt (by simp)) (hmax.mp hend)]
      rfl
  have hqlen : (q : ℤ) ≠ max_halves → q < prev.length := by
    intro hne
    cases v with
    | nil => exact absurd (hmax.mpr (Option.some.inj hq).symm) hne
    | cons q' v =>
      obtain rfl : q' = q := Option.some.inj hq
      have h' : Lists m ((0 :: f :: w ++ [i]) ++ q' :: v) next prev := by simpa using h
      exact h'.prev_lt (by simp)
  have hlen : (v.head?.elim prev fun q => prev.set q p).length = prev.length := by
    cases v with
    | nil => rfl
    | cons q v => exact List.length_set
  have hfirst' : (next.set p q)[0]? = some f := by rw [List.getElem?_set_ne hp0, hfirst]
  rw [moveToFront, if_neg hi, Run.bind_ok (readNext_apply ⟨next, prev⟩ hfirst),
    if_neg hif, Run.bind_ok (readPrev_apply ⟨next, prev⟩ hprev),
    Run.bind_ok (removePlane_apply hprev hnext hpi hplen hqlen), hend,
    Run.bind_ok (putSecond_apply hfirst' (by rwa [List.length_set]) (by rwa [hlen])
      (by rwa [hlen]))]
  rfl

/-- **Moving a plane**: `q` is the plane behind it, and the test for the end must know that. -/
theorem moveToFront_computes (hq : (v ++ [m]).head? = some q)
    (hmax : (q : ℤ) = max_halves ↔ q = m) (hj : (toFront front i).getLast? = some j) :
    Computes m (front ++ i :: v) (toFront front i ++ v) j (moveToFront i max_halves) := by
  rintro ⟨next, prev⟩ h
  cases front with
  | nil =>
    -- the first plane stays
    obtain rfl : i = 0 := Option.some.inj h.head
    obtain rfl : 0 = j := Option.some.inj hj
    exact ⟨⟨next, prev⟩, rfl, h⟩
  | cons z w =>
    obtain rfl : z = 0 := Option.some.inj h.head
    cases w with
    | nil =>
      -- so does the one behind it
      have hi : i ≠ 0 := by
        rintro rfl
        exact (List.nodup_cons.mp h.nodup).1 List.mem_cons_self
      obtain rfl : i = j := Option.some.inj hj
      refine ⟨⟨next, prev⟩, ?_, h⟩
      rw [moveToFront, if_neg hi, Run.bind_ok (readNext_apply _ (Lists.next_eq (u := []) h)),
        if_pos rfl]
      rfl
    | cons f w =>
      have hp : (f :: w).getLast? = some j := by
        rwa [toFront, List.getLast?_cons_cons, List.getLast?_cons_cons] at hj
      exact ⟨_, moveToFront_apply h hp hq hmax, Lists.toFront h rfl hp hq⟩

/-- Behind the planes that are left comes plane `k`. -/
theorem head?_rest (rest post : List ℕ) (k m : ℕ) :
    (rest ++ k :: post ++ [m]).head? = (rest ++ [k]).head? := by
  cases rest with
  | nil => rfl
  | cons i rest => rfl

/-- The step from plane `i` to the next one. -/
theorem step_computes (hz : (v ++ [m]).head? = some z) :
    Computes m (front ++ i :: v) (front ++ [i] ++ v) z (readNext i) := by
  rw [← List.append_cons]
  have hstep := readNext_computes (u := front ++ [i]) (i := i) (by rw [List.getLast?_concat]) hz
  rwa [← List.append_cons] at hstep

/-- A loop goes on behind plane `i`. -/
theorem Computes.step {β : Type} {b : β} {f : ℕ → Run PlaneList Err β}
    (hz : (v ++ [m]).head? = some z)
    (hf : Computes m (front ++ [i] ++ v) (front ++ [i] ++ w) b (f z)) :
    Computes m (front ++ i :: v) (front ++ i :: w) b (readNext i >>= f) := by
  rw [← List.append_cons front i w] at hf
  exact .bind (step_computes hz) hf

end Move

/-! ### The loops of `wedge` -/

section Wedge

variable {R : Type} [Double R] {stray : StrayArgument} {halves : Planes R} {plane : ℕ → List R}
variable {m k i fuel : ℕ} {front rest post : List ℕ}

omit [Double R] in
theorem plane_ok {v : List ℕ} (hplane : ∀ j ∈ v, halves j = some (plane j)) (hi : i ∈ v) :
    halves.plane i = ok (plane i) := by
  rw [Planes.plane, hplane i hi]

theorem exists_head? (rest : List ℕ) (k : ℕ) : ∃ z, (rest ++ [k]).head? = some z := by
  cases rest with
  | nil => exact ⟨_, rfl⟩
  | cons z rest => exact ⟨_, rfl⟩

theorem wedgeStart_computes (front : List ℕ)
    (hplane : ∀ j ∈ rest, halves j = some (plane j)) (hk : k ∉ rest)
    (hfuel : rest.length < fuel) (hi : (rest ++ [k]).head? = some i) :
    Computes m (front ++ (rest ++ k :: post)) (front ++ (rest ++ k :: post))
      (rest.findSome? fun j => Wedge.start (firstTwo (plane j))) (wedgeStart halves k fuel i) := by
  induction rest generalizing front fuel i with
  | nil =>
    obtain rfl : k = i := Option.some.inj hi
    obtain ⟨fuel, rfl⟩ := Nat.exists_eq_add_one_of_ne_zero (Nat.ne_zero_of_lt hfuel)
    rw [wedgeStart, if_pos rfl]
    exact .pure _
  | cons j rest ih =>
    obtain rfl : j = i := Option.some.inj hi
    rw [List.mem_cons, not_or] at hk
    obtain ⟨fuel, rfl⟩ := Nat.exists_eq_add_one_of_ne_zero (Nat.ne_zero_of_lt hfuel)
    obtain ⟨z, hz⟩ := exists_head? rest k
    rw [wedgeStart, if_neg (Ne.symm hk.1), List.findSome?_cons]
    refine .bind (.lift (plane_ok hplane List.mem_cons_self)) ?_
    cases hstart : Wedge.start (firstTwo (plane j)) with
    | some w => exact .pure _
    | none =>
      refine .step ((head?_rest rest post k m).trans hz) (ih _ ?_ hk.2 ?_ hz)
      · exact fun j' hj' => hplane j' (List.mem_cons_of_mem _ hj')
      · rw [List.length_cons] at hfuel
        omega

theorem wedgeDegenerate_computes (hplane : ∀ j ∈ rest, halves j = some (plane j)) (hk : k ∉ rest)
    (hfuel : rest.length < fuel) (hi : (rest ++ [k]).head? = some i) (w : Wedge R) :
    Computes m (front ++ (rest ++ k :: post)) (front ++ (rest ++ k :: post))
      (rest.foldlM (fun w j => w.cutDegenerate (firstTwo (plane j))) w)
      (wedgeDegenerate halves k fuel i w) := by
  induction rest generalizing front fuel i w with
  | nil =>
    obtain rfl : k = i := Option.some.inj hi
    obtain ⟨fuel, rfl⟩ := Nat.exists_eq_add_one_of_ne_zero (Nat.ne_zero_of_lt hfuel)
    rw [wedgeDegenerate, if_pos rfl]
    exact .pure _
  | cons j rest ih =>
    obtain rfl : j = i := Option.some.inj hi
    rw [List.mem_cons, not_or] at hk
    obtain ⟨fuel, rfl⟩ := Nat.exists_eq_add_one_of_ne_zero (Nat.ne_zero_of_lt hfuel)
    obtain ⟨z, hz⟩ := exists_head? rest k
    rw [wedgeDegenerate, if_neg (Ne.symm hk.1), List.foldlM_cons]
    refine .bind (.lift (plane_ok hplane List.mem_cons_self)) ?_
    cases hcut : w.cutDegenerate (firstTwo (plane j)) with
    | none => exact .pure _
    | some w =>
      refine .step ((head?_rest rest post k m).trans hz) (ih ?_ hk.2 ?_ hz w)
      · exact fun j' hj' => hplane j' (List.mem_cons_of_mem _ hj')
      · rw [List.length_cons] at hfuel
        omega

/-- What stands in for the missing argument is the number of none of `m` planes. -/
def StrayArgument.Harmless (stray : StrayArgument) (m : ℕ) : Prop :=
  ∀ planes i, ∀ j < m, stray planes i ≠ (j : ℤ)

theorem moveToFront3_computes (hstray : stray.Harmless m) {v : List ℕ} (hv : v ≠ []) {j : ℕ}
    (hj : (toFront front i).getLast? = some j) :
    Computes m (front ++ i :: v) (toFront front i ++ v) j (moveToFront3 stray i) := by
  intro planes h
  obtain ⟨q, v, rfl⟩ := List.exists_cons_of_ne_nil hv
  have hq : q < m := h.lt (by simp)
  refine moveToFront_computes (q := q) rfl ?_ hj planes h
  exact iff_of_false (hstray planes i q hq).symm (Nat.ne_of_lt hq)

theorem getLast?_toFront (front : List ℕ) (i : ℕ) : ∃ j, (toFront front i).getLast? = some j := by
  cases front with
  | nil => exact ⟨i, rfl⟩
  | cons z front => exact ⟨_, List.getLast?_eq_some_getLast (List.cons_ne_nil _ _)⟩

/-- From a plane to the one behind it, by way of its new place. -/
theorem place_computes (hstray : stray.Harmless m) (offensive : Bool) {z : ℕ}
    (hz : (rest ++ [k]).head? = some z) :
    Computes m (front ++ i :: (rest ++ k :: post))
      (place offensive front i ++ (rest ++ k :: post)) z
      (placeOffensive stray offensive i >>= readNext) := by
  cases offensive with
  | false => exact step_computes ((head?_rest rest post k m).trans hz)
  | true =>
    obtain ⟨j, hj⟩ := getLast?_toFront front i
    refine .bind (moveToFront3_computes hstray (by simp) hj) ?_
    exact readNext_computes hj ((head?_rest rest post k m).trans hz)

/-- The second loop, and what follows it. -/
theorem wedgeCut_computes (hstray : stray.Harmless m) (front : List ℕ)
    (hplane : ∀ j ∈ rest, halves j = some (plane j)) (hk : k ∉ rest) (hfuel : rest.length < fuel)
    {turns : ℕ} (hturns : rest.length < turns) (hi : (rest ++ [k]).head? = some i) (w : Wedge R)
    (hw : w.degen = false) :
    Computes m (front ++ (rest ++ k :: post))
      ((cutList (fun j => firstTwo (plane j)) front rest w).2 ++ k :: post)
      (wedgeResult (cutList (fun j => firstTwo (plane j)) front rest w).1)
      (wedgeCut stray halves k turns i w >>= wedgeEnd fuel halves k) := by
  induction rest generalizing front turns i w with
  | nil =>
    obtain rfl : k = i := Option.some.inj hi
    obtain ⟨turns, rfl⟩ := Nat.exists_eq_add_one_of_ne_zero (Nat.ne_zero_of_lt hturns)
    rw [wedgeCut, if_pos rfl, Run.pure_bind, wedgeEnd, if_neg (by simp [hw])]
    exact .pure _
  | cons j rest ih =>
    obtain rfl : j = i := Option.some.inj hi
    rw [List.mem_cons, not_or] at hk
    rw [List.length_cons] at hfuel hturns
    obtain ⟨turns, rfl⟩ := Nat.exists_eq_add_one_of_ne_zero (Nat.ne_zero_of_lt hturns)
    obtain ⟨z, hz⟩ := exists_head? rest k
    rw [wedgeCut, if_neg (Ne.symm hk.1), Run.bind_assoc]
    refine .bind (.lift (plane_ok hplane List.mem_cons_self)) ?_
    rcases hcut : w.cut (firstTwo (plane j)) with - | ⟨offensive, w'⟩
    · rw [cutList_none hcut, List.append_assoc]
      exact .pure _
    · have hplane' : ∀ j' ∈ rest, halves j' = some (plane j') := fun j' hj' =>
        hplane j' (List.mem_cons_of_mem _ hj')
      show Computes _ _ _ _ ((placeOffensive stray offensive j >>= fun i => readNext i >>= fun i =>
        if w'.degen then Pure.pure (some (i, w')) else wedgeCut stray halves k turns i w') >>= _)
      rw [← Run.bind_assoc, Run.bind_assoc, cutList_some hcut]
      -- the plane goes to the front if it was offensive, and the loop to the one after it
      refine .bind (place_computes hstray offensive hz) ?_
      by_cases hdegen : w'.degen = true
      · rw [if_pos hdegen, if_pos hdegen, Run.pure_bind, wedgeEnd, if_pos hdegen, List.append_assoc]
        refine .bind (wedgeDegenerate_computes hplane' hk.2 (by omega) hz w') ?_
        cases rest.foldlM (fun w j => w.cutDegenerate (firstTwo (plane j))) w' with
        | none => exact .pure _
        | some w => exact .pure _
      · rw [if_neg hdegen, if_neg hdegen]
        exact ih _ hplane' hk.2 (by omega) (by omega) hz w' (Bool.eq_false_of_not_eq_true hdegen)

theorem start_degen {half : R × R} {w : Wedge R} (h : Wedge.start half = some w) :
    w.degen = false := by
  obtain ⟨u, -, hu⟩ := Option.bind_eq_some_iff.mp h
  rw [← Option.some.inj hu]

/-- **The base case** on the planes before plane `k`. -/
theorem lpBaseCase_computes (hstray : stray.Harmless m) {order : List ℕ}
    (hplane : ∀ j ∈ order, halves j = some (plane j)) (hk : k ∉ order)
    (hfuel : order.length < fuel) (hhead : (order ++ [k]).head? = some 0) (n_vec d_vec : List R) :
    Computes m (order ++ k :: post)
      ((wedgeList (fun j => firstTwo (plane j)) order).2 ++ k :: post)
      (baseOptimum (wedgeList (fun j => firstTwo (plane j)) order).1 n_vec d_vec)
      (lpBaseCase stray fuel halves k n_vec d_vec) := by
  have hwedge : Computes m (order ++ k :: post)
      ((wedgeList (fun j => firstTwo (plane j)) order).2 ++ k :: post)
      (wedgeList (fun j => firstTwo (plane j)) order).1 (wedge stray fuel halves k) := by
    refine .bind (wedgeStart_computes [] hplane hk hfuel hhead) ?_
    rw [wedgeList]
    cases hstart : order.findSome? fun j => Wedge.start (firstTwo (plane j)) with
    | none => exact .pure _
    | some w =>
      have hw : w.degen = false := by
        obtain ⟨j, -, hj⟩ := List.exists_of_findSome?_eq_some hstart
        exact start_degen hj
      exact wedgeCut_computes hstray [] hplane hk hfuel hfuel hhead w hw
  exact .bind hwedge (.pure _)

end Wedge

/-! ### The loop of `linprog` -/

section Solver

variable {R : Type} [Double R] {stray : StrayArgument} {halves : Planes R} {plane : ℕ → List R}
variable {m k i fuel d : ℕ} {front rest post order : List ℕ}

/-- The array of the projections of the planes of `rest`. -/
def projected (plane_i : List R) (imax : ℕ) (plane : ℕ → List R) (rest : List ℕ)
    (new_halves : Planes R) : Planes R :=
  rest.foldl (fun new j => Function.update new j (some (projectPlane plane_i imax (plane j))))
    new_halves

theorem projected_apply (plane_i : List R) (imax : ℕ) (new_halves : Planes R) (j : ℕ) :
    projected plane_i imax plane rest new_halves j
      = if j ∈ rest then some (projectPlane plane_i imax (plane j)) else new_halves j := by
  induction rest generalizing new_halves with
  | nil => rfl
  | cons a rest ih =>
    rw [projected, List.foldl_cons, ← projected, ih]
    by_cases hj : j ∈ rest
    · rw [if_pos hj, if_pos (List.mem_cons_of_mem _ hj)]
    · rw [if_neg hj]
      by_cases hja : j = a
      · rw [hja, Function.update_self, if_pos List.mem_cons_self]
      · rw [Function.update_of_ne hja, if_neg (by simp [hja, hj])]

theorem projectPlanes_computes (front : List ℕ) (plane_i : List R) (imax : ℕ)
    (hplane : ∀ j ∈ rest, halves j = some (plane j)) (hk : k ∉ rest)
    (hfuel : rest.length < fuel) (hi : (rest ++ [k]).head? = some i) (new_halves : Planes R) :
    Computes m (front ++ (rest ++ k :: post)) (front ++ (rest ++ k :: post))
      (projected plane_i imax plane rest new_halves)
      (projectPlanes halves plane_i imax k fuel i new_halves) := by
  induction rest generalizing front fuel i new_halves with
  | nil =>
    obtain rfl : k = i := Option.some.inj hi
    obtain ⟨fuel, rfl⟩ := Nat.exists_eq_add_one_of_ne_zero (Nat.ne_zero_of_lt hfuel)
    rw [projectPlanes, if_pos rfl]
    exact .pure _
  | cons j rest ih =>
    obtain rfl : j = i := Option.some.inj hi
    rw [List.mem_cons, not_or] at hk
    obtain ⟨fuel, rfl⟩ := Nat.exists_eq_add_one_of_ne_zero (Nat.ne_zero_of_lt hfuel)
    obtain ⟨z, hz⟩ := exists_head? rest k
    rw [projectPlanes, if_neg (Ne.symm hk.1)]
    refine .bind (.lift (plane_ok hplane List.mem_cons_self)) ?_
    refine .step ((head?_rest rest post k m).trans hz) (ih _ ?_ hk.2 ?_ hz _)
    · exact fun j' hj' => hplane j' (List.mem_cons_of_mem _ hj')
    · rw [List.length_cons] at hfuel
      omega

/-- On the planes before plane `k`, the solver computes what `list` says. -/
def Implements (m : ℕ) (sub : SubSolver R) (list : OrderSolver R) : Prop :=
  ∀ (halves : Planes R) (plane : ℕ → List R) (order post : List ℕ) (k : ℕ) (n_vec d_vec : List R),
    (∀ j ∈ order, halves j = some (plane j)) →
      Computes m (order ++ k :: post) ((list plane order n_vec d_vec).2 ++ k :: post)
        (list plane order n_vec d_vec).1 (sub halves k n_vec d_vec)

/-- A plane is not among those behind it, nor the end. -/
theorem ne_of_behind {next prev v : List ℕ} {j : ℕ} (h : Lists m (front ++ i :: v) next prev)
    (hj : j ∈ v ++ [m]) : i ≠ j := by
  have hnd := h.nodup_end (List.Perm.refl _)
  rw [List.append_assoc, List.cons_append] at hnd
  rintro rfl
  exact (List.nodup_cons.mp (List.nodup_append.mp hnd).2.1).1 hj

/-- Nor among those before it. -/
theorem notMem_of_before {next prev v : List ℕ} (h : Lists m (front ++ i :: v) next prev) :
    i ∉ front :=
  fun hi => (List.nodup_append.mp h.nodup).2.2 i hi i List.mem_cons_self rfl

theorem length_of_before {next prev v : List ℕ} (h : Lists m (front ++ i :: v) next prev) :
    front.length < m := by
  have hlen := h.perm.length_eq
  rw [List.length_append, List.length_cons, List.length_range] at hlen
  omega

/-- The first plane of the list is plane 0. -/
theorem head?_of_before {next prev v : List ℕ} (h : Lists m (front ++ i :: v) next prev) :
    (front ++ [i]).head? = some 0 := by
  rw [← h.head]
  cases front with
  | nil => rfl
  | cons z front => rfl

/-- **A turn that projects**: the smaller problem on plane `i`. -/
theorem onPlane_computes {sub : SubSolver R} {list : OrderSolver R} (hsub : Implements m sub list)
    {v : List ℕ} (hplane : ∀ j ∈ front, halves j = some (plane j)) (hfuel : m < fuel)
    (n_vec d_vec : List R) {β : Type} {b : β} {after : List ℕ}
    {f : LpResult R → Run PlaneList Err β}
    (hf : Computes m ((onPlane d list plane n_vec d_vec front i).2 ++ i :: v) after b
      (f (onPlane d list plane n_vec d_vec front i).1)) :
    Computes m (front ++ i :: v) after b (do
      let new_halves ← projectPlanes halves (plane i) (findimax (plane i) d) i fuel 0 fun _ => none
      let objective := projectObjective d (plane i) (findimax (plane i) d) n_vec d_vec
      let found ← sub new_halves i objective.1 objective.2
      f found) := by
  refine .of_lists fun h => ?_
  refine .bind (projectPlanes_computes [] (plane i) (findimax (plane i) d) hplane
    (notMem_of_before h) ((length_of_before h).trans hfuel) (head?_of_before h) _) ?_
  refine .bind (hsub _ (fun j => projectPlane (plane i) (findimax (plane i) d) (plane j)) front v i
    _ _ fun j hj => ?_) hf
  rw [projected_apply, if_pos hj]

theorem linprogLoop_computes {sub : SubSolver R} {list : OrderSolver R}
    (hsub : Implements m sub list) (hlist : list.Reorders) (front post : List ℕ)
    (hplane : ∀ j ∈ front ++ rest, halves j = some (plane j))
    (hk : (post ++ [m]).head? = some k) (hfuel : m < fuel) {turns : ℕ}
    (hturns : rest.length < turns) (hi : (rest ++ post ++ [m]).head? = some i)
    (n_vec d_vec : List R) (found : LpResult R) :
    Computes m (front ++ (rest ++ post))
      ((seidelLoop d list plane n_vec d_vec front rest found).2 ++ post)
      (seidelLoop d list plane n_vec d_vec front rest found).1
      (linprogLoop fuel m d sub halves k n_vec d_vec turns i found) := by
  induction rest generalizing front turns i found with
  | nil =>
    obtain rfl : k = i := Option.some.inj (hk.symm.trans hi)
    obtain ⟨turns, rfl⟩ := Nat.exists_eq_add_one_of_ne_zero (Nat.ne_zero_of_lt hturns)
    rw [linprogLoop, if_pos rfl]
    exact .pure _
  | cons j rest ih =>
    obtain rfl : j = i := Option.some.inj hi
    obtain ⟨status, opt⟩ := found
    rw [List.length_cons] at hturns
    obtain ⟨turns, rfl⟩ := Nat.exists_eq_add_one_of_ne_zero (Nat.ne_zero_of_lt hturns)
    obtain ⟨z, hz⟩ : ∃ z, (rest ++ post ++ [m]).head? = some z := exists_head? _ m
    have hturns : rest.length < turns := by omega
    -- `j` is listed before `k`, so it is not the end yet
    refine .of_lists fun h => ?_
    have hj : j ≠ k := by
      refine ne_of_behind (v := rest ++ post) h ?_
      rw [List.append_assoc]
      exact List.mem_append_right rest (List.mem_of_head? hk)
    rw [linprogLoop, if_neg hj]
    refine .bind (.lift (plane_ok hplane (by simp))) ?_
    rcases hoffends : offends d opt (plane j) with - | -
    · rw [if_neg Bool.false_ne_true, seidelLoop_pass hoffends]
      refine .bind (step_computes hz) (ih _ ?_ hturns hz (status, opt))
      rwa [← List.append_cons]
    · rw [if_pos rfl]
      refine onPlane_computes (v := rest ++ post) hsub
        (fun j' hj' => hplane j' (List.mem_append_left _ hj')) hfuel n_vec d_vec ?_
      rcases honPlane : onPlane d list plane n_vec d_vec front j with ⟨⟨status', new_opt⟩, front'⟩
      have hfront : front'.Perm front := by
        have hperm : (onPlane d list plane n_vec d_vec front j).2.Perm front := hlist _ _ _ _
        rwa [honPlane] at hperm
      dsimp only
      by_cases hstatus : status' = .infeasible
      · rw [hstatus] at honPlane
        rw [seidelLoop_infeasible hoffends honPlane, if_pos hstatus, hstatus, List.append_assoc]
        exact .pure _
      · rw [seidelLoop_project hoffends honPlane hstatus, if_neg hstatus]
        obtain ⟨p, hp⟩ := getLast?_toFront front' j
        refine .bind (moveToFront_computes hz Nat.cast_inj hp) ?_
        refine .bind (readNext_computes hp hz) (ih _ (fun j' hj' => hplane j' ?_) hturns hz _)
        rw [List.mem_append] at hj' ⊢
        rcases hj' with hj' | hj'
        · rw [(toFront_perm front' j).mem_iff, List.mem_append, hfront.mem_iff,
            List.mem_singleton] at hj'
          rcases hj' with hj' | rfl
          · exact .inl hj'
          · exact .inr List.mem_cons_self
        · exact .inr (List.mem_cons_of_mem j hj')

/-- **The solver**, with `d ≥ 1`, on the planes before plane `k`. -/
theorem dlinprog_implements (hstray : stray.Harmless m) (hfuel : m < fuel) (d : ℕ) :
    Implements m (dlinprog stray fuel m (d + 1) : SubSolver R) (seidel (d + 1)) := by
  induction d with
  | zero =>
    intro halves plane order post k n_vec d_vec hplane
    refine .of_lists fun h => ?_
    have hhead := head?_of_before h
    rw [dlinprog, seidel]
    by_cases horder : order = []
    · obtain rfl : k = 0 := by
        rw [horder] at hhead
        exact Option.some.inj hhead
      rw [if_neg (not_not.mpr rfl), if_pos horder]
      exact .pure _
    · have hk : k ≠ 0 := by
        rintro rfl
        refine notMem_of_before h ?_
        obtain ⟨z, front, rfl⟩ := List.exists_cons_of_ne_nil horder
        obtain rfl : z = 0 := Option.some.inj hhead
        exact List.mem_cons_self
      rw [if_pos hk, if_neg horder]
      exact lpBaseCase_computes hstray hplane (notMem_of_before h)
        ((length_of_before h).trans hfuel) hhead n_vec d_vec
  | succ d ih =>
    intro halves plane order post k n_vec d_vec hplane
    refine .of_lists fun h => ?_
    have hhead := head?_of_before h
    rw [dlinprog, seidel]
    cases order with
    | nil =>
      obtain rfl : k = 0 := Option.some.inj hhead
      rw [if_pos rfl]
      exact .pure _
    | cons z order =>
      obtain rfl : z = 0 := Option.some.inj hhead
      have hk : k ≠ 0 := by
        rintro rfl
        exact notMem_of_before h List.mem_cons_self
      rw [if_neg hk]
      -- the plane at infinity is the first one, and the loop starts behind it
      exact linprogLoop_computes ih (seidel_reorders (d + 1)) [] (k :: post) hplane rfl hfuel
        ((length_of_before h).trans hfuel) rfl n_vec d_vec _

/-- **The solver on a list of all planes.** -/
theorem dlinprog_computes (hstray : stray.Harmless m) (hfuel : m < fuel) (hm : 0 < m)
    (hplane : ∀ j ∈ order, halves j = some (plane j)) (d : ℕ) (n_vec d_vec : List R) :
    Computes m order (seidel (d + 2) plane order n_vec d_vec).2
      (seidel (d + 2) plane order n_vec d_vec).1
      (dlinprog stray fuel m (d + 2) halves m n_vec d_vec) := by
  refine .of_lists fun h => ?_
  have hlen : order.length < fuel := by rwa [h.perm.length_eq, List.length_range]
  have hhead : (order ++ [m]).head? = some 0 := by rw [List.head?_append, h.head, Option.some_or]
  rw [dlinprog, seidel, if_neg hm.ne']
  have hloop := linprogLoop_computes (d := d + 2) (dlinprog_implements hstray hfuel d)
    (seidel_reorders (d + 1)) [] [] hplane rfl hfuel hlen (by rwa [List.append_nil]) n_vec d_vec
    (lpNoConstraints (d + 2) n_vec d_vec)
  rwa [List.append_nil, List.append_nil, List.nil_append] at hloop

end Solver

/-! ### From a chain to a chain -/

section Chain

variable {R : Type} [Double R] {stray : StrayArgument} {halves : Planes R} {plane : ℕ → List R}
variable {m fuel : ℕ} {next prev : List ℕ}

/-- **The solver keeps the list of planes.**  On a chain of `m` planes that have been written, it
returns what `seidel` computes for their order, and it leaves a chain of all of them. -/
theorem dlinprog_refines (hstray : stray.Harmless m) (hfuel : m < fuel) (hm : 0 < m)
    (hchain : Chain m next prev) (hplane : ∀ j < m, halves j = some (plane j)) (d : ℕ)
    (n_vec d_vec : List R) :
    ∃ order next' prev', Lists m order next prev ∧ Chain m next' prev' ∧
      dlinprog stray fuel m (d + 2) halves m n_vec d_vec ⟨next, prev⟩
        = (ok (seidel (d + 2) plane order n_vec d_vec).1, ⟨next', prev'⟩) := by
  obtain ⟨order, h⟩ := hchain.lists hm
  obtain ⟨⟨next', prev'⟩, hrun, h'⟩ := dlinprog_computes hstray hfuel hm
    (fun j hj => hplane j (h.lt hj)) d n_vec d_vec ⟨next, prev⟩ h
  exact ⟨order, next', prev', h, h'.chain, hrun⟩

end Chain

/-! ### Three planes -/

section Slab

/-- The trivial plane, and the planes of the points with a first coordinate of at most 1 and of at
least 0. -/
def slab : ℕ → List ℝ
  | 0 => [0, 0, 1]
  | 1 => [-1, 0, 1]
  | _ => [1, 0, 0]

theorem slab_length : ∀ j < 3, (slab j).length = 3 := by
  decide

theorem EPS_real : (EPS : ℝ) = 2.0e-16 := by
  rw [EPS, lit_real]
  norm_num

theorem lpNoConstraints_slab :
    lpNoConstraints 2 [(1 : ℝ), 0, 0] [0, 0, 1] = (.minimum, [-1, 0, 0]) := by
  norm_num [lpNoConstraints, lpDUnit, innerSum, EPS_real, Double.lt]

/-- The first two planes do not cut off the point at infinity, -/
theorem offends_slab_pass {i : ℕ} (hi : i < 2) : offends 2 [(-1 : ℝ), 0, 0] (slab i) = false := by
  obtain rfl | rfl : i = 0 ∨ i = 1 := by omega
  · norm_num [offends, innerSum, slab, EPS_real, Double.lt]
  · norm_num [offends, innerSum, slab, EPS_real, Double.lt]

/-- the third one does. -/
theorem offends_slab : offends 2 [(-1 : ℝ), 0, 0] (slab 2) = true := by
  norm_num [offends, innerSum, slab, EPS_real]

/-- Both planes of the smaller problem are the half-plane `[0, 1]`. -/
theorem wedgeList_upper {half : ℕ → ℝ × ℝ} (h : ∀ j ∈ [0, 1], half j = (0, 1)) :
    wedgeList half [0, 1] = (.ok ⟨(1, 0), (-1, 0), false⟩, [0, 1]) := by
  have hstart : Wedge.start (half 0) = some ⟨(1, 0), (-1, 0), false⟩ := by
    rw [h 0 List.mem_cons_self]
    norm_num [Wedge.start, unit2, EPS_real, Double.lt]
  have hcut : ∀ j ∈ [0, 1], Wedge.cut ⟨((1 : ℝ), 0), (-1, 0), false⟩ (half j)
      = some (false, ⟨(1, 0), (-1, 0), false⟩) := by
    intro j hj
    rw [h j hj]
    norm_num [Wedge.cut, dot2, cross2, EPS_real, Double.lt, Double.le]
  simp [wedgeList, hstart, cutList, hcut 0, hcut 1, wedgeResult, place]

theorem onPlane_slab : onPlane 2 (seidel 1) slab [1, 0, 0] [0, 0, 1] [0, 1] 2
    = ((.ambiguous, [1, 0]), [0, 1]) := by
  have himax : findimax (slab 2) 2 = 0 := by
    norm_num [findimax, slab, largerAbs, ABS, List.range', Double.lt]
  have hobjective : projectObjective 2 (slab 2) 0 [(1 : ℝ), 0, 0] [0, 0, 1]
      = ([0, 0], [0, 1]) := by
    norm_num [projectObjective, innerSum, EPS_real, planeDown, slab, Double.lt]
  have hplane : ∀ j ∈ [0, 1], firstTwo (projectPlane (slab 2) 0 (slab j)) = (0, 1) := by
    simp [projectPlane, slab, firstTwo]
  have hoptimum : Wedge.optimum ⟨((1 : ℝ), 0), (-1, 0), false⟩ (0, 0) (0, 1)
      = (.ambiguous, (1, 0)) := by
    norm_num [Wedge.optimum, cross2, dot2, ABS, EPS_real, Double.lt]
  simp only [onPlane, himax, hobjective]
  rw [seidel, if_neg (by simp), wedgeList_upper hplane]
  simp [baseOptimum, firstTwo, hoptimum]

/-- The third plane offends; the optimum on it is the answer. -/
theorem seidel_slab :
    seidel 2 slab [0, 1, 2] [1, 0, 0] [0, 0, 1] = ((.ambiguous, [0, 1, 0]), [0, 2, 1]) := by
  have himax : findimax (slab 2) 2 = 0 := by
    norm_num [findimax, slab, largerAbs, ABS, List.range', Double.lt]
  have hup : unitized (vectorUp (slab 2) 0 [1, 0]) = [0, 1, 0] := by
    norm_num [unitized, vectorUp, slab, innerSum]
  rw [seidel, lpNoConstraints_slab, seidelLoop_pass (offends_slab_pass (by omega)),
    seidelLoop_pass (offends_slab_pass (by omega))]
  change seidelLoop 2 (seidel 1) slab [1, 0, 0] [0, 0, 1] [0, 1] [2] _ = _
  rw [seidelLoop_project offends_slab onPlane_slab (by simp), seidelLoop, himax, hup]
  rfl

/-- A list of three planes. -/
theorem chain_three : Chain 3 [1, 2, 3] [7, 0, 1] := by
  refine ⟨by decide, rfl, fun {i j} hi hij hj => ?_⟩
  obtain rfl | rfl | rfl : i = 0 ∨ i = 1 ∨ i = 2 := by omega
  · obtain rfl : 1 = j := Option.some.inj hij
    rfl
  · obtain rfl : 2 = j := Option.some.inj hij
    rfl
  · exact absurd (Option.some.inj hij).symm hj

theorem lists_three {order : List ℕ} (h : Lists 3 order [1, 2, 3] [7, 0, 1]) :
    order = [0, 1, 2] := by
  obtain ⟨a, b, c, rfl⟩ := List.length_eq_three.mp h.perm.length_eq
  obtain rfl : 0 = a := (Option.some.inj h.head).symm
  obtain rfl : 1 = b := Option.some.inj (h.next_eq (u := []))
  have hc : 2 ∈ [0, 1, c] := h.perm.mem_iff.mpr (by decide)
  obtain rfl : 2 = c := by simpa using hc
  rfl

theorem dlinprog_refines_slab : ∃ next' prev', Chain 3 next' prev' ∧
    dlinprog (fun _ _ => 3) 4 3 2 (fun j => some (slab j)) 3 [1, 0, 0] [0, 0, 1]
        ⟨[1, 2, 3], [7, 0, 1]⟩
      = (ok (.ambiguous, [0, 1, 0]), ⟨next', prev'⟩) := by
  have hrefines : ∃ order next' prev', Lists 3 order [1, 2, 3] [7, 0, 1] ∧
      Chain 3 next' prev' ∧
        dlinprog (fun _ _ => 3) 4 3 2 (fun j => some (slab j)) 3 [1, 0, 0] [0, 0, 1]
            ⟨[1, 2, 3], [7, 0, 1]⟩
          = (ok (seidel 2 slab order [1, 0, 0] [0, 0, 1]).1, ⟨next', prev'⟩) :=
    dlinprog_refines (fun _ _ j hj => by omega) (by omega) (by omega) chain_three
      (fun _ _ => rfl) 0 [1, 0, 0] [0, 0, 1]
  obtain ⟨order, next', prev', horder, hchain, hrun⟩ := hrefines
  rw [lists_three horder, seidel_slab] at hrun
  exact ⟨next', prev', hchain, hrun⟩

/-- The run on them. -/
theorem dlinprog_slab : ∃ planes',
    dlinprog (fun _ _ => 3) 4 3 2 (fun j => some (slab j)) 3 [1, 0, 0] [0, 0, 1]
        ⟨[1, 2, 3], [7, 0, 1]⟩ = (ok (.ambiguous, [0, 1, 0]), planes') := by
  obtain ⟨order, horder⟩ := chain_three.lists (by omega)
  have hcomputes : Computes 3 order (seidel 2 slab order [1, 0, 0] [0, 0, 1]).2
      (seidel 2 slab order [1, 0, 0] [0, 0, 1]).1
      (dlinprog (fun _ _ => 3) 4 3 2 (fun j => some (slab j)) 3 [1, 0, 0] [0, 0, 1]) :=
    dlinprog_computes (fun _ _ j hj => by omega) (by omega) (by omega) (fun _ _ => rfl)
      0 [1, 0, 0] [0, 0, 1]
  obtain ⟨planes', hrun, -⟩ := hcomputes ⟨[1, 2, 3], [7, 0, 1]⟩ horder
  rw [lists_three horder, seidel_slab] at hrun
  exact ⟨planes', hrun⟩

end Slab

end Lp

end Commelec
