/-
Commelec/PlaneList.lean

The front end of the linear-programming solver (`solve_lp2` in
`boundingbox-convexpolygon.cpp`, `randperm.c`).

The solver visits its planes in a random order.  `solve_lp2` draws a permutation and threads
the planes, number `0` first, onto a list in the arrays `next` and `prev`; the plane
`perm[i]` of the caller has number `perm[i] + 1`.  The solver then walks along the list
without looking at the sizes of the arrays.

* `randperm_perm` — `randperm` permutes the numbers below `n`, whatever `rand` returns;
* `linkPlanes_isChain` — for every permutation, each access of the linking code is inside its
  vector, and the list meets every plane once;
* `solve_lp2_eq` — so the solver gets a chain of all the planes, if there is a half-space;
* `solve_lp2_nil` — without one, the linking code reads outside `perm`.

The elements of the `int` vectors are natural numbers; none is above the number of planes, which
the solver takes as an `int`.
-/
import Commelec.RectHull
import Commelec.Lib.LinkedList

namespace Commelec

open Effectful Outcome LinkedList

variable {α : Type}

/-! ### Vectors -/

/-- `vec[i]`. -/
def subscript (vec : List α) (i : ℕ) : Outcome Err α :=
  match vec[i]? with
  | some a => ok a
  | none => .throw .undefined

/-- `vec[i] = a`. -/
def assignAt (vec : List α) (i : ℕ) (a : α) : Outcome Err (List α) :=
  if i < vec.length then ok (vec.set i a) else .throw .undefined

theorem subscript_ok {vec : List α} {i : ℕ} {a : α} (h : vec[i]? = some a) :
    subscript vec i = ok a := by
  rw [subscript, h]

theorem assignAt_ok {vec : List α} {i : ℕ} (h : i < vec.length) (a : α) :
    assignAt vec i a = ok (vec.set i a) :=
  if_pos h

/-! ### The random permutation -/

/-- The second loop of `randperm`: an element changes places with one that is not before it. -/
def exchange (rand : ℕ → ℕ) (n : ℕ) (perm : List ℕ) (i : ℕ) : Outcome Err (List ℕ) := do
  let j := rand i % (n - i) + i
  let t ← subscript perm j
  let perm ← assignAt perm j (← subscript perm i)
  assignAt perm i t

/-- `randperm(n, perm)`, where `rand i` is what `rand()` returns in turn `i`. -/
def randperm (rand : ℕ → ℕ) (n : ℕ) : Outcome Err (List ℕ) :=
  (List.range n).foldlM (exchange rand n) (List.range n)

theorem exchange_perm (rand : ℕ → ℕ) {n i : ℕ} {perm : List ℕ} (hlen : perm.length = n)
    (hi : i < n) : ∃ perm', exchange rand n perm i = ok perm' ∧ perm'.Perm perm := by
  have hj : rand i % (n - i) + i < perm.length := by
    have := Nat.mod_lt (rand i) (Nat.sub_pos_of_lt hi)
    omega
  have hi' : i < perm.length := hlen ▸ hi
  refine ⟨(perm.set (rand i % (n - i) + i) perm[i]).set i perm[rand i % (n - i) + i], ?_,
    List.set_set_perm hj hi'⟩
  show (do
    let t ← subscript perm (rand i % (n - i) + i)
    let perm ← assignAt perm (rand i % (n - i) + i) (← subscript perm i)
    assignAt perm i t) = _
  rw [subscript_ok (List.getElem?_eq_getElem hj), ok_bind,
    subscript_ok (List.getElem?_eq_getElem hi'), ok_bind, assignAt_ok hj, ok_bind,
    assignAt_ok (by rw [List.length_set]; exact hi')]

theorem randperm_perm (rand : ℕ → ℕ) (n : ℕ) :
    ∃ perm, randperm rand n = ok perm ∧ perm.Perm (List.range n) := by
  refine foldlM_range_ok (fun _ (perm : List ℕ) => perm.Perm (List.range n)) ?_ (List.Perm.refl _)
  intro i hi perm hp
  obtain ⟨perm', hperm', hp'⟩ := exchange_perm rand (hp.length_eq.trans List.length_range) hi
  exact ⟨perm', hperm', hp'.trans hp⟩

/-! ### Linking the planes -/

/-- The arrays `next` and `prev`. -/
structure PlaneList where
  next : List ℕ
  prev : List ℕ
  deriving DecidableEq, Repr

/-- One turn of the loop that links the other planes. -/
def linkPlane (perm : List ℕ) (planes : PlaneList) (i : ℕ) : Outcome Err PlaneList := do
  let next ← assignAt planes.next ((← subscript perm i) + 1) ((← subscript perm (i + 1)) + 1)
  let prev ← assignAt planes.prev ((← subscript perm (i + 1)) + 1) ((← subscript perm i) + 1)
  pure ⟨next, prev⟩

/-- The statements of `solve_lp2` that fill `next` and `prev`. -/
def linkPlanes (m : ℕ) (perm : List ℕ) : Outcome Err PlaneList := do
  -- previous to 0 should never be used
  let prev ← assignAt (List.replicate m 0) 0 1234567890
  -- link the zero position in at the beginning
  let next ← assignAt (List.replicate m 0) 0 ((← subscript perm 0) + 1)
  let prev ← assignAt prev ((← subscript perm 0) + 1) 0
  -- link the other planes
  let planes ← (List.range (m - 2)).foldlM (linkPlane perm) ⟨next, prev⟩
  -- flag the last plane
  let next ← assignAt planes.next ((← subscript perm (m - 2)) + 1) m
  pure ⟨next, planes.prev⟩

/-- The numbers of the planes, in the order of the list. -/
def planeOrder (perm : List ℕ) : List ℕ := 0 :: perm.map (· + 1)

/-- After `n` links, the arrays have kept their sizes and have these links. -/
def PlaneList.Threads (perm : List ℕ) (n : ℕ) (planes : PlaneList) : Prop :=
  planes.next.length = perm.length + 1 ∧ planes.prev.length = perm.length + 1 ∧
    Linked (planeOrder perm) n planes.next planes.prev

variable {perm : List ℕ} {k : ℕ}

theorem planeOrder_perm (hperm : perm.Perm (List.range k)) :
    (planeOrder perm).Perm (List.range (k + 1)) := by
  rw [planeOrder, List.range_succ_eq_map]
  exact (hperm.map (· + 1)).cons 0

theorem nodup_planeOrder (hperm : perm.Perm (List.range k)) : (planeOrder perm).Nodup :=
  (planeOrder_perm hperm).nodup_iff.mpr List.nodup_range

theorem planeOrder_succ {i p : ℕ} (h : perm[i]? = some p) :
    (planeOrder perm)[i + 1]? = some (p + 1) := by
  rw [planeOrder, List.getElem?_cons_succ, List.getElem?_map, h]
  rfl

theorem lt_of_getElem? (hperm : perm.Perm (List.range k)) {i p : ℕ} (h : perm[i]? = some p) :
    p < k :=
  List.mem_range.mp (hperm.mem_iff.mp (List.mem_of_getElem? h))

theorem linkPlane_ok (hperm : perm.Perm (List.range k)) {planes : PlaneList} {i : ℕ}
    (hi : i + 1 < k) (h : planes.Threads perm (i + 1)) :
    ∃ planes', linkPlane perm planes i = ok planes' ∧ planes'.Threads perm (i + 2) := by
  obtain ⟨hnext, hprev, hlinked⟩ := h
  have hlen : perm.length = k := hperm.length_eq.trans List.length_range
  have hp : perm[i]? = some perm[i] := List.getElem?_eq_getElem (by omega)
  have hq : perm[i + 1]? = some perm[i + 1] := List.getElem?_eq_getElem (by omega)
  have hpk := lt_of_getElem? hperm hp
  have hqk := lt_of_getElem? hperm hq
  refine ⟨⟨planes.next.set (perm[i] + 1) (perm[i + 1] + 1),
    planes.prev.set (perm[i + 1] + 1) (perm[i] + 1)⟩, ?_, ?_, ?_, ?_⟩
  · rw [linkPlane, subscript_ok hp, ok_bind, subscript_ok hq, ok_bind,
      assignAt_ok (by omega), ok_bind, ok_bind, ok_bind, assignAt_ok (by omega), ok_bind]
    rfl
  · rw [List.length_set, hnext]
  · rw [List.length_set, hprev]
  · exact hlinked.set (nodup_planeOrder hperm) (planeOrder_succ hp) (planeOrder_succ hq)
      (by omega) (by omega)

theorem linkPlane_loop (hperm : perm.Perm (List.range k)) {planes : PlaneList}
    (h : planes.Threads perm 1) {n : ℕ} (hn : n < k) :
    ∃ planes', (List.range n).foldlM (linkPlane perm) planes = ok planes' ∧
      planes'.Threads perm (n + 1) := by
  refine foldlM_range_ok (fun i (planes : PlaneList) => planes.Threads perm (i + 1)) ?_ h
  intro i hi planes h
  exact linkPlane_ok hperm (by omega) h

/-- **The plane list.**  For every permutation, no access is outside its vector, and the
arrays link the planes to one list, in both directions. -/
theorem linkPlanes_isChain (hk : 1 ≤ k) (hperm : perm.Perm (List.range k)) :
    ∃ planes, linkPlanes (k + 1) perm = ok planes ∧ Chain (k + 1) planes.next planes.prev := by
  have hlen : perm.length = k := hperm.length_eq.trans List.length_range
  have hp : perm[0]? = some perm[0] := List.getElem?_eq_getElem (by omega)
  have hlast : perm[k - 1]? = some perm[k - 1] := List.getElem?_eq_getElem (by omega)
  have hpk := lt_of_getElem? hperm hp
  have hlk := lt_of_getElem? hperm hlast
  have hsize : (List.replicate (k + 1) 0).length = k + 1 := List.length_replicate
  have hfirst : PlaneList.Threads perm 1 ⟨(List.replicate (k + 1) 0).set 0 (perm[0] + 1),
      ((List.replicate (k + 1) 0).set 0 1234567890).set (perm[0] + 1) 0⟩ := by
    refine ⟨?_, ?_, ?_⟩
    · rw [List.length_set, hsize, hlen]
    · rw [List.length_set, List.length_set, hsize, hlen]
    · exact (Linked.zero _ _ _).set (nodup_planeOrder hperm) rfl (planeOrder_succ hp)
        (by rw [hsize]; omega) (by rw [List.length_set, hsize]; omega)
  obtain ⟨planes, hloop, hnext, -, hlinked⟩ := linkPlane_loop hperm hfirst (show k - 1 < k by omega)
  have hinside : perm[k - 1] + 1 < planes.next.length := by omega
  refine ⟨⟨planes.next.set (perm[k - 1] + 1) (k + 1), planes.prev⟩, ?_, ?_⟩
  · rw [linkPlanes, assignAt_ok (by rw [hsize]; omega), ok_bind, subscript_ok hp, ok_bind,
      assignAt_ok (by rw [hsize]; omega), ok_bind, ok_bind,
      assignAt_ok (by rw [List.length_set, hsize]; omega), ok_bind,
      show k + 1 - 2 = k - 1 by omega, hloop, ok_bind, subscript_ok hlast, ok_bind,
      assignAt_ok hinside, ok_bind]
    rfl
  · have hend : (planeOrder perm)[k]? = some (perm[k - 1] + 1) := by
      have := planeOrder_succ hlast
      rwa [Nat.sub_add_cancel hk] at this
    rw [Nat.sub_add_cancel hk] at hlinked
    exact (hlinked.set_last (nodup_planeOrder hperm) hend (k + 1)).chain
      (planeOrder_perm hperm) rfl hend (List.getElem?_set_self hinside)

example : linkPlanes 4 [2, 0, 1] = ok ⟨[3, 2, 4, 1], [1234567890, 3, 1, 0]⟩ := rfl

/-- **A Hamiltonian chain.**  From `0`, `next` meets each of the `m = k + 1` planes once and
then the marker `m`; `prev` leads back; and no access is outside its vector. -/
theorem linkPlanes_hamiltonian (hk : 1 ≤ k) (hperm : perm.Perm (List.range k)) :
    ∃ next prev, linkPlanes (k + 1) perm = ok ⟨next, prev⟩ ∧
      ((List.range (k + 1)).map (walk next)).Perm ((List.range (k + 1)).map some) ∧
      walk next (k + 1) = some (k + 1) ∧
      ∀ i < k + 1, ∀ j, next[i]? = some j → j ≠ k + 1 → prev[j]? = some i := by
  obtain ⟨⟨next, prev⟩, hplanes, hchain⟩ := linkPlanes_isChain hk hperm
  exact ⟨next, prev, hplanes, hchain.visits, hchain.ends, fun i hi j => hchain.backward hi⟩

theorem linkPlanes_hamiltonian_three : ∃ next prev, linkPlanes 4 [2, 0, 1] = ok ⟨next, prev⟩ ∧
    ((List.range 4).map (walk next)).Perm ((List.range 4).map some) ∧ walk next 4 = some 4 ∧
    ∀ i < 4, ∀ j, next[i]? = some j → j ≠ 4 → prev[j]? = some i :=
  linkPlanes_hamiltonian (k := 3) (by decide) (by decide)

/-! ### The solver -/

/-- The values of `status`. -/
inductive LpStatus where
  | infeasible
  | minimum
  | unbounded
  | ambiguous
  | unknown
  deriving DecidableEq, Repr

/-- `linprog(halves, 0, m, n_vec, d_vec, 2, opt, work, next, prev, m)`, which returns the
status and fills the three elements of `opt`. -/
abbrev Linprog (R : Type) : Type :=
  List R → ℕ → List R → List R → PlaneList → LpStatus × R × R × R

variable {R : Type} [Double R]

open Double

/-- The `switch` at the end of `solve_lp2`. -/
def solution : LpStatus × R × R × R → Outcome Err (List R)
  | (.infeasible, _) => .throw (.runtimeError "error in computing bounding box: LP infeasible")
  | (.minimum, opt0, opt1, opt2) | (.ambiguous, opt0, opt1, opt2) =>
    if !(le opt2 0 && le 0 opt2) then ok [opt0 / opt2, opt1 / opt2]
    else .throw (.runtimeError "error in computing bounding box: LP solution at infinity?")
  | (.unbounded, _) =>
    .throw (.runtimeError "error in computing bounding box: LP region is unbounded")
  | (.unknown, _) =>
    .throw (.runtimeError "error in computing bounding box: unknown problem with LP solver")

/-- `solve_lp2(_halves, c)`. -/
def solve_lp2 (rand : ℕ → ℕ) (linprog : Linprog R) : LpSolver R := fun _halves c => do
  -- the trivial halfspace (0,0,1) should be at position 0 in halves
  let halves := [0, 0, 1] ++ _halves
  let n_vec := c ++ [0]
  let d_vec := [0, 0, 1]
  let m := halves.length / 3
  let perm ← randperm rand (m - 1)
  let planes ← linkPlanes m perm
  solution (linprog halves m n_vec d_vec planes)

variable (rand : ℕ → ℕ) (linprog : Linprog R) {halves : List R} (c : List R)

/-- The code, for `k` half-spaces. -/
theorem solve_lp2_planes (hlen : halves.length / 3 = k) :
    solve_lp2 rand linprog halves c = (do
      let perm ← randperm rand k
      let planes ← linkPlanes (k + 1) perm
      solution (linprog ([0, 0, 1] ++ halves) (k + 1) (c ++ [0]) [0, 0, 1] planes)) := by
  have hm : ([0, 0, 1] ++ halves).length / 3 = k + 1 := by
    rw [List.length_append]
    show (3 + halves.length) / 3 = k + 1
    omega
  simp only [solve_lp2, hm, Nat.add_sub_cancel]

/-- **The solver walks along a chain.**  With a half-space, the linking code ends, and what
the solver is called with links all the planes. -/
theorem solve_lp2_eq (hk : 1 ≤ k) (hlen : halves.length / 3 = k) :
    ∃ planes, Chain (k + 1) planes.next planes.prev ∧
      solve_lp2 rand linprog halves c =
        solution (linprog ([0, 0, 1] ++ halves) (k + 1) (c ++ [0]) [0, 0, 1] planes) := by
  obtain ⟨perm, hperm, hp⟩ := randperm_perm rand k
  obtain ⟨planes, hplanes, hchain⟩ := linkPlanes_isChain hk hp
  refine ⟨planes, hchain, ?_⟩
  rw [solve_lp2_planes rand linprog c hlen, hperm, ok_bind, hplanes, ok_bind]

/-- Without a half-space there is no permutation to begin the list with. -/
theorem solve_lp2_nil (hlen : halves.length / 3 = 0) :
    solve_lp2 rand linprog halves c = .throw .undefined := by
  rw [solve_lp2_planes rand linprog c hlen]
  rfl

variable (halves) in
/-- What `solve_lp2` returns is a point of the plane, and what it throws is a
`std::runtime_error`, unless there is no half-space. -/
theorem solve_lp2_cases : (∃ x y, solve_lp2 rand linprog halves c = ok [x, y]) ∨
    (∃ msg, solve_lp2 rand linprog halves c = .throw (.runtimeError msg)) ∨
    halves.length < 3 ∧ solve_lp2 rand linprog halves c = .throw .undefined := by
  obtain hk | hk := Nat.eq_zero_or_pos (halves.length / 3)
  · exact Or.inr (Or.inr ⟨by omega, solve_lp2_nil rand linprog c hk⟩)
  · obtain ⟨planes, -, heq⟩ := solve_lp2_eq rand linprog c hk rfl
    rw [heq]
    rcases linprog ([0, 0, 1] ++ halves) (halves.length / 3 + 1) (c ++ [0]) [0, 0, 1] planes with
      ⟨status, opt0, opt1, opt2⟩
    rw [← or_assoc]
    left
    cases status with
    | minimum | ambiguous =>
      rw [solution]
      split
      · exact Or.inl ⟨_, _, rfl⟩
      · exact Or.inr ⟨_, rfl⟩
    | _ => exact Or.inr ⟨_, rfl⟩

end Commelec
