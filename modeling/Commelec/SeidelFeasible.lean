/-
Commelec/SeidelFeasible.lean

What the solver returns is feasible, in exact arithmetic.

Unless it says `INFEASIBLE`, the vector that the solver returns is not zero, and it is on the
right side of each of the planes up to `d + 1` times `EPS` (`seidel_feasible`,
`dlinprog_feasible`).  The induction is on the dimension: on a plane of the problem, a vector of
the smaller problem has the same products with the projected planes as its back substitution has
with the planes themselves (`dot_vectorUp`), and the back substitution is not shorter.  The base
case is `WedgeRegion`.
-/
import Commelec.Euclidean
import Commelec.WedgeRegion

namespace Commelec

open Double Effectful Outcome LinkedList

namespace Lp

/-! ### The vectors of the solver -/

section Vectors

variable {a b low old plane_i : List ℝ} {i n : ℕ} {c x : ℝ}

theorem innerSum_real (a b : List ℝ) : innerSum a b = dot a b := by
  rw [innerSum, dot, List.sum_eq_foldl]

theorem foldl_sub (a : List ℝ) (x : ℝ) : a.foldl (· - ·) x = x - a.sum := by
  induction a generalizing x with
  | nil => simp
  | cons y a ih =>
    rw [List.foldl_cons, ih, List.sum_cons]
    ring

theorem dot_comm_list (a b : List ℝ) : dot a b = dot b a := by
  rw [dot, dot, List.zipWith_comm]
  simp only [mul_comm]

theorem dot_cons (x y : ℝ) (a b : List ℝ) : dot (x :: a) (y :: b) = x * y + dot a b := by
  simp [dot]

/-- The product with a vector that has got a coordinate. -/
theorem dot_insertIdx (hi : i ≤ low.length) (hb : b.length = low.length + 1) :
    dot (low.insertIdx i x) b = dot low (b.eraseIdx i) + x * b.getD i 0 := by
  induction i generalizing low b with
  | zero =>
    obtain ⟨y, b, rfl⟩ := List.exists_cons_of_length_eq_add_one hb
    rw [List.insertIdx_zero, dot_cons, List.eraseIdx_cons_zero, List.getD_cons_zero, add_comm]
  | succ i ih =>
    obtain ⟨z, low, rfl⟩ := List.exists_cons_of_length_pos (Nat.lt_of_lt_of_le (Nat.succ_pos i) hi)
    obtain ⟨y, b, rfl⟩ := List.exists_cons_of_length_eq_add_one hb
    rw [List.length_cons] at hi hb
    rw [List.insertIdx_succ_cons, dot_cons, List.eraseIdx_cons_succ, dot_cons, List.getD_cons_succ,
      ih (by omega) (by simpa using hb), add_assoc]

/-- Subtracting a multiple of a plane. -/
theorem dot_zipWith_sub (ha : a.length = n) (hb : b.length = n) (hold : old.length = n) :
    dot a (List.zipWith (fun o e => o - e * c) old b) = dot a old - c * dot a b := by
  induction n generalizing a b old with
  | zero =>
    rw [List.length_eq_zero_iff] at ha hb hold
    simp [ha, hb, hold, dot]
  | succ n ih =>
    obtain ⟨x, a, rfl⟩ := List.exists_cons_of_length_eq_add_one ha
    obtain ⟨y, b, rfl⟩ := List.exists_cons_of_length_eq_add_one hb
    obtain ⟨z, old, rfl⟩ := List.exists_cons_of_length_eq_add_one hold
    simp only [List.length_cons, Nat.add_right_cancel_iff] at ha hb hold
    rw [List.zipWith_cons_cons, dot_cons, dot_cons, dot_cons, ih ha hb hold]
    ring

theorem squaredNorm_nonneg' (a : List ℝ) : 0 ≤ dot a a := by
  induction a with
  | nil => simp [dot]
  | cons x a ih =>
    rw [dot_cons]
    exact add_nonneg (mul_self_nonneg x) ih

theorem dot_eq_zero (a : List ℝ) (hb : ∀ c ∈ b, c = 0) : dot a b = 0 := by
  induction a generalizing b with
  | nil => simp [dot]
  | cons x a ih =>
    cases b with
    | nil => simp [dot]
    | cons y b =>
      rw [dot_cons, hb y List.mem_cons_self, mul_zero, zero_add]
      exact ih fun c hc => hb c (List.mem_cons_of_mem y hc)

theorem dot_map_mul (a b : List ℝ) (c : ℝ) : dot (a.map (· * c)) b = c * dot a b := by
  induction a generalizing b with
  | nil => simp [dot]
  | cons x a ih =>
    cases b with
    | nil => simp [dot]
    | cons y b =>
      rw [List.map_cons, dot_cons, dot_cons, ih]
      ring

/-! ### Projection and back substitution -/

theorem length_vectorUp (plane_i : List ℝ) (hi : i ≤ low.length) :
    (vectorUp plane_i i low).length = low.length + 1 := by
  rw [vectorUp, List.length_insertIdx_of_le_length hi]

theorem vectorUp_eq (plane_i : List ℝ) (i : ℕ) (low : List ℝ) :
    vectorUp plane_i i low
      = low.insertIdx i (-dot low (plane_i.eraseIdx i) / plane_i.getD i 0) := by
  simp only [vectorUp]
  rw [foldl_sub, zero_sub, dot_comm_list low]
  rfl

/-- The back substitution is on the plane. -/
theorem dot_vectorUp_self (hi : i ≤ low.length) (hp : plane_i.length = low.length + 1)
    (hne : plane_i.getD i 0 ≠ 0) : dot (vectorUp plane_i i low) plane_i = 0 := by
  rw [vectorUp_eq, dot_insertIdx hi hp]
  field_simp
  ring

/-- A vector has the product with a projection that its back substitution has with the plane. -/
theorem dot_project (hi : i ≤ low.length) (hp : plane_i.length = low.length + 1)
    (hold : old.length = low.length + 1) (hne : plane_i.getD i 0 ≠ 0)
    (hc : old.getD i 0 = plane_i.getD i 0 * c) :
    dot low ((List.zipWith (fun o e => o - e * c) old plane_i).eraseIdx i)
      = dot (vectorUp plane_i i low) old := by
  have hcoord : (List.zipWith (fun o e => o - e * c) old plane_i).getD i 0 = 0 := by
    rw [getD_zipWith (hold.trans hp.symm) (by omega), hc, sub_self]
  have hup := dot_zipWith_sub (c := c) (length_vectorUp plane_i hi) hp hold
  rw [dot_vectorUp_self hi hp hne, mul_zero, sub_zero] at hup
  rw [← hup, vectorUp_eq, dot_insertIdx hi (by rw [List.length_zipWith, hold, hp, Nat.min_self]),
    hcoord, mul_zero, add_zero]

theorem dot_projectPlane (hi : i ≤ low.length) (hp : plane_i.length = low.length + 1)
    (hold : old.length = low.length + 1) (hne : plane_i.getD i 0 ≠ 0) :
    dot low (projectPlane plane_i i old) = dot (vectorUp plane_i i low) old := by
  refine dot_project hi hp hold hne ?_
  field_simp

theorem squaredNorm_vectorUp (hi : i ≤ low.length) :
    dot (vectorUp plane_i i low) (vectorUp plane_i i low)
      = dot low low + (dot low (plane_i.eraseIdx i) / plane_i.getD i 0) ^ 2 := by
  have hlen := length_vectorUp plane_i hi
  rw [vectorUp_eq] at hlen ⊢
  have hlt : i < (low.insertIdx i (-dot low (plane_i.eraseIdx i) / plane_i.getD i 0)).length := by
    omega
  rw [dot_insertIdx hi hlen, List.eraseIdx_insertIdx_self, List.getD_eq_getElem _ _ hlt,
    List.getElem_insertIdx_self, neg_div, neg_mul_neg, sq]

/-- Back substitution does not shorten a vector. -/
theorem squaredNorm_le_vectorUp (plane_i : List ℝ) (hi : i ≤ low.length) :
    dot low low ≤ dot (vectorUp plane_i i low) (vectorUp plane_i i low) := by
  rw [squaredNorm_vectorUp hi]
  exact le_add_of_nonneg_right (sq_nonneg _)

/-- The vector of `lp_d_unit` and of `unit`. -/
theorem dot_unit {opt : List ℝ} (hopt : 0 < dot opt opt) :
    dot (opt.map (· * (1 / norm opt))) (opt.map (· * (1 / norm opt))) = 1 := by
  have hnorm : 0 < norm opt := Real.sqrt_pos.mpr hopt
  have hsq : dot opt opt = norm opt ^ 2 := (Real.sq_sqrt hopt.le).symm
  rw [dot_map_mul, dot_comm_list, dot_map_mul, hsq]
  field_simp

theorem dot_unitized {opt : List ℝ} (hopt : 0 < dot opt opt) :
    dot (unitized opt) (unitized opt) = 1 := by
  rw [unitized, innerSum_real]
  exact dot_unit hopt

/-- After `unit`, a vector is as before but for its length. -/
theorem unitized_spec {opt : List ℝ} (hopt : 0 < dot opt opt) :
    ∃ s > 0, s * norm opt = 1 ∧ ∀ b, dot (unitized opt) b = s * dot opt b := by
  have hnorm : 0 < norm opt := Real.sqrt_pos.mpr hopt
  refine ⟨1 / norm opt, one_div_pos.mpr hnorm, one_div_mul_cancel hnorm.ne', fun b => ?_⟩
  rw [unitized, innerSum_real]
  exact dot_map_mul opt b _

end Vectors

/-! ### The largest coefficient -/

section Findimax

variable {pln : List ℝ} {d : ℕ}

/-- What the loop of `findimax` has found among the first `n + 1` coefficients. -/
theorem foldl_largerAbs (pln : List ℝ) (n : ℕ) :
    ∃ i ≤ n, (List.range' 1 n).foldl (largerAbs pln) (0, ABS (pln.getD 0 0))
        = (i, |pln.getD i 0|) ∧ ∀ j ≤ n, |pln.getD j 0| ≤ |pln.getD i 0| := by
  induction n with
  | zero =>
    refine ⟨0, le_rfl, ?_, fun j hj => ?_⟩
    · rw [ABS_real]
      rfl
    · rw [Nat.le_zero.mp hj]
  | succ n ih =>
    obtain ⟨i, hi, hfold, hmax⟩ := ih
    rw [List.range'_1_concat, List.foldl_concat, hfold, largerAbs, ABS_real, Nat.add_comm 1 n]
    by_cases hlt : |pln.getD i 0| < |pln.getD (n + 1) 0|
    · refine ⟨n + 1, le_rfl, if_pos (by rwa [lt_real]), fun j hj => ?_⟩
      rcases Nat.lt_or_eq_of_le hj with hj | rfl
      · exact (hmax j (Nat.le_of_lt_succ hj)).trans hlt.le
      · exact le_rfl
    · refine ⟨i, hi.trans (Nat.le_succ n), if_neg (by rwa [lt_real]), fun j hj => ?_⟩
      rcases Nat.lt_or_eq_of_le hj with hj | rfl
      · exact hmax j (Nat.le_of_lt_succ hj)
      · exact not_lt.mp hlt

theorem findimax_le (pln : List ℝ) (d : ℕ) : findimax pln d ≤ d := by
  obtain ⟨i, hi, hfold, -⟩ := foldl_largerAbs pln d
  rw [findimax, hfold]
  exact hi

theorem le_findimax (pln : List ℝ) {d j : ℕ} (hj : j ≤ d) :
    |pln.getD j 0| ≤ |pln.getD (findimax pln d) 0| := by
  obtain ⟨i, -, hfold, hmax⟩ := foldl_largerAbs pln d
  rw [findimax, hfold]
  exact hmax j hj

/-- A plane that some vector has a product with is not zero. -/
theorem findimax_ne {opt : List ℝ} (hlen : pln.length = d + 1) (hdot : dot opt pln ≠ 0) :
    pln.getD (findimax pln d) 0 ≠ 0 := by
  intro hzero
  have hall : ∀ c ∈ pln, c = 0 := by
    intro c hc
    obtain ⟨j, hj, rfl⟩ := List.getElem_of_mem hc
    have hle := le_findimax pln (d := d) (j := j) (by omega)
    rw [hzero, abs_zero, List.getD_eq_getElem _ _ hj] at hle
    exact abs_nonpos_iff.mp hle
  exact hdot (dot_eq_zero opt hall)

end Findimax

/-! ### Feasibility -/

/-- `x` is on the right side of a plane, up to the tolerance in dimension `d`. -/
def OnSide (d : ℕ) (plane x : List ℝ) : Prop := -((d + 1) * EPS * norm x) ≤ dot x plane

/-- Unless a result says `INFEASIBLE`, it is a vector on the right side of the planes. -/
structure Feasible (d : ℕ) (plane : ℕ → List ℝ) (order : List ℕ) (x : List ℝ) : Prop where
  length : x.length = d + 1
  pos : 0 < dot x x
  onSide {j : ℕ} : j ∈ order → OnSide d (plane j) x

section Start

variable {d : ℕ} {n_vec d_vec x : List ℝ}

theorem lit_succ (d : ℕ) : (lit (d + 1) : ℝ) = d + 1 := by
  rw [lit_real]
  push_cast
  rfl

theorem lit_neg_succ (d : ℕ) : (lit (-(d + 1)) : ℝ) = -(d + 1) := by
  rw [lit_real]
  push_cast
  rfl

theorem one_le_set {opt : List ℝ} {i : ℕ} (hi : i < opt.length) :
    1 ≤ dot (opt.set i 1) (opt.set i 1) := by
  induction opt generalizing i with
  | nil => cases hi
  | cons y opt ih =>
    cases i with
    | zero =>
      rw [List.set_cons_zero, dot_cons, mul_one]
      exact le_add_of_nonneg_right (squaredNorm_nonneg' opt)
    | succ i =>
      rw [List.set_cons_succ, dot_cons]
      have := ih (Nat.lt_of_succ_lt_succ hi)
      have := mul_self_nonneg y
      linarith

theorem lpDUnit_some {opt unit : List ℝ} (h : lpDUnit d opt = some unit) :
    unit.length = opt.length ∧ dot unit unit = 1 := by
  have hE := EPS_pos
  by_cases hlt : lt (innerSum opt opt) (lit (d + 1) * EPS * EPS) = true
  · have hnone : lpDUnit d opt = none := if_pos hlt
    rw [hnone] at h
    cases h
  · have hsome : lpDUnit d opt = some (opt.map (· * (1 / sqrt (innerSum opt opt)))) := if_neg hlt
    rw [lt_real, not_lt, lit_succ, innerSum_real] at hlt
    have hpos : 0 < dot opt opt := lt_of_lt_of_le (by positivity) hlt
    rw [hsome, innerSum_real] at h
    obtain rfl := Option.some.inj h
    exact ⟨List.length_map _, dot_unit hpos⟩

theorem lpNoConstraints_spec (hn : n_vec.length = d + 1) (hd : d_vec.length = d + 1) :
    (lpNoConstraints d n_vec d_vec).2.length = d + 1 ∧
      1 ≤ dot (lpNoConstraints d n_vec d_vec).2 (lpNoConstraints d n_vec d_vec).2 ∧
      (lpNoConstraints d n_vec d_vec).1 ≠ .infeasible := by
  rw [lpNoConstraints]
  set p := if lt (innerSum d_vec d_vec) (EPS * EPS) then ((0 : ℝ), (1 : ℝ))
    else (innerSum n_vec d_vec, innerSum d_vec d_vec)
  have hlen : (List.zipWith (fun n e => -n + e * p.1 / p.2) n_vec d_vec).length = d + 1 := by
    rw [List.length_zipWith, hn, hd, Nat.min_self]
  dsimp only
  cases hunit : lpDUnit d (List.zipWith (fun n e => -n + e * p.1 / p.2) n_vec d_vec) with
  | none =>
    refine ⟨?_, one_le_set (by omega), LpStatus.noConfusion⟩
    rw [List.length_set, hlen]
  | some unit =>
    obtain ⟨hlen', hone⟩ := lpDUnit_some hunit
    exact ⟨hlen'.trans hlen, hone.ge, LpStatus.noConfusion⟩

end Start

/-! #### The base case -/

section Base

variable {plane : ℕ → List ℝ} {order : List ℕ} {n_vec d_vec : List ℝ}

theorem dot_pair (x : ℝ × ℝ) {pln : List ℝ} (hlen : pln.length = 2) :
    dot [x.1, x.2] pln = Planar.dot x (firstTwo pln) := by
  obtain ⟨a, b, rfl⟩ := List.length_eq_two.mp hlen
  simp [dot, Planar.dot, firstTwo]

theorem norm_pair (x : ℝ × ℝ) : norm [x.1, x.2] = len x := by
  rw [norm, squaredNorm, dot_pair x rfl]
  rfl

theorem onSide_of_near {x : ℝ × ℝ} {pln : List ℝ} (hlen : pln.length = 2)
    (h : Near (firstTwo pln) x) : OnSide 1 pln [x.1, x.2] := by
  rw [OnSide, norm_pair, dot_pair x hlen, Nat.cast_one, one_add_one_eq_two]
  exact h

/-- **Dimension 1.** -/
theorem seidel_one_feasible (hplane : ∀ j ∈ order, (plane j).length = 2) (hn : n_vec.length = 2)
    (hd : d_vec.length = 2) (hstatus : (seidel 1 plane order n_vec d_vec).1.1 ≠ .infeasible) :
    Feasible 1 plane order (seidel 1 plane order n_vec d_vec).1.2 := by
  obtain ⟨hlen, hpos, -⟩ := lpNoConstraints_spec (d := 1) hn hd
  rw [seidel] at hstatus ⊢
  by_cases horder : order = []
  · rw [if_pos horder]
    exact ⟨hlen, by linarith, fun hj => absurd hj (by rw [horder]; exact List.not_mem_nil)⟩
  · rw [if_neg horder] at hstatus ⊢
    rcases hwedge : wedgeList (fun i => firstTwo (plane i)) order with ⟨status | w, order'⟩
    · simp only [hwedge] at hstatus ⊢
      have hfound : (wedgeList (fun i => firstTwo (plane i)) order).1 = .error status := by
        rw [hwedge]
      rcases wedgeList_error hfound with rfl | rfl
      · refine ⟨hlen, by rw [baseOptimum]; linarith, fun {j} hj => ?_⟩
        obtain ⟨a, b, hab⟩ := List.length_eq_two.mp hlen
        have hnear := wedgeList_unbounded hfound (a, b) j hj
        have hside := onSide_of_near (hplane j hj) hnear
        rw [baseOptimum, hab]
        exact hside
      · exact absurd rfl hstatus
    · simp only [hwedge] at hstatus ⊢
      have hfound : (wedgeList (fun i => firstTwo (plane i)) order).1 = .ok w := by rw [hwedge]
      obtain ⟨hproper, hnear⟩ := wedgeList_near hfound
      obtain ⟨hmem, hne⟩ := optimum_has (n := firstTwo n_vec) (d := firstTwo d_vec) hproper
      refine ⟨rfl, ?_, fun {j} hj => ?_⟩
      · rw [baseOptimum]
        dsimp only
        rw [dot_pair _ rfl]
        exact Planar.dot_self_pos.mpr hne
      · exact onSide_of_near (hplane j hj) (hnear j hj _ hmem)

end Base

/-! #### The loop of `linprog` -/

section Loop

variable {d i imax : ℕ} {plane : ℕ → List ℝ} {front front' rest order order' : List ℕ}
variable {n_vec d_vec opt new_opt plane_i pln : List ℝ} {sub : OrderSolver ℝ}

theorem Feasible.of_subset (h : Feasible d plane order opt) (hsub : order' ⊆ order) :
    Feasible d plane order' opt :=
  ⟨h.length, h.pos, fun hj => h.onSide (hsub hj)⟩

/-- A plane that the optimum does not offend. -/
theorem onSide_of_passes (hopt : 1 ≤ dot opt opt) (h : offends d opt pln = false) :
    OnSide d pln opt := by
  have hE := EPS_pos
  have hlt : ¬ lt (innerSum opt pln) (lit (-(d + 1)) * EPS) = true := by
    rw [← offends, h]
    exact Bool.false_ne_true
  rw [lt_real, not_lt, lit_neg_succ, innerSum_real] at hlt
  have hnorm : 1 ≤ norm opt := Real.one_le_sqrt.mpr hopt
  refine le_trans ?_ hlt
  rw [neg_mul, neg_le_neg_iff]
  exact le_mul_of_one_le_right (by positivity) hnorm

/-- A plane that it offends is not zero. -/
theorem dot_ne_of_offends (h : offends d opt pln = true) : dot opt pln ≠ 0 := by
  have hE := EPS_pos
  rw [offends, lt_real, lit_neg_succ, innerSum_real] at h
  refine (h.trans_le ?_).ne
  rw [neg_mul, neg_nonpos]
  positivity

/-- **Back substitution** keeps the planes that have been projected, and gains one. -/
theorem Feasible.vectorUp (himax : imax ≤ d + 1) (hplane_i : (plane i).length = d + 2)
    (hplane : ∀ j ∈ front, (plane j).length = d + 2) (hne : (plane i).getD imax 0 ≠ 0)
    (h : Feasible d (fun j => projectPlane (plane i) imax (plane j)) front new_opt) :
    Feasible (d + 1) plane (front ++ [i]) (unitized (Lp.vectorUp (plane i) imax new_opt)) ∧
      dot (unitized (Lp.vectorUp (plane i) imax new_opt))
        (unitized (Lp.vectorUp (plane i) imax new_opt)) = 1 := by
  have hE := EPS_pos
  have hi : imax ≤ new_opt.length := by rw [h.length]; exact himax
  have hlen : (plane i).length = new_opt.length + 1 := by rw [h.length, hplane_i]
  have hle := squaredNorm_le_vectorUp (plane i) hi
  have hup : 0 < dot (Lp.vectorUp (plane i) imax new_opt) (Lp.vectorUp (plane i) imax new_opt) :=
    h.pos.trans_le hle
  have hone : dot (unitized (Lp.vectorUp (plane i) imax new_opt))
      (unitized (Lp.vectorUp (plane i) imax new_opt)) = 1 := dot_unitized hup
  have hnorm : norm (unitized (Lp.vectorUp (plane i) imax new_opt)) = 1 := by
    rw [norm, squaredNorm, hone]
    exact Real.sqrt_one
  obtain ⟨s, hs, hscale, hdot⟩ := unitized_spec hup
  refine ⟨⟨?_, by rw [hone]; exact one_pos, fun {j} hj => ?_⟩, hone⟩
  · rw [unitized, List.length_map, length_vectorUp _ hi, h.length]
  rw [OnSide, hnorm, mul_one, hdot]
  rcases List.mem_append.mp hj with hj | hj
  · -- the vector has the product with the projected plane, and is not longer
    have hside : -((d + 1) * EPS * norm new_opt)
        ≤ dot (Lp.vectorUp (plane i) imax new_opt) (plane j) := by
      rw [← dot_projectPlane hi hlen (by rw [hplane j hj, h.length]) hne]
      exact h.onSide hj
    have hshort : s * norm new_opt ≤ 1 := by
      rw [← hscale]
      exact mul_le_mul_of_nonneg_left (Real.sqrt_le_sqrt hle) hs.le
    have hmul := mul_le_mul_of_nonneg_left hside hs.le
    have htol := mul_le_mul_of_nonneg_left hshort (show 0 ≤ ((d : ℝ) + 1) * EPS by positivity)
    push_cast
    linarith
  · rw [List.mem_singleton.mp hj, dot_vectorUp_self hi hlen hne, mul_zero, neg_nonpos]
    push_cast
    positivity

/-- A solver in dimension `d` returns feasible vectors. -/
def OrderSolver.Solves (d : ℕ) (sub : OrderSolver ℝ) : Prop :=
  ∀ plane order n_vec d_vec, (∀ j ∈ order, (plane j).length = d + 1) → n_vec.length = d + 1 →
    d_vec.length = d + 1 → (sub plane order n_vec d_vec).1.1 ≠ .infeasible →
      Feasible d plane order (sub plane order n_vec d_vec).1.2

theorem length_down {elim_eqn old : List ℝ} {c : ℝ} (himax : imax ≤ d + 1)
    (helim : elim_eqn.length = d + 2) (hold : old.length = d + 2) :
    ((List.zipWith (fun o e => o - e * c) old elim_eqn).eraseIdx imax).length = d + 1 := by
  have hlen : (List.zipWith (fun o e => o - e * c) old elim_eqn).length = d + 2 := by
    rw [List.length_zipWith, hold, helim, Nat.min_self]
  rw [List.length_eraseIdx_of_lt (by omega), hlen]
  rfl

/-- **The smaller problem.** -/
theorem onPlane_feasible (hsub : sub.Solves d) (hplane_i : (plane i).length = d + 2)
    (hplane : ∀ j ∈ front, (plane j).length = d + 2) (hn : n_vec.length = d + 2)
    (hd : d_vec.length = d + 2)
    (hstatus : (onPlane (d + 1) sub plane n_vec d_vec front i).1.1 ≠ .infeasible) :
    Feasible d (fun j => projectPlane (plane i) (findimax (plane i) (d + 1)) (plane j)) front
      (onPlane (d + 1) sub plane n_vec d_vec front i).1.2 := by
  have himax := findimax_le (plane i) (d + 1)
  refine hsub _ _ _ _ (fun j hj => length_down himax hplane_i (hplane j hj)) ?_ ?_ hstatus
  · rw [projectObjective]
    split
    · exact length_down himax hplane_i hn
    · exact length_down himax hplane_i hn
  · rw [projectObjective]
    split
    · exact List.length_replicate
    · exact length_down himax hplane_i hd

/-- **The loop** over the planes. -/
theorem seidelLoop_feasible (hsub : sub.Solves d) (hreorders : sub.Reorders)
    (hplane : ∀ j ∈ front ++ rest, (plane j).length = d + 2) (hn : n_vec.length = d + 2)
    (hd : d_vec.length = d + 2) {status : LpStatus} (hopt : Feasible (d + 1) plane front opt)
    (hone : 1 ≤ dot opt opt)
    (hstatus : (seidelLoop (d + 1) sub plane n_vec d_vec front rest (status, opt)).1.1
      ≠ .infeasible) :
    Feasible (d + 1) plane (front ++ rest)
      (seidelLoop (d + 1) sub plane n_vec d_vec front rest (status, opt)).1.2 := by
  induction rest generalizing front status opt with
  | nil =>
    rw [List.append_nil]
    exact hopt
  | cons i rest ih =>
    rcases hoffends : offends (d + 1) opt (plane i) with - | -
    · rw [seidelLoop_pass hoffends] at hstatus ⊢
      rw [List.append_cons]
      refine ih (by rwa [← List.append_cons]) ⟨hopt.length, hopt.pos, fun {j} hj => ?_⟩ hone hstatus
      rcases List.mem_append.mp hj with hj | hj
      · exact hopt.onSide hj
      · rw [List.mem_singleton.mp hj]
        exact onSide_of_passes hone hoffends
    · rcases honPlane : onPlane (d + 1) sub plane n_vec d_vec front i
        with ⟨⟨status', new_opt⟩, front'⟩
      have hfront : front'.Perm front := by
        have hperm : (onPlane (d + 1) sub plane n_vec d_vec front i).2.Perm front :=
          hreorders _ _ _ _
        rwa [honPlane] at hperm
      -- the solution on the plane, lifted, satisfies the planes before it
      by_cases hinf : status' = .infeasible
      · rw [hinf] at honPlane
        rw [seidelLoop_infeasible hoffends honPlane] at hstatus
        exact absurd rfl hstatus
      · have hplane_i := hplane i (by simp)
        have hplane' : ∀ j ∈ front, (plane j).length = d + 2 := fun j hj =>
          hplane j (List.mem_append_left _ hj)
        have hlow := onPlane_feasible hsub hplane_i hplane' hn hd (by rwa [honPlane])
        rw [honPlane] at hlow
        obtain ⟨hup, hunit⟩ := hlow.vectorUp (findimax_le _ _) hplane_i hplane'
          (findimax_ne hplane_i (dot_ne_of_offends hoffends))
        have hperm : (toFront front' i).Perm (front ++ [i]) :=
          (toFront_perm front' i).trans (hfront.append_right _)
        rw [seidelLoop_project hoffends honPlane hinf] at hstatus ⊢
        have hrest := ih (fun j hj => hplane j ?_) (hup.of_subset hperm.subset) hunit.ge hstatus
        · refine hrest.of_subset ?_
          rw [List.append_cons]
          exact (hperm.append_right rest).symm.subset
        · rw [List.append_cons]
          exact (hperm.append_right rest).subset hj

end Loop

/-! ### Every dimension -/

/-- **The solver returns feasible vectors.** -/
theorem seidel_feasible (d : ℕ) : (seidel (d + 1) : OrderSolver ℝ).Solves (d + 1) := by
  induction d with
  | zero =>
    intro plane order n_vec d_vec hplane hn hd hstatus
    exact seidel_one_feasible hplane hn hd hstatus
  | succ d ih =>
    intro plane order n_vec d_vec hplane hn hd hstatus
    obtain ⟨hlen, hone, -⟩ := lpNoConstraints_spec hn hd
    rw [seidel] at hstatus ⊢
    exact seidelLoop_feasible ih (seidel_reorders (d + 1)) hplane hn hd
      ⟨hlen, by linarith, fun hj => absurd hj List.not_mem_nil⟩ hone hstatus

section Chain

variable {stray : StrayArgument} {halves : Planes ℝ} {plane : ℕ → List ℝ} {m fuel d : ℕ}
variable {next prev : List ℕ} {n_vec d_vec : List ℝ}

/-- **The solver's answer is feasible.**  On a chain of planes it ends, and unless it says
`INFEASIBLE`, the vector it returns is not zero and on the right side of all planes. -/
theorem dlinprog_feasible (hstray : stray.Harmless m) (hfuel : m < fuel) (hm : 0 < m)
    (hchain : Chain m next prev) (hplane : ∀ j < m, halves j = some (plane j))
    (hlen : ∀ j < m, (plane j).length = d + 3) (hn : n_vec.length = d + 3)
    (hd : d_vec.length = d + 3) :
    ∃ status opt planes', dlinprog stray fuel m (d + 2) halves m n_vec d_vec ⟨next, prev⟩
        = (ok (status, opt), planes') ∧
      (status ≠ .infeasible → Feasible (d + 2) plane (List.range m) opt) := by
  obtain ⟨order, h⟩ := hchain.lists hm
  obtain ⟨planes', hrun, -⟩ := dlinprog_computes hstray hfuel hm
    (fun j hj => hplane j (h.lt hj)) d n_vec d_vec ⟨next, prev⟩ h
  refine ⟨_, _, planes', hrun, fun hstatus => ?_⟩
  have hfeasible := seidel_feasible (d + 1) plane order n_vec d_vec
    (fun j hj => hlen j (h.lt hj)) hn hd hstatus
  exact hfeasible.of_subset h.perm.symm.subset

theorem dlinprog_feasible_slab : ∃ planes',
    dlinprog (fun _ _ => 3) 4 3 2 (fun j => some (slab j)) 3 [1, 0, 0] [0, 0, 1]
        ⟨[1, 2, 3], [7, 0, 1]⟩ = (ok (.ambiguous, [0, 1, 0]), planes') ∧
      Feasible 2 slab (List.range 3) [0, 1, 0] := by
  have hfeasible : ∃ status opt planes',
      dlinprog (fun _ _ => 3) 4 3 2 (fun j => some (slab j)) 3 [1, 0, 0] [0, 0, 1]
          ⟨[1, 2, 3], [7, 0, 1]⟩ = (ok (status, opt), planes') ∧
        (status ≠ .infeasible → Feasible 2 slab (List.range 3) opt) :=
    dlinprog_feasible (fun _ _ j hj => by omega) (by omega) (by omega) chain_three
      (fun _ _ => rfl) slab_length rfl rfl
  obtain ⟨status, opt, planes', hrun, hopt⟩ := hfeasible
  obtain ⟨planes, hslab⟩ := dlinprog_slab
  obtain ⟨⟨rfl, rfl⟩, rfl⟩ : (status = .ambiguous ∧ opt = [0, 1, 0]) ∧ planes' = planes := by
    simpa using hrun.symm.trans hslab
  exact ⟨planes', hrun, hopt (by simp)⟩

end Chain

end Lp

end Commelec
