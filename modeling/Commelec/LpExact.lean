/-
Commelec/LpExact.lean

`solve_lp2` with the solver of the repository, in exact arithmetic.

* `solve_lp2_seidel` — it computes what `seidel` does for the planes in some order;
* `solve_lp2_exact` — where the determinants of the planes are clear, it returns a point where
  the objective is smallest, or it throws, and then the region is empty or not bounded.
-/
import Commelec.PolytopeBox
import Commelec.SeidelExact

namespace Commelec

open Double Effectful Outcome LinkedList

namespace Lp

/-! ### The planes of an array -/

section Planes

variable {R : Type} {h : List R} {hs : List (List R)} {d : ℕ}

theorem planesOf_append (hlen : h.length = d + 1) (a : List R) (i : ℕ) :
    planesOf (h ++ a) d (i + 1) = planesOf a d i := by
  have hle : (i + 1 + 1) * (d + 1) ≤ (h ++ a).length ↔ (i + 1) * (d + 1) ≤ a.length := by
    rw [List.length_append, hlen, Nat.succ_mul, Nat.add_comm, Nat.add_le_add_iff_left]
  have hdrop : (h ++ a).drop ((i + 1) * (d + 1)) = a.drop (i * (d + 1)) := by
    rw [Nat.succ_mul, Nat.add_comm, ← List.drop_drop, ← hlen, List.drop_left]
  rw [planesOf, planesOf, hdrop]
  exact if_congr hle rfl rfl

theorem planesOf_flatten (hlen : ∀ h ∈ hs, h.length = d + 1) (i : ℕ) :
    planesOf hs.flatten d i = hs[i]? := by
  induction hs generalizing i with
  | nil => exact if_neg (by simp)
  | cons h hs ih =>
    rw [List.forall_mem_cons] at hlen
    rw [List.flatten_cons]
    cases i with
    | zero =>
      have hle : (0 + 1) * (d + 1) ≤ (h ++ hs.flatten).length := by
        rw [List.length_append, hlen.1]
        omega
      rw [planesOf, if_pos hle, zero_mul, List.drop_zero, ← hlen.1, List.take_left]
      rfl
    | succ i => rw [planesOf_append hlen.1, ih hlen.2, List.getElem?_cons_succ]

end Planes

/-! ### The list that `solve_lp2` makes -/

section Seidel

variable {R : Type} [Double R] {hs : List (List R)} {stray : StrayArgument} {fuel k : ℕ}

/-- The planes of `solve_lp2`: the trivial half-space, and its argument. -/
def lpPlane (hs : List (List R)) (i : ℕ) : List R := (([0, 0, 1] :: hs)[i]?).getD []

/-- The solver's result as `solve_lp2` reads it. -/
def readResult (found : LpResult R) : LpStatus × R × R × R :=
  (found.1, found.2.getD 0 0, found.2.getD 1 0, found.2.getD 2 0)

theorem linprog_eq {halves : List R} {m : ℕ} {n_vec d_vec : List R} {planes planes' : PlaneList}
    {found : LpResult R}
    (h : dlinprog stray fuel m 2 (planesOf halves 2) m n_vec d_vec planes = (ok found, planes')) :
    linprog stray fuel halves m n_vec d_vec planes = readResult found := by
  rw [linprog, h]
  rfl

/-- **`solve_lp2` runs the algorithm** on its planes in some order, the trivial half-space
first. -/
theorem solve_lp2_seidel (rand : ℕ → ℕ) (hstray : stray.Harmless (k + 1)) (hfuel : k + 1 < fuel)
    (hk : hs.length = k) (hne : hs ≠ []) (hlen : ∀ h ∈ hs, h.length = 3) (c : List R) :
    ∃ rest, (0 :: rest).Perm (List.range (k + 1)) ∧
      solve_lp2 rand (linprog stray fuel) hs.flatten c =
        solution (readResult (seidel 2 (lpPlane hs) (0 :: rest) (c ++ [0]) [0, 0, 1]).1) := by
  have hflat : hs.flatten.length = 3 * k := by
    rw [← hk, List.length_flatten]
    clear hne hk
    induction hs with
    | nil => rfl
    | cons h hs ih =>
      rw [List.forall_mem_cons] at hlen
      rw [List.map_cons, List.sum_cons, hlen.1, ih hlen.2, List.length_cons]
      omega
  have hpos : 1 ≤ k := hk ▸ List.length_pos_of_ne_nil hne
  -- the random order that the code has linked, as a list
  obtain ⟨⟨next, prev⟩, hchain, heq⟩ := solve_lp2_eq rand (linprog stray fuel) c hpos
    (show hs.flatten.length / 3 = k by omega)
  obtain ⟨order, hlists⟩ := hchain.lists (Nat.succ_pos k)
  obtain ⟨rest, rfl⟩ : ∃ rest, order = 0 :: rest := by
    cases order with
    | nil => cases hlists.head
    | cons z rest =>
      obtain rfl : z = 0 := Option.some.inj hlists.head
      exact ⟨rest, rfl⟩
  have hplane : ∀ j ∈ 0 :: rest,
      planesOf ([0, 0, 1] ++ hs.flatten) 2 j = some (lpPlane hs j) := by
    intro j hj
    have hlt := hlists.lt hj
    have hall : ∀ h ∈ [0, 0, 1] :: hs, h.length = 2 + 1 := List.forall_mem_cons.mpr ⟨rfl, hlen⟩
    have hflatten := planesOf_flatten hall j
    rw [List.flatten_cons] at hflatten
    rw [hflatten, lpPlane, List.getElem?_eq_getElem (by rw [List.length_cons]; omega),
      Option.getD_some]
  obtain ⟨planes', hrun, -⟩ := dlinprog_computes hstray hfuel (Nat.succ_pos k) hplane 0
    (c ++ [0]) [0, 0, 1] ⟨next, prev⟩ hlists
  refine ⟨rest, hlists.perm, ?_⟩
  rw [heq, linprog_eq hrun]

end Seidel

/-! ### Exactness -/

section Exact

variable {hs : List (List ℝ)} {stray : StrayArgument} {fuel : ℕ} {c0 c1 : ℝ}

/-- The points of the half-spaces are the vectors inside, with last coordinate 1. -/
theorem mem_halvesRegion (hlen : ∀ h ∈ hs, h.length = 3) (u : ℝ × ℝ) :
    u ∈ halvesRegion hs.flatten ↔ ∀ h ∈ hs, 0 ≤ dot [u.1, u.2, 1] h := by
  induction hs with
  | nil => simp [halvesRegion]
  | cons h hs ih =>
    rw [List.forall_mem_cons] at hlen
    obtain ⟨h0, h1, h2, rfl⟩ := List.length_eq_three.mp hlen.1
    have hdot : dot [u.1, u.2, 1] [h0, h1, h2] = h0 * u.1 + h1 * u.2 + h2 := by
      simp [dot]
      ring
    rw [List.forall_mem_cons, hdot, ← ih hlen.2]
    rfl

theorem inside_iff {k : ℕ} (hk : hs.length = k) {order : List ℕ}
    (horder : order.Perm (List.range (k + 1))) {x : List ℝ} :
    Inside (lpPlane hs) order x ↔
      x.length = 3 ∧ 0 ≤ dot x [0, 0, 1] ∧ ∀ h ∈ hs, 0 ≤ dot x h := by
  refine and_congr_right fun _ => ⟨fun hall => ⟨hall 0 ?_, fun h hh => ?_⟩, fun hall j hj => ?_⟩
  · exact horder.mem_iff.mpr (List.mem_range.mpr (Nat.succ_pos k))
  · obtain ⟨j, hj, rfl⟩ := List.getElem_of_mem hh
    have hside := hall (j + 1) (horder.mem_iff.mpr (List.mem_range.mpr (by omega)))
    rwa [lpPlane, List.getElem?_cons_succ, List.getElem?_eq_getElem hj, Option.getD_some] at hside
  · have hlt := List.mem_range.mp (horder.mem_iff.mp hj)
    cases j with
    | zero => exact hall.1
    | succ j =>
      have hj' : j < hs.length := by omega
      rw [lpPlane, List.getElem?_cons_succ, List.getElem?_eq_getElem hj', Option.getD_some]
      exact hall.2 _ (List.getElem_mem hj')

/-- What `solve_lp2` promises: a point where the objective is smallest, or an error where there
are no points, or points without bound. -/
def Answers (halves : List ℝ) (c0 c1 : ℝ) (answer : Outcome Err (List ℝ)) : Prop :=
  (∃ u ∈ halvesRegion halves, IsMinOn (objective c0 c1) (halvesRegion halves) u ∧
    answer = ok [u.1, u.2]) ∨
  ((∃ msg, answer = .throw (.runtimeError msg)) ∧
    (halvesRegion halves = ∅ ∨ ¬ Bornology.IsBounded (halvesRegion halves)))

/-- The `switch` at the end of `solve_lp2`, where there is a solution. -/
theorem solution_eq {status : LpStatus} (hstatus : status = .minimum ∨ status = .ambiguous)
    (x0 x1 x2 : ℝ) : solution (status, x0, x1, x2) =
      if x2 = 0 then
        .throw (.runtimeError "error in computing bounding box: LP solution at infinity?")
      else ok [x0 / x2, x1 / x2] := by
  have hzero : (!(le x2 0 && le 0 x2)) = true ↔ x2 ≠ 0 := by
    rw [Bool.not_eq_true', ← Bool.not_eq_true, Bool.and_eq_true, le_real, le_real,
      ← le_antisymm_iff]
  rcases hstatus with rfl | rfl
  · rw [solution]
    by_cases h : x2 = 0
    · rw [if_neg fun hne => hzero.mp hne h, if_pos h]
    · rw [if_pos (hzero.mpr h), if_neg h]
  · rw [solution]
    by_cases h : x2 = 0
    · rw [if_neg fun hne => hzero.mp hne h, if_pos h]
    · rw [if_pos (hzero.mpr h), if_neg h]

/-- A bounded set has no ray in direction `x`. -/
theorem eq_zero_of_bounded {a x C : ℝ} (h : ∀ t : ℝ, 0 ≤ t → |a + t * x| ≤ C) : x = 0 := by
  by_contra hx
  have hC : 0 ≤ C := (abs_nonneg _).trans (h 0 le_rfl)
  have hpos : 0 < |x| := abs_pos.mpr hx
  have hle := h ((C + |a| + 1) / |x|) (by positivity)
  have hfar : |(C + |a| + 1) / |x| * x| = C + |a| + 1 := by
    rw [abs_mul, abs_div, abs_abs, div_mul_cancel₀ _ hpos.ne', abs_of_nonneg (by positivity)]
  have htriangle := abs_sub_abs_le_abs_sub ((C + |a| + 1) / |x| * x) (-a)
  rw [hfar, abs_neg, sub_neg_eq_add, add_comm _ a] at htriangle
  linarith

/-- A vector at infinity is a direction of the region. -/
theorem not_bounded_of_direction (hlen : ∀ h ∈ hs, h.length = 3) {x0 x1 : ℝ}
    (hx : ∀ h ∈ hs, 0 ≤ dot [x0, x1, 0] h) (hne : 0 < dot [x0, x1, 0] [x0, x1, 0])
    (hregion : (halvesRegion hs.flatten).Nonempty) :
    ¬ Bornology.IsBounded (halvesRegion hs.flatten) := by
  intro hbounded
  obtain ⟨u, hu⟩ := hregion
  obtain ⟨C, hC⟩ := isBounded_iff_forall_norm_le.mp hbounded
  have hray : ∀ t : ℝ, 0 ≤ t → (u.1 + t * x0, u.2 + t * x1) ∈ halvesRegion hs.flatten := by
    intro t ht
    rw [mem_halvesRegion hlen] at hu ⊢
    intro h hh
    have hin := hu h hh
    have hdir := mul_nonneg ht (hx h hh)
    obtain ⟨h0, h1, h2, rfl⟩ := List.length_eq_three.mp (hlen h hh)
    simp only [dot, List.zipWith_cons_cons, List.zipWith_nil_left, List.sum_cons, List.sum_nil]
      at hin hdir ⊢
    linarith
  have hx0 : x0 = 0 := eq_zero_of_bounded fun t ht => (norm_fst_le _).trans (hC _ (hray t ht))
  have hx1 : x1 = 0 := eq_zero_of_bounded fun t ht => (norm_snd_le _).trans (hC _ (hray t ht))
  rw [hx0, hx1] at hne
  simp [dot] at hne

/-- **A solved problem** is answered. -/
theorem Solved.answers {k : ℕ} (hk : hs.length = k) (hlen : ∀ h ∈ hs, h.length = 3)
    {order : List ℕ} (horder : order.Perm (List.range (k + 1))) {found : LpResult ℝ}
    (h : Solved (lpPlane hs) order [c0, c1, 0] [0, 0, 1] found) :
    Answers hs.flatten c0 c1 (solution (readResult found)) := by
  obtain ⟨status, x⟩ := found
  -- a point of the region, in homogeneous coordinates
  have hpoint : ∀ u ∈ halvesRegion hs.flatten, Inside (lpPlane hs) order [u.1, u.2, 1] := by
    intro u hu
    rw [inside_iff hk horder]
    refine ⟨rfl, ?_, (mem_halvesRegion hlen u).mp hu⟩
    simp [dot]
  rcases h with ⟨hstatus, hnone⟩ | ⟨hstatus, hbest⟩
  · obtain rfl : status = .infeasible := hstatus
    refine .inr ⟨⟨_, rfl⟩, .inl (Set.eq_empty_of_forall_notMem fun u hu => ?_)⟩
    have hle := hnone _ (hpoint u hu)
    simp [dot] at hle
    linarith
  · obtain ⟨hxlen, hx2, hxh⟩ := (inside_iff hk horder).mp hbest.inside
    obtain ⟨x0, x1, x2, rfl⟩ := List.length_eq_three.mp hxlen
    have hden : dot [x0, x1, x2] [0, 0, 1] = x2 := by simp [dot]
    rw [hden] at hx2
    have hsolution : solution (readResult (status, [x0, x1, x2])) = _ :=
      solution_eq hstatus x0 x1 x2
    rcases hx2.eq_or_lt with rfl | hpos
    · -- the optimum is a direction: the region is empty, or the objective unbounded on it
      rw [hsolution, if_pos rfl]
      refine .inr ⟨⟨_, rfl⟩, ?_⟩
      rcases Set.eq_empty_or_nonempty (halvesRegion hs.flatten) with hempty | hne
      · exact .inl hempty
      · exact .inr (not_bounded_of_direction hlen hxh hbest.pos hne)
    · rw [hsolution, if_neg hpos.ne']
      refine .inl ⟨(x0 / x2, x1 / x2), ?_, fun v hv => ?_, rfl⟩
      · rw [mem_halvesRegion hlen]
        intro h hh
        have hside := hxh h hh
        obtain ⟨h0, h1, h2, rfl⟩ := List.length_eq_three.mp (hlen h hh)
        simp only [dot, List.zipWith_cons_cons, List.zipWith_nil_left, List.sum_cons, List.sum_nil]
          at hside ⊢
        have hscale : x0 / x2 * h0 + (x1 / x2 * h1 + (1 * h2 + 0))
            = (x0 * h0 + (x1 * h1 + (x2 * h2 + 0))) / x2 := by
          field_simp
          ring
        rw [hscale]
        exact div_nonneg hside hpos.le
      · have hle := hbest.least (hpoint v hv) (by simp [dot])
        simp only [dot, List.zipWith_cons_cons, List.zipWith_nil_left, List.sum_cons, List.sum_nil]
          at hle
        show c0 * (x0 / x2) + c1 * (x1 / x2) ≤ c0 * v.1 + c1 * v.2
        have hscale : c0 * (x0 / x2) + c1 * (x1 / x2) = (c0 * x0 + c1 * x1) / x2 := by
          field_simp
        rw [hscale, div_le_iff₀ hpos]
        linarith

end Exact

/-- **`solve_lp2` is exact** where the determinants of its planes are clear. -/
theorem solve_lp2_exact {hs : List (List ℝ)} {stray : StrayArgument} {fuel k : ℕ} {c0 c1 : ℝ}
    (rand : ℕ → ℕ) (hstray : stray.Harmless (k + 1)) (hfuel : k + 1 < fuel) (hk : hs.length = k)
    (hne : hs ≠ []) (hlen : ∀ h ∈ hs, h.length = 3)
    (hsep : Separated (lpPlane hs) (List.range (k + 1)) [c0, c1, 0] [0, 0, 1]) :
    Answers hs.flatten c0 c1 (solve_lp2 rand (linprog stray fuel) hs.flatten [c0, c1]) := by
  obtain ⟨rest, hperm, heq⟩ := solve_lp2_seidel rand hstray hfuel hk hne hlen [c0, c1]
  have hrest : 0 ∉ rest := (List.nodup_cons.mp (hperm.nodup_iff.mpr List.nodup_range)).1
  rw [heq]
  exact (seidel_two_exact hsep hperm.subset hrest).answers hk hlen hperm

end Lp

end Commelec
