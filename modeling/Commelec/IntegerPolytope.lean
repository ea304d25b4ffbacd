/-
Commelec/IntegerPolytope.lean

The bounding box of a polytope with integer coefficients, with the solver of the repository.

The determinants of normalised integer rows are integers divided by the lengths of the rows, so
they are zero or clearly not where the rows are not longer than 77500 (`separated_of_small`).
Then the box that `computeAABBConvexPolytope` returns is exact (`integer_box_exact`), and it throws
if there is no point in the polytope (`integer_box_empty`).
-/
import Commelec.LpExact

namespace Commelec

open Double Effectful Outcome LinkedList

namespace Lp

/-! ### Multiples of integers -/

/-- The coordinates of `p` are integers, times a number that is not too small. -/
def Integral (p : List ℝ) : Prop :=
  ∃ (r : ℕ → ℤ) (k : ℝ), 1 / 77500 ≤ k ∧ ∀ a < 3, p.getD a 0 = k * r a

section Integral

variable {p q s : List ℝ}

theorem ten_EPS_le : 10 * (EPS : ℝ) ≤ (1 / 77500) ^ 3 := by
  rw [EPS, lit_real]
  norm_num

theorem clear_mul {k : ℝ} (hk : (1 / 77500) ^ 3 ≤ k) (z : ℤ) : Clear (k * z) := by
  have hpos : (0 : ℝ) < k := lt_of_lt_of_le (by positivity) hk
  rcases eq_or_ne z 0 with rfl | hz
  · exact .inl (by rw [Int.cast_zero, mul_zero])
  · refine .inr ?_
    have hone : (1 : ℝ) ≤ |(z : ℝ)| := by
      exact_mod_cast Int.one_le_abs hz
    rw [abs_mul, abs_of_pos hpos]
    exact (ten_EPS_le.trans hk).trans (le_mul_of_one_le_right hpos.le hone)

theorem cube_le {k l j : ℝ} (hk : 1 / 77500 ≤ k) (hl : 1 / 77500 ≤ l) (hj : 1 / 77500 ≤ j) :
    (1 / 77500) ^ 3 ≤ k * l * j := by
  have hkl : (1 / 77500) * (1 / 77500) ≤ k * l := mul_le_mul hk hl (by norm_num) (by linarith)
  calc (1 / 77500 : ℝ) ^ 3 = (1 / 77500) * (1 / 77500) * (1 / 77500) := by ring
    _ ≤ k * l * j := mul_le_mul hkl hj (by norm_num) (by nlinarith)

theorem clear_minor (hp : Integral p) (hq : Integral q) {a b : ℕ} (ha : a < 3) (hb : b < 3) :
    Clear (minor p q a b) := by
  obtain ⟨r, k, hk, hr⟩ := hp
  obtain ⟨s, l, hl, hs⟩ := hq
  have heq : minor p q a b = k * l * 1 * ((r a * s b - r b * s a : ℤ) : ℝ) := by
    rw [minor, hr a ha, hr b hb, hs a ha, hs b hb]
    push_cast
    ring
  rw [heq]
  exact clear_mul (cube_le hk hl (by norm_num)) _

/-- A determinant is an integer times the factors of the rows. -/
theorem exists_det {r t u : ℕ → ℤ} {k l j : ℝ} (hr : ∀ a < 3, p.getD a 0 = k * r a)
    (ht : ∀ a < 3, q.getD a 0 = l * t a) (hu : ∀ a < 3, s.getD a 0 = j * u a) :
    ∃ z : ℤ, det p q s = k * l * j * z := by
  refine ⟨r 0 * (t 1 * u 2 - t 2 * u 1) - r 1 * (t 0 * u 2 - t 2 * u 0)
    + r 2 * (t 0 * u 1 - t 1 * u 0), ?_⟩
  simp only [det, minor, hr 0 (by omega), hr 1 (by omega), hr 2 (by omega), ht 0 (by omega),
    ht 1 (by omega), ht 2 (by omega), hu 0 (by omega), hu 1 (by omega), hu 2 (by omega)]
  push_cast
  ring

theorem clear_det (hp : Integral p) (hq : Integral q) (hs : Integral s) : Clear (det p q s) := by
  obtain ⟨r, k, hk, hr⟩ := hp
  obtain ⟨t, l, hl, ht⟩ := hq
  obtain ⟨u, j, hj, hu⟩ := hs
  obtain ⟨z, hz⟩ := exists_det hr ht hu
  rw [hz]
  exact clear_mul (cube_le hk hl hj) z

theorem clear_dot (hp : Integral p) (hlen : p.length = 3) {t : ℕ → ℤ} (hqlen : q.length = 3)
    (hq : ∀ a < 3, q.getD a 0 = t a) : Clear (dot q p) := by
  obtain ⟨r, k, hk, hr⟩ := hp
  have heq : dot q p = k * 1 * 1 * ((r 0 * t 0 + r 1 * t 1 + r 2 * t 2 : ℤ) : ℝ) := by
    obtain ⟨p0, p1, p2, rfl⟩ := List.length_eq_three.mp hlen
    obtain ⟨q0, q1, q2, rfl⟩ := List.length_eq_three.mp hqlen
    have h0 := hr 0 (by omega)
    have h1 := hr 1 (by omega)
    have h2 := hr 2 (by omega)
    have h0' := hq 0 (by omega)
    have h1' := hq 1 (by omega)
    have h2' := hq 2 (by omega)
    simp only [List.getD_cons_zero, List.getD_cons_succ] at h0 h1 h2 h0' h1' h2'
    rw [h0, h1, h2, h0', h1', h2']
    simp only [dot, List.zipWith_cons_cons, List.zipWith_nil_left, List.sum_cons, List.sum_nil]
    push_cast
    ring
  rw [heq]
  exact clear_mul (cube_le hk (by norm_num) (by norm_num)) _

/-- With an objective and a denominator of integers, two determinants need three factors only. -/
theorem clear_det_mul_det (hp : Integral p) (hq : Integral q) {n d : List ℝ} {t u : ℕ → ℤ}
    (hn : ∀ a < 3, n.getD a 0 = t a) (hd : ∀ a < 3, d.getD a 0 = u a) :
    Clear (det p n d * det p q d) := by
  obtain ⟨r, k, hk, hr⟩ := hp
  obtain ⟨v, l, hl, hv⟩ := hq
  obtain ⟨z, hz⟩ := exists_det (k := k) (l := 1) (j := 1) hr (by simpa using hn) (by simpa using hd)
  obtain ⟨z', hz'⟩ := exists_det (k := k) (l := l) (j := 1) hr hv (by simpa using hd)
  have heq : det p n d * det p q d = k * k * l * ((z * z' : ℤ) : ℝ) := by
    rw [hz, hz']
    push_cast
    ring
  rw [heq]
  exact clear_mul (cube_le hk hk hl) _

end Integral

/-! ### Rows of integers -/

/-- A row `a0 x0 + a1 x1 <= b` that is not zero, and not longer than 77500. -/
def Small (row : (ℤ × ℤ) × ℤ) : Prop :=
  row.1 ≠ 0 ∧ row.1.1 ^ 2 + row.1.2 ^ 2 + row.2 ^ 2 ≤ 77500 ^ 2

instance : DecidablePred Small := fun row =>
  inferInstanceAs (Decidable (row.1 ≠ 0 ∧ row.1.1 ^ 2 + row.1.2 ^ 2 + row.2 ^ 2 ≤ 77500 ^ 2))

/-- A row of the matrix `(A|b)`, normalised. -/
noncomputable def normalRow (row : (ℤ × ℤ) × ℤ) : List ℝ :=
  normalized [(row.1.1 : ℝ), (row.1.2 : ℝ), (row.2 : ℝ)]

section Rows

variable {row : (ℤ × ℤ) × ℤ} {rows : List ((ℤ × ℤ) × ℤ)} {k : ℕ} {c0 c1 : ℤ}

/-- The length of a row. -/
theorem normalRow_eq (hrow : Small row) :
    ∃ c : ℝ, 1 / 77500 ≤ c ∧ normalRow row = [c * row.1.1, c * row.1.2, c * row.2] ∧
      dot (normalRow row) (normalRow row) = 1 := by
  obtain ⟨⟨a0, a1⟩, b⟩ := row
  obtain ⟨hne, hle⟩ := hrow
  dsimp only at hne hle
  have hsq : squaredNorm [(a0 : ℝ), (a1 : ℝ), (b : ℝ)] = ((a0 ^ 2 + a1 ^ 2 + b ^ 2 : ℤ) : ℝ) := by
    simp only [squaredNorm, dot, List.zipWith_cons_cons, List.zipWith_nil_left, List.sum_cons,
      List.sum_nil]
    push_cast
    ring
  have hpos : 0 < squaredNorm [(a0 : ℝ), (a1 : ℝ), (b : ℝ)] := by
    rw [hsq, Int.cast_pos]
    have h0 := sq_nonneg a0
    have h1 := sq_nonneg a1
    have h2 := sq_nonneg b
    rcases eq_or_ne a0 0 with rfl | ha0
    · have ha1 : a1 ≠ 0 := fun h => hne (by rw [h]; rfl)
      have := sq_pos_of_ne_zero ha1
      linarith
    · have := sq_pos_of_ne_zero ha0
      linarith
  have hnorm : 0 < norm [(a0 : ℝ), (a1 : ℝ), (b : ℝ)] := Real.sqrt_pos.mpr hpos
  have hlong : norm [(a0 : ℝ), (a1 : ℝ), (b : ℝ)] ≤ 77500 := by
    refine Real.sqrt_le_iff.mpr ⟨by norm_num, ?_⟩
    rw [hsq]
    exact_mod_cast hle
  have hnormalized : normalRow ((a0, a1), b)
      = [(norm [(a0 : ℝ), (a1 : ℝ), (b : ℝ)])⁻¹ * a0, (norm [(a0 : ℝ), (a1 : ℝ), (b : ℝ)])⁻¹ * a1,
        (norm [(a0 : ℝ), (a1 : ℝ), (b : ℝ)])⁻¹ * b] := by
    rw [normalRow, normalized, if_pos (by rwa [lt_real])]
    simp only [List.map_cons, List.map_nil, div_eq_inv_mul]
  refine ⟨(norm [(a0 : ℝ), (a1 : ℝ), (b : ℝ)])⁻¹, ?_, hnormalized, ?_⟩
  · rw [one_div]
    exact inv_anti₀ hnorm hlong
  · have hself : norm [(a0 : ℝ), (a1 : ℝ), (b : ℝ)] ^ 2 = (a0 : ℝ) ^ 2 + a1 ^ 2 + b ^ 2 := by
      rw [norm, sqrt_real, Real.sq_sqrt hpos.le, hsq]
      push_cast
      rfl
    rw [hnormalized]
    simp only [dot, List.zipWith_cons_cons, List.zipWith_nil_left, List.sum_cons, List.sum_nil]
    field_simp
    linarith

theorem integral_of_eq {x y z : ℤ} {k : ℝ} (hk : 1 / 77500 ≤ k) :
    Integral [k * x, k * y, k * z] := by
  refine ⟨fun a => [x, y, z].getD a 0, k, hk, fun a ha => ?_⟩
  obtain rfl | rfl | rfl : a = 0 ∨ a = 1 ∨ a = 2 := by omega
  · rfl
  · rfl
  · rfl

/-- The planes that `solve_lp2` makes of the rows: the trivial one, or that of a row. -/
theorem lpPlane_cases (hk : rows.length = k) {j : ℕ} (hj : j ∈ List.range (k + 1)) :
    j = 0 ∧ lpPlane (rows.map normalRow) j = [0, 0, 1] ∨
      j ≠ 0 ∧ ∃ row ∈ rows, lpPlane (rows.map normalRow) j = normalRow row := by
  cases j with
  | zero => exact .inl ⟨rfl, rfl⟩
  | succ j =>
    have hlt : j < rows.length := by
      have := List.mem_range.mp hj
      omega
    refine .inr ⟨Nat.succ_ne_zero j, rows[j], List.getElem_mem hlt, ?_⟩
    rw [lpPlane, List.getElem?_cons_succ, List.getElem?_map, List.getElem?_eq_getElem hlt]
    rfl

theorem lpPlane_spec (hrows : ∀ row ∈ rows, Small row) (hk : rows.length = k) {j : ℕ}
    (hj : j ∈ List.range (k + 1)) :
    (lpPlane (rows.map normalRow) j).length = 3 ∧
      dot (lpPlane (rows.map normalRow) j) (lpPlane (rows.map normalRow) j) = 1 ∧
      Integral (lpPlane (rows.map normalRow) j) := by
  rcases lpPlane_cases hk hj with ⟨-, hplane⟩ | ⟨-, row, hrow, hplane⟩
  · rw [hplane]
    refine ⟨rfl, by simp [dot], ?_⟩
    have := integral_of_eq (x := 0) (y := 0) (z := 1) (k := 1) (by norm_num)
    simpa using this
  · obtain ⟨c, hc, heq, hunit⟩ := normalRow_eq (hrows row hrow)
    rw [hplane]
    refine ⟨by rw [heq]; rfl, hunit, ?_⟩
    rw [heq]
    exact integral_of_eq hc

/-- **Small rows have clear determinants.** -/
theorem separated_of_small (hrows : ∀ row ∈ rows, Small row) (hk : rows.length = k)
    (hc : c0 ^ 2 + c1 ^ 2 = 1) :
    Separated (lpPlane (rows.map normalRow)) (List.range (k + 1)) [(c0 : ℝ), (c1 : ℝ), 0]
      [0, 0, 1] := by
  have hspec {j : ℕ} (hj : j ∈ List.range (k + 1)) := lpPlane_spec hrows hk hj
  have hn : ∀ a < 3, [(c0 : ℝ), (c1 : ℝ), 0].getD a 0 = (([c0, c1, 0].getD a 0 : ℤ) : ℝ) := by
    intro a ha
    obtain rfl | rfl | rfl : a = 0 ∨ a = 1 ∨ a = 2 := by omega
    · rfl
    · rfl
    · exact Int.cast_zero.symm
  have hd : ∀ a < 3, [(0 : ℝ), 0, 1].getD a 0 = (([0, 0, 1].getD a 0 : ℤ) : ℝ) := by
    intro a ha
    obtain rfl | rfl | rfl : a = 0 ∨ a = 1 ∨ a = 2 := by omega
    · exact Int.cast_zero.symm
    · exact Int.cast_zero.symm
    · exact Int.cast_one.symm
  have hnI : Integral [(c0 : ℝ), (c1 : ℝ), 0] := ⟨_, 1, by norm_num, by simpa using hn⟩
  have hdI : Integral [(0 : ℝ), 0, 1] := ⟨_, 1, by norm_num, by simpa using hd⟩
  refine
    { zero := rfl
      length := fun hj => (hspec hj).1
      unit := fun hj => (hspec hj).2.1
      numerator := ⟨rfl, ?_⟩
      orthogonal := by simp [dot]
      row := fun {j} hj hj0 => ?_
      normal := fun hj => clear_dot (hspec hj).2.2 (hspec hj).1 rfl hn
      minor := fun hi hj ha hb => clear_minor (hspec hi).2.2 (hspec hj).2.2 ha hb
      vertex := fun hi hj hk => clear_det (hspec hi).2.2 (hspec hj).2.2 (hspec hk).2.2
      objective := fun hj => clear_det (hspec hj).2.2 hnI hdI
      pole := fun hi hj => clear_det_mul_det (hspec hi).2.2 (hspec hj).2.2 hn hd }
  · have hcast : ((c0 ^ 2 + c1 ^ 2 : ℤ) : ℝ) = 1 := by rw [hc, Int.cast_one]
    push_cast at hcast
    simp only [dot, List.zipWith_cons_cons, List.zipWith_nil_left, List.sum_cons, List.sum_nil]
    linarith
  · obtain ⟨hzero, -⟩ | ⟨-, row, hrow, hplane⟩ := lpPlane_cases hk hj
    · exact absurd hzero hj0
    · -- a coordinate of the normal that is not zero gives a minor with the plane at infinity
      obtain ⟨c, hc, heq, -⟩ := normalRow_eq (hrows row hrow)
      have hcpos : c ≠ 0 := (lt_of_lt_of_le (by norm_num) hc).ne'
      rw [hplane, heq]
      rcases eq_or_ne row.1.1 0 with h0 | h0
      · have h1 : row.1.2 ≠ 0 := fun h1 => (hrows row hrow).1 (Prod.ext h0 h1)
        refine ⟨1, 2, by omega, by omega, ?_⟩
        simpa [Lp.minor] using ⟨hcpos, h1⟩
      · refine ⟨0, 2, by omega, by omega, ?_⟩
        simpa [Lp.minor] using ⟨hcpos, h0⟩

end Rows

/-- **`solve_lp2`** on two rows that bound a strip. -/
theorem solve_lp2_exact_strip : Answers
    ([((1, 0), 1), ((-1, 0), 0)].map normalRow).flatten (1 : ℤ) (0 : ℤ)
    (solve_lp2 (fun _ => 0) (linprog (fun _ _ => 3) 4)
      ([((1, 0), 1), ((-1, 0), 0)].map normalRow).flatten [((1 : ℤ) : ℝ), ((0 : ℤ) : ℝ)]) := by
  have hrows : ∀ row ∈ [((1, 0), 1), ((-1, 0), 0)], Small row := by decide
  refine solve_lp2_exact (k := 2) _ ?_ (by decide) rfl (by decide) ?_
    (separated_of_small hrows rfl (by norm_num))
  · intro _ _ j hj
    show (3 : ℤ) ≠ j
    omega
  · intro h hh
    obtain ⟨row, hrow, rfl⟩ := List.mem_map.mp hh
    obtain ⟨c, -, heq, -⟩ := normalRow_eq (hrows row hrow)
    rw [heq]
    rfl

/-! ### The bounding box -/

/-- The matrix and the vector of the rows. -/
def matrixOf (rows : List ((ℤ × ℤ) × ℤ)) : Matrix ℝ :=
  ⟨2, rows.map fun row => [(row.1.1 : ℝ), (row.1.2 : ℝ)]⟩

def vectorOf (rows : List ((ℤ × ℤ) × ℤ)) : List ℝ := rows.map fun row => (row.2 : ℝ)

section Box

variable {rows : List ((ℤ × ℤ) × ℤ)} {stray : StrayArgument} {fuel : ℕ} {rand : ℕ → ℕ}

theorem length_matrixOf : ∀ row ∈ (matrixOf rows).rows, row.length = 2 := by
  intro row hrow
  obtain ⟨r, -, rfl⟩ := List.mem_map.mp hrow
  rfl

theorem length_eq : (matrixOf rows).rows.length = (vectorOf rows).length := by
  rw [matrixOf, vectorOf, List.length_map, List.length_map]

theorem normalizedHalves_eq (rows : List ((ℤ × ℤ) × ℤ)) :
    normalizedHalves (matrixOf rows).rows (vectorOf rows) = (rows.map normalRow).flatten := by
  rw [normalizedHalves, matrixOf, vectorOf, List.zipWith_map, List.zipWith_self]
  rfl

/-- The answer for an objective of integers. -/
theorem solve_lp2_answers (rand : ℕ → ℕ) (hstray : stray.Harmless (rows.length + 1))
    (hfuel : rows.length + 1 < fuel) (hne : rows ≠ []) (hrows : ∀ row ∈ rows, Small row)
    (c0 c1 : ℤ) (hc : c0 ^ 2 + c1 ^ 2 = 1) :
    Answers (normalizedHalves (matrixOf rows).rows (vectorOf rows)) c0 c1
      (solve_lp2 rand (linprog stray fuel)
        (normalizedHalves (matrixOf rows).rows (vectorOf rows)) [(c0 : ℝ), (c1 : ℝ)]) := by
  rw [normalizedHalves_eq]
  have hlen : ∀ h ∈ rows.map normalRow, h.length = 3 := by
    intro h hh
    obtain ⟨row, hrow, rfl⟩ := List.mem_map.mp hh
    obtain ⟨c, -, heq, -⟩ := normalRow_eq (hrows row hrow)
    rw [heq]
    rfl
  have hsep := separated_of_small hrows rfl hc
  obtain ⟨rest, hperm, heq⟩ := solve_lp2_seidel rand hstray hfuel (List.length_map _)
    (fun hnil => hne (List.map_eq_nil_iff.mp hnil)) hlen [(c0 : ℝ), (c1 : ℝ)]
  have hrest : 0 ∉ rest := (List.nodup_cons.mp (hperm.nodup_iff.mpr List.nodup_range)).1
  rw [heq]
  exact (seidel_two_exact hsep hperm.subset hrest).answers (List.length_map _) hlen hperm

/-- An answer about a polytope that is bounded and not empty. -/
theorem Answers.coordinate {c0 c1 : ℝ} {answer : Outcome Err (List ℝ)}
    (h : Answers (normalizedHalves (matrixOf rows).rows (vectorOf rows)) c0 c1 answer)
    (hnonempty : (polytope (matrixOf rows).rows (vectorOf rows)).Nonempty)
    (hbounded : Bornology.IsBounded (polytope (matrixOf rows).rows (vectorOf rows))) :
    ∃ x ∈ polytope (matrixOf rows).rows (vectorOf rows), answer = ok [-x.1, -x.2] ∧
      ∀ y ∈ polytope (matrixOf rows).rows (vectorOf rows),
        c0 * y.1 + c1 * y.2 ≤ c0 * x.1 + c1 * x.2 := by
  rw [Answers, halvesRegion_eq length_matrixOf length_eq] at h
  rcases h with ⟨u, hu, hmin, hanswer⟩ | ⟨-, hempty | hunbounded⟩
  · refine ⟨-u, hu, by simpa using hanswer, fun y hy => ?_⟩
    have hle : objective c0 c1 u ≤ objective c0 c1 (-y) := hmin (by simpa using hy)
    simp only [objective, Prod.fst_neg, Prod.snd_neg] at hle ⊢
    linarith
  · exact absurd hempty (Set.nonempty_neg.mpr hnonempty).ne_empty
  · exact absurd hbounded.neg hunbounded

/-- **The bounding box is exact** for rows of integers that are not longer than 77500. -/
theorem integer_box_exact (hstray : stray.Harmless (rows.length + 1))
    (hfuel : rows.length + 1 < fuel) (hne : rows ≠ []) (hrows : ∀ row ∈ rows, Small row)
    (hnonempty : (polytope (matrixOf rows).rows (vectorOf rows)).Nonempty)
    (hbounded : Bornology.IsBounded (polytope (matrixOf rows).rows (vectorOf rows))) :
    ∃ xmin ymin xmax ymax : ℝ,
      computeAABBConvexPolytope (solve_lp2 rand (linprog stray fuel)) (matrixOf rows)
        (vectorOf rows) = ok ⟨[xmin, ymin], [xmax, ymax]⟩ ∧
      IsLeast (Prod.fst '' polytope (matrixOf rows).rows (vectorOf rows)) xmin ∧
      IsLeast (Prod.snd '' polytope (matrixOf rows).rows (vectorOf rows)) ymin ∧
      IsGreatest (Prod.fst '' polytope (matrixOf rows).rows (vectorOf rows)) xmax ∧
      IsGreatest (Prod.snd '' polytope (matrixOf rows).rows (vectorOf rows)) ymax := by
  have hsolve (c0 c1 : ℤ) (hc : c0 ^ 2 + c1 ^ 2 = 1) :=
    (solve_lp2_answers rand hstray hfuel hne hrows c0 c1 hc).coordinate hnonempty hbounded
  obtain ⟨x1, hx1, hlp1, hmax1⟩ := hsolve 1 0 (by norm_num)
  obtain ⟨x2, hx2, hlp2, hmax2⟩ := hsolve (-1) 0 (by norm_num)
  obtain ⟨x3, hx3, hlp3, hmax3⟩ := hsolve 0 1 (by norm_num)
  obtain ⟨x4, hx4, hlp4, hmax4⟩ := hsolve 0 (-1) (by norm_num)
  push_cast at hlp1 hlp2 hlp3 hlp4 hmax1 hmax2 hmax3 hmax4
  refine ⟨x2.1, x4.2, x1.1, x3.2, ?_, ⟨⟨x2, hx2, rfl⟩, ?_⟩, ⟨⟨x4, hx4, rfl⟩, ?_⟩,
    ⟨⟨x1, hx1, rfl⟩, ?_⟩, ⟨⟨x3, hx3, rfl⟩, ?_⟩⟩
  · have hhalves : (List.zipWith (fun row bi => normalized (row ++ [bi])) (matrixOf rows).rows
        (vectorOf rows)).flatten = normalizedHalves (matrixOf rows).rows (vectorOf rows) := rfl
    have hcols : (matrixOf rows).cols = 2 := rfl
    simp only [computeAABBConvexPolytope, hcols, length_eq, assert, decide_true, if_true, pure_eq,
      ok_bind, lift_self, hhalves, hlp1, hlp2, hlp3, hlp4, List.getD_cons_zero,
      List.getD_cons_succ, neg_neg]
  · rintro _ ⟨y, hy, rfl⟩
    linarith [hmax2 y hy]
  · rintro _ ⟨y, hy, rfl⟩
    linarith [hmax4 y hy]
  · rintro _ ⟨y, hy, rfl⟩
    linarith [hmax1 y hy]
  · rintro _ ⟨y, hy, rfl⟩
    linarith [hmax3 y hy]

/-- The unit square. -/
def squareRows : List ((ℤ × ℤ) × ℤ) := [((1, 0), 1), ((-1, 0), 0), ((0, 1), 1), ((0, -1), 0)]

theorem integer_box_exact_square : ∃ xmin ymin xmax ymax : ℝ,
    computeAABBConvexPolytope (solve_lp2 (fun _ => 0) (linprog (fun _ _ => 5) 6))
      (matrixOf squareRows) (vectorOf squareRows) = ok ⟨[xmin, ymin], [xmax, ymax]⟩ ∧
    IsLeast (Prod.fst '' polytope (matrixOf squareRows).rows (vectorOf squareRows)) xmin ∧
    IsLeast (Prod.snd '' polytope (matrixOf squareRows).rows (vectorOf squareRows)) ymin ∧
    IsGreatest (Prod.fst '' polytope (matrixOf squareRows).rows (vectorOf squareRows)) xmax ∧
    IsGreatest (Prod.snd '' polytope (matrixOf squareRows).rows (vectorOf squareRows)) ymax := by
  have hrows : (matrixOf squareRows).rows = unitSquare.rows := by
    simp [matrixOf, squareRows, unitSquare]
  have hvector : vectorOf squareRows = [1, 0, 1, 0] := by
    simp [vectorOf, squareRows]
  have hbox : polytope (matrixOf squareRows).rows (vectorOf squareRows)
      = Set.Icc ((0, 0) : ℝ × ℝ) (1, 1) := by
    rw [hrows, hvector]
    exact Set.ext mem_unitSquare
  refine integer_box_exact ?_ (by decide) (by decide) (by decide) ?_ ?_
  · intro _ _ j hj
    have hlength : squareRows.length = 4 := rfl
    show (5 : ℤ) ≠ j
    omega
  · rw [hbox]
    exact ⟨(0, 0), le_rfl, zero_le_one, zero_le_one⟩
  · rw [hbox]
    exact Metric.isBounded_Icc _ _

/-- **No box without a point**: the solver's error is thrown. -/
theorem integer_box_empty (hstray : stray.Harmless (rows.length + 1))
    (hfuel : rows.length + 1 < fuel) (hne : rows ≠ []) (hrows : ∀ row ∈ rows, Small row)
    (hempty : polytope (matrixOf rows).rows (vectorOf rows) = ∅) :
    ∃ msg, computeAABBConvexPolytope (solve_lp2 rand (linprog stray fuel)) (matrixOf rows)
      (vectorOf rows) = Outcome.throw (.runtimeError msg) := by
  have hanswers := solve_lp2_answers rand hstray hfuel hne hrows 1 0 (by norm_num)
  rw [Answers, halvesRegion_eq length_matrixOf length_eq, hempty, Set.neg_empty] at hanswers
  rcases hanswers with ⟨u, hu, -⟩ | ⟨⟨msg, hmsg⟩, -⟩
  · exact absurd hu (Set.notMem_empty u)
  · refine ⟨msg, ?_⟩
    have hhalves : (List.zipWith (fun row bi => normalized (row ++ [bi])) (matrixOf rows).rows
        (vectorOf rows)).flatten = normalizedHalves (matrixOf rows).rows (vectorOf rows) := rfl
    have hcols : (matrixOf rows).cols = 2 := rfl
    push_cast at hmsg
    simp only [computeAABBConvexPolytope, hcols, length_eq, assert, decide_true, if_true, pure_eq,
      ok_bind, lift_self, hhalves, hmsg]
    rfl

/-- No number is at most 0 and at least 1. -/
theorem integer_box_empty_sample : ∃ msg,
    computeAABBConvexPolytope (solve_lp2 (fun _ => 0) (linprog (fun _ _ => 3) 4))
      (matrixOf [((1, 0), 0), ((-1, 0), -1)]) (vectorOf [((1, 0), 0), ((-1, 0), -1)])
        = Outcome.throw (.runtimeError msg) := by
  refine integer_box_empty ?_ (by decide) (by decide) (by decide) ?_
  · intro _ _ j hj
    simp only [List.length_cons, List.length_nil] at hj
    show (3 : ℤ) ≠ j
    omega
  · refine Set.eq_empty_of_forall_notMem fun x hx => ?_
    change Satisfies _ _ [x.1, x.2] at hx
    simp [Satisfies, matrixOf, vectorOf, dot] at hx
    linarith

end Box

end Lp

end Commelec
