/-
Commelec/Lib/NearestPoint.lean

Nearest points in an inner product space, and the algorithm of alternating
projections with corrections.  The library names nothing of the program it is
used for.

* `Normal C x y` — the point `x` lies in `C`, and the vector `y` points away from `C`
  there: its inner product with `c - x` is not positive for any `c` in `C`;
* `IsNearest C z x` — the correction `z - x` is normal at `x`.  Then `x` is the point of
  `C` nearest to `z`, and the only one (`IsNearest.norm_le`, `IsNearest.unique`);
* `Sweep Cs ys x xs ys'` — one pass over the sets `Cs` from the point `x` on: each set's
  old correction is added, the nearest point is taken and the new correction kept.

A sweep leaves point plus corrections unchanged (`Sweep.sum`), and every new correction is
normal at its point (`Sweep.normal`).  A point that carries normal vectors of all sets is
nearest to its sum with them (`isNearest_of_normals`), which is why the algorithm is right
when it stands still.
-/
import Mathlib.Analysis.InnerProductSpace.PiL2

namespace Nearest

variable {E : Type*} [NormedAddCommGroup E] [InnerProductSpace ℝ E]

/-! ### Normal vectors and nearest points -/

/-- `y` is normal to `C` at its point `x`. -/
structure Normal (C : Set E) (x y : E) : Prop where
  mem : x ∈ C
  inner_le : ∀ c ∈ C, inner ℝ y (c - x) ≤ 0

/-- `x` is the nearest point of `C`, seen from `z`. -/
def IsNearest (C : Set E) (z x : E) : Prop := Normal C x (z - x)

section Nearest

variable {C : Set E} {x y z : E}

theorem Normal.zero (h : x ∈ C) : Normal C x 0 where
  mem := h
  inner_le c _ := by rw [inner_zero_left]

theorem IsNearest.self (h : x ∈ C) : IsNearest C x x := by
  rw [IsNearest, sub_self]
  exact Normal.zero h

/-- The cosine rule at a nearest point. -/
theorem IsNearest.sq_le (h : IsNearest C z x) {c : E} (hc : c ∈ C) :
    ‖z - x‖ ^ 2 + ‖c - x‖ ^ 2 ≤ ‖z - c‖ ^ 2 := by
  have hsplit : z - c = (z - x) - (c - x) := by abel
  have hinner := h.inner_le c hc
  rw [hsplit, norm_sub_sq_real (z - x) (c - x)]
  linarith

/-- No point of the set is nearer. -/
theorem IsNearest.norm_le (h : IsNearest C z x) {c : E} (hc : c ∈ C) :
    ‖z - x‖ ≤ ‖z - c‖ := by
  have hsq := h.sq_le hc
  apply le_of_sq_le_sq _ (norm_nonneg _)
  linarith [sq_nonneg ‖c - x‖]

/-- No other point of the set is as near. -/
theorem IsNearest.unique (h : IsNearest C z x) {c : E} (hc : c ∈ C)
    (hle : ‖z - c‖ ≤ ‖z - x‖) : c = x := by
  have hsq := h.sq_le hc
  have hle' : ‖z - c‖ ^ 2 ≤ ‖z - x‖ ^ 2 := pow_le_pow_left₀ (norm_nonneg _) hle 2
  have hzero : ‖c - x‖ ^ 2 = 0 := le_antisymm (by linarith) (sq_nonneg _)
  have hnorm : ‖c - x‖ = 0 := by simpa using hzero
  exact sub_eq_zero.mp (norm_eq_zero.mp hnorm)

end Nearest

/-! ### Basic sets -/

/-- The points on one side of a hyperplane. -/
def halfSpace (a : E) (b : ℝ) : Set E := {x | inner ℝ a x ≤ b}

/-- From outside a half-space, the nearest point is on the hyperplane. -/
theorem isNearest_halfSpace {a z : E} {b : ℝ} (ha : a ≠ 0) (hz : b ≤ inner ℝ a z) :
    IsNearest (halfSpace a b) z (z - ((inner ℝ a z - b) * (‖a‖ ^ 2)⁻¹) • a) := by
  have hpos : 0 < ‖a‖ ^ 2 := by
    have hnorm := norm_pos_iff.mpr ha
    positivity
  have hedge : inner ℝ a (z - ((inner ℝ a z - b) * (‖a‖ ^ 2)⁻¹) • a) = b := by
    rw [inner_sub_right, inner_smul_right, real_inner_self_eq_norm_sq]
    field_simp
    ring
  refine ⟨le_of_eq hedge, fun c hc => ?_⟩
  have hc' : inner ℝ a c ≤ b := hc
  rw [sub_sub_cancel, inner_smul_left, inner_sub_right, hedge]
  apply mul_nonpos_of_nonneg_of_nonpos
  · exact mul_nonneg (by linarith) (inv_nonneg.mpr hpos.le)
  · linarith

/-- From outside a ball, the nearest point is on the sphere. -/
theorem isNearest_ball {c z : E} {r : ℝ} (hr : 0 ≤ r) (hz : r < ‖z - c‖) :
    IsNearest (Metric.closedBall c r) z (c + (r * ‖z - c‖⁻¹) • (z - c)) := by
  have hpos : 0 < ‖z - c‖ := lt_of_le_of_lt hr hz
  have hgap : z - (c + (r * ‖z - c‖⁻¹) • (z - c)) = (1 - r * ‖z - c‖⁻¹) • (z - c) := by
    rw [sub_smul, one_smul]
    abel
  refine ⟨?_, fun p hp => ?_⟩
  · rw [mem_closedBall_iff_norm, add_sub_cancel_left, norm_smul, Real.norm_eq_abs,
      abs_of_nonneg (mul_nonneg hr (inv_nonneg.mpr hpos.le)), inv_mul_cancel_right₀ hpos.ne']
  · have hp' : ‖p - c‖ ≤ r := mem_closedBall_iff_norm.mp hp
    have hcs : inner ℝ (z - c) (p - c) ≤ ‖z - c‖ * r :=
      (real_inner_le_norm _ _).trans (mul_le_mul_of_nonneg_left hp' hpos.le)
    have hinner : inner ℝ (z - c) (p - (c + (r * ‖z - c‖⁻¹) • (z - c)))
        = inner ℝ (z - c) (p - c) - ‖z - c‖ * r := by
      rw [← sub_sub, inner_sub_right, inner_smul_right, real_inner_self_eq_norm_sq]
      field_simp
    rw [hgap, inner_smul_left, hinner]
    apply mul_nonpos_of_nonneg_of_nonpos
    · have hle : r * ‖z - c‖⁻¹ ≤ 1 := mul_inv_le_one_of_le₀ hz.le hpos.le
      simpa using hle
    · linarith

/-- The points between two corners. -/
def box {ι : Type*} (lo hi : ι → ℝ) : Set (EuclideanSpace ℝ ι) :=
  {x | ∀ i, lo i ≤ x i ∧ x i ≤ hi i}

/-- The nearest point of a box clamps every coordinate. -/
theorem isNearest_box {ι : Type*} [Fintype ι] {lo hi : ι → ℝ} {z x : EuclideanSpace ℝ ι}
    (hle : ∀ i, lo i ≤ hi i) (hx : ∀ i, x i = max (lo i) (min (z i) (hi i))) :
    IsNearest (box lo hi) z x := by
  refine ⟨fun i => ?_, fun c hc => ?_⟩
  · rw [hx i]
    exact ⟨le_max_left _ _, max_le (hle i) (min_le_right _ _)⟩
  · rw [PiLp.inner_apply]
    apply Finset.sum_nonpos
    intro i _
    obtain ⟨hlo, hhi⟩ := hc i
    -- the clamped coordinate is at the bound that is in the way, or is the one of `z`
    show (c i - x i) * (z i - x i) ≤ 0
    rw [hx i]
    rcases le_total (z i) (lo i) with h | h
    · rw [min_eq_left (h.trans (hle i)), max_eq_left h]
      nlinarith
    · rcases le_total (z i) (hi i) with h' | h'
      · rw [min_eq_left h', max_eq_right h]
        nlinarith
      · rw [min_eq_right h', max_eq_right (hle i)]
        nlinarith

/-! ### Sweeps -/

/-- One pass over the sets: `ys` are the corrections before it, `xs` and `ys'` the points
and the corrections it leaves. -/
inductive Sweep : List (Set E) → List E → E → List E → List E → Prop
  | nil {x : E} : Sweep [] [] x [] []
  | cons {C : Set E} {Cs : List (Set E)} {x x' y : E} {ys xs ys' : List E} :
      IsNearest C (x + y) x' → Sweep Cs ys x' xs ys' →
      Sweep (C :: Cs) (y :: ys) x (x' :: xs) ((x + y - x') :: ys')

section Sweep

variable {C : Set E} {Cs : List (Set E)} {x v : E} {ys xs ys' : List E}

theorem Sweep.length (h : Sweep Cs ys x xs ys') :
    xs.length = Cs.length ∧ ys'.length = Cs.length := by
  induction h with
  | nil => exact ⟨rfl, rfl⟩
  | cons _ _ ih => simpa using ih

/-- **A sweep keeps the sum of the point and all corrections.** -/
theorem Sweep.sum (h : Sweep Cs ys x xs ys') :
    xs.getLast?.getD x + ys'.sum = x + ys.sum := by
  induction h with
  | nil => rfl
  | @cons C Cs x x' y ys xs ys' _ _ ih =>
    have hlast : (x' :: xs).getLast?.getD x = xs.getLast?.getD x' := by
      rw [List.getLast?_cons]
      rfl
    calc (x' :: xs).getLast?.getD x + ((x + y - x') :: ys').sum
        = (xs.getLast?.getD x' + ys'.sum) + (x + y - x') := by
          rw [hlast, List.sum_cons]
          abel
      _ = (x' + ys.sum) + (x + y - x') := by rw [ih]
      _ = x + (y :: ys).sum := by
          rw [List.sum_cons]
          abel

/-- **Every correction that a sweep leaves is normal** to its set at the set's point. -/
theorem Sweep.normal (h : Sweep Cs ys x xs ys') :
    List.Forall₂ (fun C p => Normal C p.1 p.2) Cs (xs.zip ys') := by
  induction h with
  | nil => exact .nil
  | cons hx _ ih => exact .cons hx ih

/-- Every point of a sweep lies in its set. -/
theorem Sweep.mem (h : Sweep Cs ys x xs ys') : List.Forall₂ (fun C x => x ∈ C) Cs xs := by
  induction h with
  | nil => exact .nil
  | cons hx _ ih => exact .cons hx.mem ih

end Sweep

/-- **A point with normal vectors of all sets is nearest** to its sum with them, in the
intersection. -/
theorem isNearest_of_normals {Cs : List (Set E)} {ys : List E} {x : E}
    (h : List.Forall₂ (fun C y => Normal C x y) Cs ys) :
    IsNearest {c | ∀ C ∈ Cs, c ∈ C} (x + ys.sum) x := by
  refine ⟨?_, fun c hc => ?_⟩
  · intro C hC
    obtain ⟨i, hi, rfl⟩ := List.mem_iff_getElem.mp hC
    exact (h.get hi (h.length_eq ▸ hi)).mem
  · rw [add_sub_cancel_left]
    induction h with
    | nil => rw [List.sum_nil, inner_zero_left]
    | cons hn _ ih =>
      rw [List.sum_cons, inner_add_left]
      have htail := ih fun C hC => hc C (by simp [hC])
      have hhead := hn.inner_le c (hc _ (by simp))
      linarith

end Nearest
