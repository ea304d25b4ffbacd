/-
Commelec/Lib/Sector.lean

Sectors of the plane and half-planes.  The library names nothing of the program it is used for.

A sector `Sector u v` goes from `u` counter-clockwise to `v`, over an angle of at most a half
turn.  A half-plane `{x | 0 ≤ dot x h}` leaves of it

* a sector, if `u` and `v` are on different sides of its boundary (`Sector.cut_left`,
  `Sector.cut_right`);
* everything, if both are in it (`Sector.subset_of_nonneg`), and, up to a tolerance, if one of
  them is in it by more than the other is out of it (`Sector.le_dot_of_left`,
  `Sector.le_dot_of_right`, `le_dot_of_cross`);
* a ray, a line or nothing, if both are out of it or on its boundary (`Sector.mem_ray_left`,
  `Sector.mem_ray_right`, `Sector.mem_line`, `Sector.eq_zero`).

No length is computed: `len` stands for a number with `dot x x = len ^ 2`.
-/
import Mathlib.Algebra.Order.Ring.Abs
import Mathlib.Algebra.Module.Prod
import Mathlib.Algebra.Ring.Prod
import Mathlib.Tactic.Ring
import Mathlib.Data.Set.Basic
import Mathlib.Tactic.Linarith
import Mathlib.Tactic.LinearCombination

namespace Planar

section Ring

variable {K : Type*} [CommRing K] (u v x z h n d : K × K) (c : K)

def dot : K := u.1 * v.1 + u.2 * v.2

def cross : K := u.1 * v.2 - u.2 * v.1

/-- A quarter turn clockwise. -/
def turn : K × K := (h.2, -h.1)

theorem dot_comm : dot u v = dot v u := by
  simp only [dot]
  ring

theorem cross_comm : cross u v = -cross v u := by
  simp only [cross]
  ring

@[simp] theorem cross_self : cross u u = 0 := by
  simp only [cross]
  ring

@[simp] theorem dot_neg_left : dot (-u) v = -dot u v := by
  simp only [dot, Prod.fst_neg, Prod.snd_neg]
  ring

@[simp] theorem dot_neg_right : dot u (-v) = -dot u v := by
  simp only [dot, Prod.fst_neg, Prod.snd_neg]
  ring

@[simp] theorem cross_neg_left : cross (-u) v = -cross u v := by
  simp only [cross, Prod.fst_neg, Prod.snd_neg]
  ring

@[simp] theorem cross_neg_right : cross u (-v) = -cross u v := by
  simp only [cross, Prod.fst_neg, Prod.snd_neg]
  ring

@[simp] theorem cross_turn_left : cross (turn h) x = dot x h := by
  simp only [cross, turn, dot]
  ring

@[simp] theorem cross_turn_right : cross x (turn h) = -dot x h := by
  simp only [cross, turn, dot]
  ring

@[simp] theorem dot_turn_turn : dot (turn h) (turn x) = dot h x := by
  simp only [turn, dot]
  ring

@[simp] theorem dot_smul_left : dot (c • u) v = c * dot u v := by
  simp only [dot, Prod.smul_fst, Prod.smul_snd, smul_eq_mul]
  ring

@[simp] theorem cross_smul_left : cross (c • u) v = c * cross u v := by
  simp only [cross, Prod.smul_fst, Prod.smul_snd, smul_eq_mul]
  ring

@[simp] theorem cross_smul_right : cross u (c • v) = c * cross u v := by
  simp only [cross, Prod.smul_fst, Prod.smul_snd, smul_eq_mul]
  ring

/-! ### Identities -/

theorem cross_mul_dot : cross u v * dot x h = dot u h * cross x v + dot v h * cross u x := by
  simp only [cross, dot]
  ring

theorem dot_self_mul_dot : dot u u * dot x h = dot x u * dot u h + cross u x * cross u h := by
  simp only [cross, dot]
  ring

theorem cross_mul_dot_self : cross u x * dot v v = cross u v * dot v x + dot u v * cross v x := by
  simp only [cross, dot]
  ring

/-- Two quotients on two vectors. -/
theorem dot_mul_dot_sub : dot n x * dot d z - dot n z * dot d x = cross n d * cross x z := by
  simp only [cross, dot]
  ring

theorem dot_sq_add_cross_sq : dot u v ^ 2 + cross u v ^ 2 = dot u u * dot v v := by
  simp only [cross, dot]
  ring

end Ring

section Ordered

variable {K : Type*} [CommRing K] [LinearOrder K] {u v x h : K × K} {len : K}

/-! ### Sectors -/

/-- The vectors from `u` counter-clockwise to `v`. -/
def Sector (u v : K × K) : Set (K × K) := {x | 0 ≤ cross u x ∧ 0 ≤ cross x v}

/-- The angle from `u` to `v` is positive, and at most a half turn. -/
def Opens (u v : K × K) : Prop := 0 < cross u v ∨ v = -u

theorem Opens.nonneg (h : Opens u v) : 0 ≤ cross u v := by
  rcases h with h | rfl
  · exact h.le
  · simp

/-- Where the angle is a half turn, the two vectors are on different sides of a boundary. -/
theorem Opens.pos (huv : Opens u v) (hsum : dot u h + dot v h ≠ 0) : 0 < cross u v := by
  rcases huv with huv | rfl
  · exact huv
  · rw [dot_neg_left, add_neg_cancel] at hsum
    exact absurd rfl hsum

namespace Sector

theorem left_mem (huv : 0 ≤ cross u v) : u ∈ Sector u v := ⟨(cross_self u).ge, huv⟩

theorem right_mem (huv : 0 ≤ cross u v) : v ∈ Sector u v := ⟨huv, (cross_self v).ge⟩

/-- A mirror image of a sector. -/
theorem mem_swap : x.swap ∈ Sector v.swap u.swap ↔ x ∈ Sector u v := by
  have hcross (a b : K × K) : cross a.swap b.swap = cross b a := by
    simp only [cross, Prod.fst_swap, Prod.snd_swap]
    ring
  simp only [Sector, Set.mem_ofPred_eq, hcross]
  exact and_comm

end Sector

variable [IsStrictOrderedRing K]

/-! ### Lengths -/

theorem dot_self_nonneg (x : K × K) : 0 ≤ dot x x :=
  add_nonneg (mul_self_nonneg _) (mul_self_nonneg _)

theorem dot_self_eq_zero : dot x x = 0 ↔ x = 0 := by
  constructor
  · intro hx
    obtain ⟨hx1, hx2⟩ := (add_eq_zero_iff_of_nonneg (mul_self_nonneg _) (mul_self_nonneg _)).mp hx
    exact Prod.ext (mul_self_eq_zero.mp hx1) (mul_self_eq_zero.mp hx2)
  · rintro rfl
    simp [dot]

theorem dot_self_pos : 0 < dot x x ↔ x ≠ 0 := by
  rw [lt_iff_le_and_ne, ne_comm, and_iff_right (dot_self_nonneg x), ne_eq, dot_self_eq_zero]

/-- A coordinate along a unit vector is at most the length. -/
theorem abs_dot_le (hu : dot u u = 1) (hx : dot x x = len ^ 2) (hlen : 0 ≤ len) :
    |dot x u| ≤ len := by
  refine abs_le_of_sq_le_sq ?_ hlen
  have hsum := dot_sq_add_cross_sq x u
  rw [hu, hx, mul_one] at hsum
  have := sq_nonneg (cross x u)
  linarith

/-- A vector along a unit vector. -/
theorem eq_smul_of_cross (hu : dot u u = 1) (hx : cross u x = 0) : x = dot x u • u := by
  simp only [dot, cross] at hu hx
  refine Prod.ext ?_ ?_
  · simp only [dot, Prod.smul_fst, smul_eq_mul]
    linear_combination (-x.1) * hu - u.2 * hx
  · simp only [dot, Prod.smul_snd, smul_eq_mul]
    linear_combination (-x.2) * hu + u.1 * hx

/-! ### What a half-plane leaves -/

namespace Sector

theorem smul_left {c : K} (hc : 0 < c) : Sector (c • u) v = Sector u v := by
  ext x
  simp only [Sector, Set.mem_ofPred_eq, cross_smul_left, mul_nonneg_iff_of_pos_left hc]

theorem smul_right {c : K} (hc : 0 < c) : Sector u (c • v) = Sector u v := by
  ext x
  simp only [Sector, Set.mem_ofPred_eq, cross_smul_right, mul_nonneg_iff_of_pos_left hc]

theorem cut_left (huv : 0 ≤ cross u v) (hu : dot u h ≤ 0) (hv : 0 < dot v h) :
    x ∈ Sector (turn h) v ↔ x ∈ Sector u v ∧ 0 ≤ dot x h := by
  constructor
  · rintro ⟨hxh, hxv⟩
    rw [cross_turn_left] at hxh
    refine ⟨⟨nonneg_of_mul_nonneg_right (a := dot v h) ?_ hv, hxv⟩, hxh⟩
    have hleft : 0 ≤ cross u v * dot x h := mul_nonneg huv hxh
    have hright : dot u h * cross x v ≤ 0 := mul_nonpos_of_nonpos_of_nonneg hu hxv
    have := cross_mul_dot u v x h
    linarith
  · rintro ⟨⟨-, hxv⟩, hxh⟩
    exact ⟨by rwa [cross_turn_left], hxv⟩

theorem cut_right (huv : 0 ≤ cross u v) (hu : 0 < dot u h) (hv : dot v h ≤ 0) :
    x ∈ Sector u (-turn h) ↔ x ∈ Sector u v ∧ 0 ≤ dot x h := by
  constructor
  · rintro ⟨hux, hxh⟩
    rw [cross_neg_right, cross_turn_right, neg_neg] at hxh
    refine ⟨⟨hux, nonneg_of_mul_nonneg_right (a := dot u h) ?_ hu⟩, hxh⟩
    have hleft : 0 ≤ cross u v * dot x h := mul_nonneg huv hxh
    have hright : dot v h * cross u x ≤ 0 := mul_nonpos_of_nonpos_of_nonneg hv hux
    have := cross_mul_dot u v x h
    linarith
  · rintro ⟨⟨hux, -⟩, hxh⟩
    exact ⟨hux, by rwa [cross_neg_right, cross_turn_right, neg_neg]⟩

theorem subset_of_nonneg (huv : 0 < cross u v) (hu : 0 ≤ dot u h) (hv : 0 ≤ dot v h)
    (hx : x ∈ Sector u v) : 0 ≤ dot x h := by
  refine nonneg_of_mul_nonneg_right (a := cross u v) ?_ huv
  rw [cross_mul_dot]
  exact add_nonneg (mul_nonneg hu hx.2) (mul_nonneg hv hx.1)

/-- `u` is out of the half-plane by less than `v` is in it. -/
theorem le_dot_of_left (hu1 : dot u u = 1) (hv1 : dot v v = 1) (huv : 0 ≤ cross u v)
    (hu : dot u h ≤ 0) (hsum : 0 < dot u h + dot v h) (hx : x ∈ Sector u v)
    (hlen : dot x x = len ^ 2) (hnonneg : 0 ≤ len) : dot u h * len ≤ dot x h := by
  have hside : 0 ≤ cross u h := by
    have hmul : dot v h = dot v u * dot u h + cross u v * cross u h := by
      rw [← dot_self_mul_dot, hu1, one_mul]
    have hle : dot v u ≤ 1 := (abs_le.mp (abs_dot_le hu1 (by rw [hv1, one_pow]) zero_le_one)).2
    have hge : -1 ≤ dot v u := (abs_le.mp (abs_dot_le hu1 (by rw [hv1, one_pow]) zero_le_one)).1
    have hback : dot v u * dot u h ≤ -dot u h := by nlinarith
    refine (pos_of_mul_pos_right (a := cross u v) ?_ huv).le
    linarith
  calc dot u h * len ≤ dot u h * dot x u :=
        mul_le_mul_of_nonpos_left (le_of_abs_le (abs_dot_le hu1 hlen hnonneg)) hu
    _ ≤ dot x u * dot u h + cross u x * cross u h := by
        have := mul_nonneg hx.1 hside
        linarith
    _ = dot x h := by rw [← dot_self_mul_dot, hu1, one_mul]

/-- `v` is out of the half-plane by less than `u` is in it. -/
theorem le_dot_of_right (hu1 : dot u u = 1) (hv1 : dot v v = 1) (huv : 0 ≤ cross u v)
    (hv : dot v h ≤ 0) (hsum : 0 < dot u h + dot v h) (hx : x ∈ Sector u v)
    (hlen : dot x x = len ^ 2) (hnonneg : 0 ≤ len) : dot v h * len ≤ dot x h := by
  have hdot (a b : K × K) : dot a.swap b.swap = dot a b := add_comm _ _
  have hcross : 0 ≤ cross v.swap u.swap := by
    have : cross v.swap u.swap = cross u v := by
      simp only [cross, Prod.fst_swap, Prod.snd_swap]
      ring
    rwa [this]
  have hmirror := le_dot_of_left (h := h.swap) ((hdot v v).trans hv1) ((hdot u u).trans hu1) hcross
    (by rwa [hdot]) (by rwa [hdot, hdot, add_comm]) (mem_swap.mpr hx) ((hdot x x).trans hlen)
    hnonneg
  rwa [hdot, hdot] at hmirror

/-- Both ends are out of the half-plane. -/
theorem eq_zero (huv : 0 < cross u v) (hu : dot u h < 0) (hv : dot v h < 0) (hx : x ∈ Sector u v)
    (hxh : 0 ≤ dot x h) : x = 0 := by
  have hsum := cross_mul_dot u v x h
  have hleft : dot u h * cross x v ≤ 0 := mul_nonpos_of_nonpos_of_nonneg hu.le hx.2
  have hright : dot v h * cross u x ≤ 0 := mul_nonpos_of_nonpos_of_nonneg hv.le hx.1
  have hnonneg : 0 ≤ cross u v * dot x h := mul_nonneg huv.le hxh
  have hxv : cross x v = 0 := by
    refine (mul_eq_zero.mp ?_).resolve_left hu.ne
    linarith
  have hux : cross u x = 0 := by
    refine (mul_eq_zero.mp ?_).resolve_left hv.ne
    linarith
  have hzero (a : K × K) : dot x a = 0 := by
    refine (mul_eq_zero.mp ?_).resolve_left huv.ne'
    rw [cross_mul_dot, hxv, hux, mul_zero, mul_zero, add_zero]
  exact dot_self_eq_zero.mp (hzero x)

/-- Only `u` is out of the half-plane, and `v` is on its boundary. -/
theorem mem_ray_right (hv1 : dot v v = 1) (huv : 0 < cross u v) (hu : dot u h < 0)
    (hv : dot v h = 0) : x ∈ Sector u v ∧ 0 ≤ dot x h ↔ ∃ t : K, 0 ≤ t ∧ x = t • v := by
  constructor
  · rintro ⟨hx, hxh⟩
    have hsum := cross_mul_dot u v x h
    rw [hv, zero_mul, add_zero] at hsum
    have hxv : cross v x = 0 := by
      have hle : dot u h * cross x v = 0 := by
        refine le_antisymm (mul_nonpos_of_nonpos_of_nonneg hu.le hx.2) ?_
        rw [← hsum]
        exact mul_nonneg huv.le hxh
      rw [cross_comm, (mul_eq_zero.mp hle).resolve_left hu.ne, neg_zero]
    refine ⟨dot x v, ?_, eq_smul_of_cross hv1 hxv⟩
    have hside := cross_mul_dot_self u v x
    rw [hv1, mul_one, hxv, mul_zero, add_zero, dot_comm v x] at hside
    exact nonneg_of_mul_nonneg_right (hside ▸ hx.1) huv
  · rintro ⟨t, ht, rfl⟩
    refine ⟨⟨?_, ?_⟩, ?_⟩
    · rw [cross_smul_right]
      exact mul_nonneg ht huv.le
    · rw [cross_smul_left, cross_self, mul_zero]
    · rw [dot_smul_left, hv, mul_zero]

/-- Only `v` is out of the half-plane, and `u` is on its boundary. -/
theorem mem_ray_left (hu1 : dot u u = 1) (huv : 0 < cross u v) (hv : dot v h < 0)
    (hu : dot u h = 0) : x ∈ Sector u v ∧ 0 ≤ dot x h ↔ ∃ t : K, 0 ≤ t ∧ x = t • u := by
  have hdot (a b : K × K) : dot a.swap b.swap = dot a b := add_comm _ _
  have hcross : cross v.swap u.swap = cross u v := by
    simp only [cross, Prod.fst_swap, Prod.snd_swap]
    ring
  have hmirror := mem_ray_right (u := v.swap) (v := u.swap) (x := x.swap) (h := h.swap)
  simp only [hdot, hcross, mem_swap] at hmirror
  rw [hmirror hu1 huv hv hu]
  refine exists_congr fun t => and_congr_right fun _ => ?_
  exact Prod.swap_injective.eq_iff (b := t • u)

/-- The half-plane is the opposite of a sector of a half turn: a line is left. -/
theorem mem_line (hu1 : dot u u = 1) (hu : dot u h = 0) (hside : cross u h < 0) :
    x ∈ Sector u (-u) ∧ 0 ≤ dot x h ↔ ∃ t : K, 0 ≤ t ∧ (x = t • u ∨ x = t • -u) := by
  have hdot : dot x h = cross u x * cross u h := by
    have := dot_self_mul_dot u x h
    rwa [hu1, one_mul, hu, mul_zero, zero_add] at this
  constructor
  · rintro ⟨⟨hux, -⟩, hxh⟩
    have hzero : cross u x = 0 := by
      refine le_antisymm (nonpos_of_mul_nonneg_left ?_ hside) hux
      rwa [← hdot]
    have hx := eq_smul_of_cross hu1 hzero
    rcases le_total 0 (dot x u) with ht | ht
    · exact ⟨dot x u, ht, .inl hx⟩
    · exact ⟨-dot x u, neg_nonneg.mpr ht, .inr (by rwa [smul_neg, neg_smul, neg_neg])⟩
  · rintro ⟨t, ht, rfl | rfl⟩
    · simp [Sector, hu]
    · simp [Sector, hu]

end Sector

/-- The boundary of the half-plane touches `u`, which is on its left. -/
theorem le_dot_of_cross {t : K} (hu1 : dot u u = 1) (hu : |dot u h| ≤ t) (hside : 0 ≤ cross u h)
    (hx : 0 ≤ cross u x) (hlen : dot x x = len ^ 2) (hnonneg : 0 ≤ len) :
    -(t * len) ≤ dot x h := by
  have habs : |dot x u * dot u h| ≤ len * t := by
    rw [abs_mul]
    exact mul_le_mul (abs_dot_le hu1 hlen hnonneg) hu (abs_nonneg _) hnonneg
  calc -(t * len) ≤ dot x u * dot u h := by
        rw [mul_comm t]
        exact (abs_le.mp habs).1
    _ ≤ dot x u * dot u h + cross u x * cross u h := le_add_of_nonneg_right (mul_nonneg hx hside)
    _ = dot x h := by rw [← dot_self_mul_dot, hu1, one_mul]

end Ordered

end Planar
