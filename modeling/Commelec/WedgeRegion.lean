/-
Commelec/WedgeRegion.lean

The wedge of the base case (`lp_base_case.c`), in exact arithmetic.

The region of a wedge is a sector, or its two vectors once it is degenerate.  `Wedge.Cut` lists
what a half-plane can do to it.  A turn of one of the loops keeps a part of the region only, and
of that everything is in the half-plane, up to the tolerance of the code (`Wedge.Cut.near`); so
what the loops leave is in all the half-planes (`wedgeList_near`), and the optimum is chosen
from it (`Wedge.optimum_mem`).
-/
import Commelec.Lib.Sector
import Commelec.Seidel

namespace Commelec

open Double Planar

namespace Lp

/-! ### The code on real numbers -/

section Real

variable (a b u v h : ℝ × ℝ)

@[simp] theorem dot2_real : dot2 u v = Planar.dot u v := rfl

@[simp] theorem cross2_real : cross2 u v = cross u v := rfl

theorem EPS_pos : (0 : ℝ) < EPS := by
  rw [EPS, lit_real]
  norm_num

theorem EPS_lt : (EPS : ℝ) < 1 / 10 := by
  rw [EPS, lit_real]
  norm_num

@[simp] theorem two_EPS : (lit 2 * EPS : ℝ) = 2 * EPS := by
  rw [lit_real]
  norm_num

@[simp] theorem neg_two_EPS : (lit (-2) * EPS : ℝ) = -(2 * EPS) := by
  rw [lit_real]
  norm_num

theorem ABS_real (a : ℝ) : ABS a = |a| := by
  rw [ABS]
  by_cases hpos : lt 0 a = true
  · rw [if_pos hpos]
    rw [lt_real] at hpos
    exact (abs_of_pos hpos).symm
  · rw [if_neg hpos]
    rw [lt_real, not_lt] at hpos
    exact (abs_of_nonpos hpos).symm

/-- The length of a vector. -/
noncomputable def len : ℝ := Real.sqrt (Planar.dot u u)

theorem len_nonneg : 0 ≤ len u := Real.sqrt_nonneg _

theorem dot_self_eq_len : Planar.dot u u = len u ^ 2 := (Real.sq_sqrt (dot_self_nonneg u)).symm

variable {a b u v h}

theorem unit2_none {eps : ℝ} (hu : unit2 a eps = none) : len a < 2 * eps := by
  by_contra hle
  have hsize : ¬ len a < lit 2 * eps := by
    rw [lit_real]
    push_cast
    exact hle
  have hlt : ¬ lt (len a) (lit 2 * eps) = true := by rwa [lt_real]
  have hsome : unit2 a eps = some (a.1 / len a, a.2 / len a) := if_neg hlt
  rw [hsome] at hu
  cases hu

/-- The unit vector of a vector that is long enough. -/
theorem unit2_eq {eps : ℝ} (heps : 0 < eps) (hlen : 2 * eps ≤ len a) :
    ∃ (s : ℝ) (u : ℝ × ℝ), 0 < s ∧ unit2 a eps = some u ∧ Planar.dot u u = 1 ∧ a = s • u := by
  have hpos : 0 < len a := by linarith
  have hlt : ¬ lt (len a) (lit 2 * eps) = true := by
    rw [lt_real, lit_real]
    push_cast
    linarith
  refine ⟨len a, (a.1 / len a, a.2 / len a), hpos, if_neg hlt, ?_, ?_⟩
  · have hsq := dot_self_eq_len a
    simp only [Planar.dot] at hsq ⊢
    field_simp
    linarith
  · exact Prod.ext (mul_div_cancel₀ _ hpos.ne').symm (mul_div_cancel₀ _ hpos.ne').symm

/-- What has an inner product with a unit vector is as long as that. -/
theorem unit2_of_dot {eps : ℝ} (heps : 0 < eps) (hu : Planar.dot u u = 1)
    (hdot : 2 * eps ≤ |Planar.dot h u|) :
    ∃ (s : ℝ) (v : ℝ × ℝ), 0 < s ∧ unit2 h eps = some v ∧ Planar.dot v v = 1 ∧ h = s • v :=
  unit2_eq heps (hdot.trans (abs_dot_le hu (dot_self_eq_len h) (len_nonneg h)))

theorem unit2_unit (hu : Planar.dot u u = 1) : unit2 u EPS = some u := by
  have hlen : len u = 1 := by rw [len, hu, Real.sqrt_one]
  have hlt : ¬ lt (len u) (lit 2 * EPS) = true := by
    have := EPS_lt
    rw [lt_real, two_EPS]
    linarith
  have hsome : unit2 u EPS = some (u.1 / len u, u.2 / len u) := if_neg hlt
  rw [hsome, hlen, div_one, div_one]

end Real

/-! ### What a half-plane does to a wedge -/

/-- The two vectors are unit vectors, and unless it is degenerate they bound a sector. -/
structure Wedge.Proper (w : Wedge ℝ) : Prop where
  cw : Planar.dot w.cw w.cw = 1
  ccw : Planar.dot w.ccw w.ccw = 1
  opens : w.degen = false → Opens w.cw w.ccw

/-- The outcomes of a turn of the second loop of `wedge`. -/
inductive Wedge.Cut (w : Wedge ℝ) (h : ℝ × ℝ) : Option (Wedge ℝ) → Prop
  | newCw {s : ℝ} {u : ℝ × ℝ} : 0 < s → Planar.dot u u = 1 → turn h = s • u →
      2 * EPS ≤ Planar.dot w.ccw h → Planar.dot w.cw h ≤ -(2 * EPS) →
      Cut w h (some { w with cw := u })
  | newCcw {s : ℝ} {u : ℝ × ℝ} : 0 < s → Planar.dot u u = 1 → -turn h = s • u →
      2 * EPS ≤ Planar.dot w.cw h → Planar.dot w.ccw h ≤ -(2 * EPS) →
      Cut w h (some { w with ccw := u })
  | passCcw : 2 * EPS ≤ Planar.dot w.ccw h → -(2 * EPS) < Planar.dot w.cw h → Cut w h (some w)
  | passCw : 2 * EPS ≤ Planar.dot w.cw h → -(2 * EPS) < Planar.dot w.ccw h → Cut w h (some w)
  | touch : |Planar.dot w.cw h| < 2 * EPS → |Planar.dot w.ccw h| < 2 * EPS → 0 ≤ cross w.cw h →
      Cut w h (some w)
  | empty : Planar.dot w.cw h ≤ -(2 * EPS) → Planar.dot w.ccw h ≤ -(2 * EPS) → Cut w h none
  | onlyCcw : Planar.dot w.cw h ≤ -(2 * EPS) → |Planar.dot w.ccw h| < 2 * EPS →
      Cut w h (some ⟨w.ccw, w.ccw, true⟩)
  | onlyCw : Planar.dot w.ccw h ≤ -(2 * EPS) → |Planar.dot w.cw h| < 2 * EPS →
      Cut w h (some ⟨w.cw, w.cw, true⟩)
  | line : |Planar.dot w.cw h| < 2 * EPS → |Planar.dot w.ccw h| < 2 * EPS → cross w.cw h < 0 →
      Cut w h (some ⟨w.cw, w.ccw, true⟩)

namespace Wedge

variable {w w' : Wedge ℝ} {h : ℝ × ℝ}

/-- **The turn**, one outcome for each branch. -/
theorem cut_outcome (hw : w.Proper) (h : ℝ × ℝ) : w.Cut h ((w.cut h).map Prod.snd) := by
  have hnear {x : ℝ} (hlt : ¬ 2 * EPS ≤ x) (hge : ¬ x ≤ -(2 * EPS)) : |x| < 2 * EPS :=
    abs_lt.mpr ⟨not_le.mp hge, not_le.mp hlt⟩
  simp only [cut, two_EPS, neg_two_EPS, le_real, lt_real, dot2_real, cross2_real, Bool.and_eq_true,
    Bool.or_eq_true]
  -- the cases are the branches of the code, by the sides of `ccw` and `cw`
  by_cases hccw : 2 * EPS ≤ Planar.dot w.ccw h
  · rw [if_pos hccw]
    by_cases hcw : Planar.dot w.cw h ≤ -(2 * EPS)
    · obtain ⟨s, u, hs, hunit, hu, heq⟩ := unit2_of_dot (h := turn h) (u := turn w.ccw) EPS_pos
        (by rw [dot_turn_turn]; exact hw.ccw)
        (by rw [dot_turn_turn, dot_comm]; exact hccw.trans (le_abs_self _))
      rw [if_pos hcw, show unit2 (h.2, -h.1) EPS = some u from hunit]
      exact .newCw hs hu heq hccw hcw
    · rw [if_neg hcw]
      exact .passCcw hccw (not_le.mp hcw)
  · rw [if_neg hccw]
    by_cases hcw : 2 * EPS ≤ Planar.dot w.cw h
    · rw [if_pos hcw]
      by_cases hccw' : Planar.dot w.ccw h ≤ -(2 * EPS)
      · obtain ⟨s, u, hs, hunit, hu, heq⟩ := unit2_of_dot (h := -turn h) (u := -turn w.cw) EPS_pos
          (by rw [dot_neg_left, dot_neg_right, neg_neg, dot_turn_turn]; exact hw.cw)
          (by
            rw [dot_neg_left, dot_neg_right, neg_neg, dot_turn_turn, dot_comm]
            exact hcw.trans (le_abs_self _))
        have hunit' : unit2 (-h.2, h.1) EPS = some u := by
          rw [← hunit, turn, Prod.neg_mk, neg_neg]
        rw [if_pos hccw', hunit']
        exact .newCcw hs hu heq hcw hccw'
      · rw [if_neg hccw']
        exact .passCw hcw (not_le.mp hccw')
    · rw [if_neg hcw]
      by_cases hccw' : Planar.dot w.ccw h ≤ -(2 * EPS)
      · by_cases hcw' : Planar.dot w.cw h ≤ -(2 * EPS)
        · rw [if_pos ⟨hccw', hcw'⟩]
          exact .empty hcw' hccw'
        · rw [if_neg fun hboth => hcw' hboth.2, if_pos (.inl (.inr hccw')), if_neg hcw',
            if_pos hccw', unit2_unit hw.cw]
          exact .onlyCw hccw' (hnear hcw hcw')
      · rw [if_neg fun hboth => hccw' hboth.1]
        by_cases hcw' : Planar.dot w.cw h ≤ -(2 * EPS)
        · rw [if_pos (.inl (.inl hcw')), if_pos hcw', unit2_unit hw.ccw]
          exact .onlyCcw hcw' (hnear hccw hccw')
        · by_cases hside : cross w.cw h < 0
          · rw [if_pos (.inr hside), if_neg hcw', if_neg hccw']
            exact .line (hnear hcw hcw') (hnear hccw hccw') hside
          · rw [if_neg (by simp only [hcw', hccw', hside, or_self, not_false_eq_true])]
            exact .touch (hnear hcw hcw') (hnear hccw hccw') (not_lt.mp hside)

/-! ### The region of a wedge -/

/-- The vectors of a wedge. -/
def region (w : Wedge ℝ) : Set (ℝ × ℝ) :=
  if w.degen then {w.cw, w.ccw} else Sector w.cw w.ccw

theorem region_sector (hdegen : w.degen = false) : w.region = Sector w.cw w.ccw :=
  if_neg (by rw [hdegen]; exact Bool.false_ne_true)

theorem region_degen (hdegen : w.degen = true) : w.region = {w.cw, w.ccw} := if_pos hdegen

theorem Proper.cw_mem (hw : w.Proper) : w.cw ∈ w.region := by
  rcases hdegen : w.degen with - | -
  · rw [region_sector hdegen]
    exact Sector.left_mem (hw.opens hdegen).nonneg
  · rw [region_degen hdegen]
    exact .inl rfl

theorem Proper.ccw_mem (hw : w.Proper) : w.ccw ∈ w.region := by
  rcases hdegen : w.degen with - | -
  · rw [region_sector hdegen]
    exact Sector.right_mem (hw.opens hdegen).nonneg
  · rw [region_degen hdegen]
    exact .inr rfl

end Wedge

/-- `x` is in the half-plane of `h`, up to the tolerance of the code. -/
def Near (h x : ℝ × ℝ) : Prop := -(2 * EPS * len x) ≤ Planar.dot x h

/-- A unit vector for which the code tests this. -/
theorem near_of_unit {h u : ℝ × ℝ} (hu : Planar.dot u u = 1) (hdot : -(2 * EPS) ≤ Planar.dot u h) :
    Near h u := by
  have hlen : len u = 1 := by rw [len, hu, Real.sqrt_one]
  rwa [Near, hlen, mul_one]

theorem near_of_nonneg {h x : ℝ × ℝ} (hx : 0 ≤ Planar.dot x h) : Near h x := by
  have hE := EPS_pos
  have hlen := len_nonneg x
  exact (neg_nonpos.mpr (by positivity)).trans hx

/-- `w'` is a part of `w` that is in the half-plane of `h`. -/
structure Wedge.Keeps (w : Wedge ℝ) (h : ℝ × ℝ) (w' : Wedge ℝ) : Prop where
  proper : w'.Proper
  subset : w'.region ⊆ w.region
  near {x : ℝ × ℝ} : x ∈ w'.region → Near h x

namespace Wedge

variable {w w' : Wedge ℝ} {h : ℝ × ℝ}

/-- Two vectors of a wedge make a degenerate one. -/
theorem keeps_pair (hw : w.Proper) {u v : ℝ × ℝ} (hu : u = w.cw ∨ u = w.ccw)
    (hv : v = w.cw ∨ v = w.ccw) (hun : -(2 * EPS) ≤ Planar.dot u h)
    (hvn : -(2 * EPS) ≤ Planar.dot v h) : w.Keeps h ⟨u, v, true⟩ := by
  have hmem {a : ℝ × ℝ} (ha : a = w.cw ∨ a = w.ccw) : a ∈ w.region ∧ Planar.dot a a = 1 := by
    rcases ha with rfl | rfl
    · exact ⟨hw.cw_mem, hw.cw⟩
    · exact ⟨hw.ccw_mem, hw.ccw⟩
  refine ⟨⟨(hmem hu).2, (hmem hv).2, fun h => nomatch h⟩, ?_, ?_⟩
  · rw [region_degen rfl]
    rintro x (rfl | rfl)
    · exact (hmem hu).1
    · exact (hmem hv).1
  · rw [region_degen rfl]
    rintro x (rfl | rfl)
    · exact near_of_unit (hmem hu).2 hun
    · exact near_of_unit (hmem hv).2 hvn

/-- **A turn of the second loop** keeps a part of the wedge that is in the half-plane. -/
theorem Cut.keeps (hw : w.Proper) (hdegen : w.degen = false) (hcut : w.Cut h (some w')) :
    w.Keeps h w' := by
  have hE := EPS_pos
  have hopens := hw.opens hdegen
  cases hcut with
  | @newCw s u hs hunit hu hccw hcw =>
    -- the new end is the border of the half-plane, up to its length
    have hregion : ({ w with cw := u } : Wedge ℝ).region = Sector (turn h) w.ccw := by
      rw [region_sector (w := { w with cw := u }) hdegen, hu, Sector.smul_left hs]
    have hmem (x : ℝ × ℝ) : x ∈ Sector (turn h) w.ccw ↔ x ∈ w.region ∧ 0 ≤ Planar.dot x h := by
      rw [region_sector hdegen]
      exact Sector.cut_left hopens.nonneg (by linarith) (by linarith)
    refine ⟨⟨hunit, hw.ccw, fun _ => .inl ?_⟩, ?_, ?_⟩
    · refine pos_of_mul_pos_right (a := s) ?_ hs.le
      rw [← cross_smul_left, ← hu, cross_turn_left]
      linarith
    · rw [hregion]
      exact fun x hx => ((hmem x).mp hx).1
    · rw [hregion]
      exact fun hx => near_of_nonneg ((hmem _).mp hx).2
  | @newCcw s u hs hunit hu hcw hccw =>
    have hregion : ({ w with ccw := u } : Wedge ℝ).region = Sector w.cw (-turn h) := by
      rw [region_sector (w := { w with ccw := u }) hdegen, hu, Sector.smul_right hs]
    have hmem (x : ℝ × ℝ) : x ∈ Sector w.cw (-turn h) ↔ x ∈ w.region ∧ 0 ≤ Planar.dot x h := by
      rw [region_sector hdegen]
      exact Sector.cut_right hopens.nonneg (by linarith) (by linarith)
    refine ⟨⟨hw.cw, hunit, fun _ => .inl ?_⟩, ?_, ?_⟩
    · refine pos_of_mul_pos_right (a := s) ?_ hs.le
      rw [← cross_smul_right, ← hu, cross_neg_right, cross_turn_right, neg_neg]
      linarith
    · rw [hregion]
      exact fun x hx => ((hmem x).mp hx).1
    · rw [hregion]
      exact fun hx => near_of_nonneg ((hmem _).mp hx).2
  | passCcw hccw hcw =>
    refine ⟨hw, subset_rfl, fun {x} hx => ?_⟩
    rw [region_sector hdegen] at hx
    have hsum : 0 < Planar.dot w.cw h + Planar.dot w.ccw h := by linarith
    -- `cw` may be outside by less than the tolerance
    rcases le_total (Planar.dot w.cw h) 0 with hneg | hpos
    · have hle := Sector.le_dot_of_left hw.cw hw.ccw hopens.nonneg hneg hsum hx (dot_self_eq_len x)
        (len_nonneg x)
      have hlen := mul_le_mul_of_nonneg_right hcw.le (len_nonneg x)
      rw [Near]
      linarith
    · exact near_of_nonneg (Sector.subset_of_nonneg (hopens.pos hsum.ne') hpos (by linarith) hx)
  | passCw hcw hccw =>
    refine ⟨hw, subset_rfl, fun {x} hx => ?_⟩
    rw [region_sector hdegen] at hx
    have hsum : 0 < Planar.dot w.cw h + Planar.dot w.ccw h := by linarith
    rcases le_total (Planar.dot w.ccw h) 0 with hneg | hpos
    · have hle := Sector.le_dot_of_right hw.cw hw.ccw hopens.nonneg hneg hsum hx
        (dot_self_eq_len x) (len_nonneg x)
      have hlen := mul_le_mul_of_nonneg_right hccw.le (len_nonneg x)
      rw [Near]
      linarith
    · exact near_of_nonneg (Sector.subset_of_nonneg (hopens.pos hsum.ne') (by linarith) hpos hx)
  | touch hcw hccw hside =>
    refine ⟨hw, subset_rfl, fun {x} hx => ?_⟩
    rw [region_sector hdegen] at hx
    exact le_dot_of_cross hw.cw hcw.le hside hx.1 (dot_self_eq_len x) (len_nonneg x)
  | onlyCcw hcw hccw =>
    exact keeps_pair hw (.inr rfl) (.inr rfl) (abs_lt.mp hccw).1.le (abs_lt.mp hccw).1.le
  | onlyCw hccw hcw =>
    exact keeps_pair hw (.inl rfl) (.inl rfl) (abs_lt.mp hcw).1.le (abs_lt.mp hcw).1.le
  | line hcw hccw hside =>
    exact keeps_pair hw (.inl rfl) (.inr rfl) (abs_lt.mp hcw).1.le (abs_lt.mp hccw).1.le

/-- **A turn of the third loop** too. -/
theorem cutDegenerate_keeps (hw : w.Proper) (hdegen : w.degen = true)
    (hcut : w.cutDegenerate h = some w') : w.Keeps h w' ∧ w'.degen = true := by
  obtain ⟨cw, ccw, degen⟩ := w
  obtain rfl : degen = true := hdegen
  simp only [cutDegenerate, neg_two_EPS, lt_real, dot2_real] at hcut
  by_cases hcw : Planar.dot cw h < -(2 * EPS)
  · rw [if_pos hcw] at hcut
    by_cases hccw : Planar.dot ccw h < -(2 * EPS)
    · rw [if_pos hccw] at hcut
      cases hcut
    · rw [if_neg hccw, Option.some.injEq] at hcut
      subst hcut
      exact ⟨keeps_pair hw (.inr rfl) (.inr rfl) (not_lt.mp hccw) (not_lt.mp hccw), rfl⟩
  · rw [if_neg hcw] at hcut
    by_cases hccw : Planar.dot ccw h < -(2 * EPS)
    · rw [if_pos hccw, Option.some.injEq] at hcut
      subst hcut
      exact ⟨keeps_pair hw (.inl rfl) (.inl rfl) (not_lt.mp hcw) (not_lt.mp hcw), rfl⟩
    · rw [if_neg hccw, Option.some.injEq] at hcut
      subst hcut
      exact ⟨keeps_pair hw (.inl rfl) (.inr rfl) (not_lt.mp hcw) (not_lt.mp hccw), rfl⟩

end Wedge

/-! ### The loops of `wedge` -/

section Loops

variable {w w' : Wedge ℝ} {half : ℕ → ℝ × ℝ} {front rest order : List ℕ}

/-- What the loops have made of `w` with the half-planes of `rest`. -/
structure Wedge.Keeps.All (w : Wedge ℝ) (half : ℕ → ℝ × ℝ) (rest : List ℕ) (w' : Wedge ℝ) :
    Prop where
  proper : w'.Proper
  subset : w'.region ⊆ w.region
  near {j : ℕ} {x : ℝ × ℝ} : j ∈ rest → x ∈ w'.region → Near (half j) x

theorem Wedge.Keeps.All.nil (hw : w.Proper) : All w half [] w :=
  ⟨hw, subset_rfl, fun hj => absurd hj List.not_mem_nil⟩

theorem Wedge.Keeps.cons {j : ℕ} {w'' : Wedge ℝ} (h : w.Keeps (half j) w'')
    (hrest : All w'' half rest w') : All w half (j :: rest) w' where
  proper := hrest.proper
  subset := hrest.subset.trans h.subset
  near {j' x} hj' hx := by
    rcases List.mem_cons.mp hj' with rfl | hj'
    · exact h.near (hrest.subset hx)
    · exact hrest.near hj' hx

theorem foldlM_keeps (hw : w.Proper) (hdegen : w.degen = true)
    (h : rest.foldlM (fun w j => w.cutDegenerate (half j)) w = some w') :
    Wedge.Keeps.All w half rest w' := by
  induction rest generalizing w with
  | nil =>
    obtain rfl : w = w' := Option.some.inj h
    exact .nil hw
  | cons j rest ih =>
    rw [List.foldlM_cons] at h
    obtain ⟨w'', hcut, hrest⟩ := Option.bind_eq_some_iff.mp h
    obtain ⟨hkeeps, hdegen'⟩ := Wedge.cutDegenerate_keeps hw hdegen hcut
    exact hkeeps.cons (ih hkeeps.proper hdegen' hrest)

theorem cutList_keeps (hw : w.Proper) (hdegen : w.degen = false)
    (h : (cutList half front rest w).1 = some w') : Wedge.Keeps.All w half rest w' := by
  induction rest generalizing front w with
  | nil =>
    obtain rfl : w = w' := Option.some.inj h
    exact .nil hw
  | cons j rest ih =>
    rcases hcut : w.cut (half j) with - | ⟨offensive, w''⟩
    · rw [cutList_none hcut] at h
      cases h
    · have hkeeps : w.Keeps (half j) w'' := by
        have houtcome := Wedge.cut_outcome hw (half j)
        rw [hcut] at houtcome
        exact houtcome.keeps hw hdegen
      rw [cutList_some hcut] at h
      rcases hdegen' : w''.degen with - | -
      · rw [hdegen', if_neg Bool.false_ne_true] at h
        exact hkeeps.cons (ih hkeeps.proper hdegen' h)
      · rw [hdegen', if_pos rfl] at h
        exact hkeeps.cons (foldlM_keeps hkeeps.proper hdegen' h)

/-- The half-plane that the first loop stops at. -/
theorem start_proper {h : ℝ × ℝ} (hstart : Wedge.start h = some w) :
    w.Proper ∧ w.degen = false := by
  obtain ⟨u, hu, hw⟩ := Option.bind_eq_some_iff.mp hstart
  obtain rfl := Option.some.inj hw
  have hunit : Planar.dot u u = 1 := by
    rcases le_or_gt (2 * EPS) (len h) with hlen | hlen
    · obtain ⟨s, u', -, hu', hunit, -⟩ := unit2_eq EPS_pos hlen
      rwa [Option.some.inj (hu.symm.trans hu')]
    · have hnone : unit2 h EPS = none := if_pos (by rw [lt_real, two_EPS]; exact hlen)
      rw [hnone] at hu
      cases hu
  refine ⟨⟨(dot_turn_turn u u).trans hunit, ?_, fun _ => .inr rfl⟩, rfl⟩
  show Planar.dot (-turn u) (-turn u) = 1
  rw [dot_neg_left, dot_neg_right, neg_neg, dot_turn_turn, hunit]

/-- A half-plane that it passes over. -/
theorem near_of_short {h : ℝ × ℝ} (hstart : Wedge.start h = none) (x : ℝ × ℝ) : Near h x := by
  have hshort : len h < 2 * EPS := by
    refine unit2_none ?_
    by_contra hne
    obtain ⟨u, hu⟩ := Option.ne_none_iff_exists'.mp hne
    rw [Wedge.start, hu] at hstart
    cases hstart
  have hcauchy : |Planar.dot x h| ≤ len x * len h := by
    refine abs_le_of_sq_le_sq ?_ (mul_nonneg (len_nonneg x) (len_nonneg h))
    rw [mul_pow, ← dot_self_eq_len, ← dot_self_eq_len, ← dot_sq_add_cross_sq]
    exact le_add_of_nonneg_right (sq_nonneg _)
  have hmul := mul_le_mul_of_nonneg_left hshort.le (len_nonneg x)
  have hlow := (abs_le.mp hcauchy).1
  rw [Near]
  linarith

/-- **The wedge** is in all the half-planes. -/
theorem wedgeList_near (h : (wedgeList half order).1 = .ok w) :
    w.Proper ∧ ∀ j ∈ order, ∀ x ∈ w.region, Near (half j) x := by
  rw [wedgeList] at h
  rcases hstart : order.findSome? fun j => Wedge.start (half j) with - | w₀
  · rw [hstart] at h
    cases h
  · obtain ⟨j, -, hj⟩ := List.exists_of_findSome?_eq_some hstart
    obtain ⟨hw₀, hdegen⟩ := start_proper hj
    rw [hstart] at h
    rcases hcut : (cutList half [] order w₀).1 with - | w'
    · simp only [Prod.map_fst, hcut] at h
      cases h
    · simp only [Prod.map_fst, hcut] at h
      obtain rfl : w' = w := Except.ok.inj h
      have hkeeps := cutList_keeps hw₀ hdegen hcut
      exact ⟨hkeeps.proper, fun j hj x hx => hkeeps.near hj hx⟩

/-- Without a wedge all the half-planes are short. -/
theorem wedgeList_unbounded (h : (wedgeList half order).1 = .error .unbounded) (x : ℝ × ℝ) :
    ∀ j ∈ order, Near (half j) x := by
  rw [wedgeList] at h
  rcases hstart : order.findSome? fun j => Wedge.start (half j) with - | w₀
  · exact fun j hj => near_of_short (List.findSome?_eq_none_iff.mp hstart j hj) x
  · rw [hstart] at h
    rcases hcut : (cutList half [] order w₀).1 with - | w'
    · simp only [Prod.map_fst, hcut] at h
      cases h
    · simp only [Prod.map_fst, hcut] at h
      cases h

theorem wedgeList_error {status : LpStatus} (h : (wedgeList half order).1 = .error status) :
    status = .unbounded ∨ status = .infeasible := by
  rw [wedgeList] at h
  rcases hstart : order.findSome? fun j => Wedge.start (half j) with - | w₀
  · rw [hstart] at h
    exact .inl (Except.error.inj h).symm
  · rw [hstart] at h
    rcases hcut : (cutList half [] order w₀).1 with - | w'
    · simp only [Prod.map_fst, hcut] at h
      exact .inr (Except.error.inj h).symm
    · simp only [Prod.map_fst, hcut] at h
      cases h

end Loops

/-! ### The optimum on a wedge -/

section Optimum

variable {w : Wedge ℝ} {n d : ℝ × ℝ}

theorem Wedge.Proper.cw_ne (hw : w.Proper) : w.cw ≠ 0 :=
  dot_self_pos.mp (by rw [hw.cw]; exact one_pos)

theorem Wedge.Proper.ccw_ne (hw : w.Proper) : w.ccw ≠ 0 :=
  dot_self_pos.mp (by rw [hw.ccw]; exact one_pos)

/-- A vector of the wedge, and not zero. -/
def Wedge.Has (w : Wedge ℝ) (x : ℝ × ℝ) : Prop := x ∈ w.region ∧ x ≠ 0

theorem Wedge.Proper.has_ite (hw : w.Proper) (p : Prop) [Decidable p] :
    w.Has (if p then w.cw else w.ccw) ∧ w.Has (if p then w.ccw else w.cw) := by
  have hcw : w.Has w.cw := ⟨hw.cw_mem, hw.cw_ne⟩
  have hccw : w.Has w.ccw := ⟨hw.ccw_mem, hw.ccw_ne⟩
  split
  · exact ⟨hcw, hccw⟩
  · exact ⟨hccw, hcw⟩

theorem notZero_real {a : ℝ} : notZero a = true ↔ 2 * EPS ≤ |a| := by
  rw [notZero, Bool.or_eq_true, le_real, le_real, two_EPS, neg_two_EPS, le_abs]
  exact or_congr_right le_neg

theorem Wedge.has_of_cross (hdegen : w.degen = false) {x : ℝ × ℝ} (hx : x ≠ 0)
    (hcw : 0 ≤ cross w.cw x) (hccw : 0 ≤ cross x w.ccw) : w.Has x := by
  rw [Has, region_sector hdegen]
  exact ⟨⟨hcw, hccw⟩, hx⟩

theorem lpMinLinRat_has (hw : w.Proper) : w.Has (lpMinLinRat w n d) := by
  rw [lpMinLinRat]
  rcases hdegen : w.degen with - | -
  · rw [if_neg Bool.false_ne_true]
    by_cases hpoles : (notZero (dot2 w.cw d) && notZero (dot2 w.ccw d)) = true
    · rw [if_pos hpoles]
      by_cases hsame : lt 0 (dot2 w.cw d * dot2 w.ccw d) = true
      · rw [if_pos hsame]
        exact (hw.has_ite _).1
      · -- the pole is between the bounds
        rw [if_neg hsame]
        rw [lt_real, not_lt, dot2_real, dot2_real] at hsame
        rw [Bool.and_eq_true, notZero_real, notZero_real, dot2_real, dot2_real] at hpoles
        have hE := EPS_pos
        have hne : Planar.dot w.cw d ≠ 0 := abs_pos.mp (by linarith)
        have hturn : turn d ≠ 0 := by
          refine dot_self_pos.mp ?_
          rw [dot_turn_turn, dot_self_pos]
          rintro rfl
          simp [Planar.dot] at hne
        by_cases hpos : lt 0 (dot2 w.cw d) = true
        · rw [if_pos hpos]
          rw [lt_real, dot2_real] at hpos
          refine Wedge.has_of_cross (x := (-d.2, d.1)) hdegen ?_ ?_ ?_
          · have hneg : (-d.2, d.1) = -turn d := by rw [turn, Prod.neg_mk, neg_neg]
            rw [hneg]
            exact neg_ne_zero.mpr hturn
          · simp only [cross, Planar.dot] at hpos ⊢
            linarith
          · have := nonpos_of_mul_nonpos_right hsame hpos
            simp only [cross, Planar.dot] at this ⊢
            linarith
        · rw [if_neg hpos]
          rw [lt_real, not_lt, dot2_real] at hpos
          refine Wedge.has_of_cross (x := turn d) hdegen hturn ?_ ?_
          · rw [cross_turn_right]
            exact neg_nonneg.mpr hpos
          · rw [cross_turn_left]
            by_contra hneg
            exact hsame.not_gt (mul_pos_of_neg_of_neg (lt_of_le_of_ne hpos hne) (not_le.mp hneg))
    · rw [if_neg hpoles]
      split
      · exact (hw.has_ite _).1
      · split
        · exact (hw.has_ite _).2
        · exact (hw.has_ite _).1
  · rw [if_pos rfl]
    exact (hw.has_ite _).1

/-- **The optimum** is in the wedge. -/
theorem optimum_has (hw : w.Proper) : w.Has (w.optimum n d).2 := by
  rw [Wedge.optimum]
  split
  · split
    · exact ⟨hw.cw_mem, hw.cw_ne⟩
    · rename_i hzero
      split
      · rename_i hinside
        rw [Bool.and_eq_true, Bool.and_eq_true, le_real, le_real, cross2_real, cross2_real]
          at hinside
        rw [Bool.or_eq_true, not_or, lt_real, not_lt, dot2_real] at hzero
        obtain ⟨⟨hdegen, hcw⟩, hccw⟩ := hinside
        have hn : n ≠ 0 := by
          have hE := EPS_pos
          refine dot_self_pos.mp (lt_of_lt_of_le ?_ hzero.1)
          rw [two_EPS]
          positivity
        refine Wedge.has_of_cross (x := -n) ?_ (neg_ne_zero.mpr hn) ?_ ?_
        · rwa [Bool.not_eq_true'] at hdegen
        · rwa [cross_neg_right, neg_nonneg]
        · rwa [cross_neg_left, neg_nonneg]
      · split
        · exact ⟨hw.ccw_mem, hw.ccw_ne⟩
        · exact ⟨hw.cw_mem, hw.cw_ne⟩
  · exact lpMinLinRat_has hw

theorem optimum_status (w : Wedge ℝ) (n d : ℝ × ℝ) :
    (w.optimum n d).1 = .minimum ∨ (w.optimum n d).1 = .ambiguous := by
  rw [Wedge.optimum]
  split
  · split
    · exact .inr rfl
    · split
      · exact .inl rfl
      · split
        · exact .inl rfl
        · exact .inl rfl
  · exact .inl rfl

end Optimum

end Lp

end Commelec
