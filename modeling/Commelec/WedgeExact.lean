/-
Commelec/WedgeExact.lean

The base case is exact where the tolerance makes no difference.

The code takes a product of at most `2 * EPS` for zero.  If every product of a half-plane with a
vector that bounds another one is zero or larger than that (`Distinct`), the loops of `wedge` leave
exactly the vectors of all the half-planes (`wedgeList_exact`), and with one more condition on the
objective the optimum is one of them (`optimum_least`).
-/
import Commelec.WedgeRegion

namespace Commelec

open Double Planar

namespace Lp

/-- `a` is zero, or it is not within the tolerance. -/
def Sharp (a : ℝ) : Prop := a = 0 ∨ 2 * EPS < |a|

section Sharp

variable {a : ℝ}

theorem Sharp.eq_zero (h : Sharp a) (ha : |a| < 2 * EPS) : a = 0 :=
  h.resolve_right ha.not_gt

theorem Sharp.nonneg (h : Sharp a) (ha : -(2 * EPS) ≤ a) : 0 ≤ a := by
  rcases h with rfl | h
  · exact le_rfl
  · rcases lt_abs.mp h with h | h
    · have := EPS_pos
      linarith
    · linarith

end Sharp

/-! ### Turns -/

namespace Wedge

variable {w w' : Wedge ℝ} {h x : ℝ × ℝ}

/-- The vectors between the bounds of a wedge, or on them once it is degenerate. -/
def cone (w : Wedge ℝ) : Set (ℝ × ℝ) :=
  if w.degen then {x | ∃ t : ℝ, 0 ≤ t ∧ (x = t • w.cw ∨ x = t • w.ccw)} else Sector w.cw w.ccw

theorem cone_sector (hdegen : w.degen = false) : w.cone = Sector w.cw w.ccw :=
  if_neg (by rw [hdegen]; exact Bool.false_ne_true)

theorem mem_cone_degen (hdegen : w.degen = true) :
    x ∈ w.cone ↔ ∃ t : ℝ, 0 ≤ t ∧ (x = t • w.cw ∨ x = t • w.ccw) := by
  rw [cone, if_pos hdegen]
  rfl

theorem region_subset_cone (w : Wedge ℝ) : w.region ⊆ w.cone := by
  rcases hdegen : w.degen with - | -
  · rw [region_sector hdegen, cone_sector hdegen]
  · rw [region_degen hdegen]
    rintro x (rfl | rfl)
    · exact (mem_cone_degen hdegen).mpr ⟨1, zero_le_one, .inl (one_smul _ _).symm⟩
    · exact (mem_cone_degen hdegen).mpr ⟨1, zero_le_one, .inr (one_smul _ _).symm⟩

/-- The bounds of a wedge have a property. -/
structure Ends (w : Wedge ℝ) (p : ℝ × ℝ → Prop) : Prop where
  cw : p w.cw
  ccw : p w.ccw

/-- Of the cone of `w`, the turn that leaves `left` leaves what is in the half-plane. -/
def Exactly (w : Wedge ℝ) (h : ℝ × ℝ) : Option (Wedge ℝ) → Prop
  | none => ∀ x ∈ w.cone, 0 ≤ Planar.dot x h → x = 0
  | some w' => ∀ x, x ∈ w'.cone ↔ x ∈ w.cone ∧ 0 ≤ Planar.dot x h

/-- **A turn of the second loop is exact.** -/
theorem Cut.exactly {left : Option (Wedge ℝ)} (hw : w.Proper) (hdegen : w.degen = false)
    (hsharp : w.Ends fun u => Sharp (Planar.dot u h)) (hcut : w.Cut h left) :
    w.Exactly h left := by
  have hE := EPS_pos
  have hopens := hw.opens hdegen
  have hray (u : ℝ × ℝ) (x : ℝ × ℝ) :
      x ∈ (⟨u, u, true⟩ : Wedge ℝ).cone ↔ ∃ t : ℝ, 0 ≤ t ∧ x = t • u := by
    rw [mem_cone_degen rfl]
    simp only [or_self]
  cases hcut with
  | @newCw s u hs hunit hu hccw hcw =>
    intro x
    have hdegen' : ({ w with cw := u } : Wedge ℝ).degen = false := hdegen
    rw [cone_sector hdegen', cone_sector hdegen, ← Sector.smul_left hs, ← hu]
    exact Sector.cut_left hopens.nonneg (by linarith) (by linarith)
  | @newCcw s u hs hunit hu hcw hccw =>
    intro x
    rw [cone_sector (w := { w with ccw := u }) hdegen, cone_sector hdegen, ← Sector.smul_right hs,
      ← hu]
    exact Sector.cut_right hopens.nonneg (by linarith) (by linarith)
  | passCcw hccw hcw =>
    refine fun x => ⟨fun hx => ⟨hx, ?_⟩, And.left⟩
    -- an end that is not far outside is not outside at all
    have hnonneg := hsharp.cw.nonneg hcw.le
    rw [cone_sector hdegen] at hx
    refine Sector.subset_of_nonneg (hopens.pos (h := h) ?_) hnonneg (by linarith) hx
    exact (show 0 < Planar.dot w.cw h + Planar.dot w.ccw h by linarith).ne'
  | passCw hcw hccw =>
    refine fun x => ⟨fun hx => ⟨hx, ?_⟩, And.left⟩
    have hnonneg := hsharp.ccw.nonneg hccw.le
    rw [cone_sector hdegen] at hx
    refine Sector.subset_of_nonneg (hopens.pos (h := h) ?_) (by linarith) hnonneg hx
    exact (show 0 < Planar.dot w.cw h + Planar.dot w.ccw h by linarith).ne'
  | touch hcw hccw hside =>
    refine fun x => ⟨fun hx => ⟨hx, ?_⟩, And.left⟩
    rw [cone_sector hdegen] at hx
    have hzero := hsharp.cw.eq_zero hcw
    have hle := le_dot_of_cross hw.cw (t := 0) (by rw [hzero, abs_zero]) hside hx.1
      (dot_self_eq_len x) (len_nonneg x)
    rwa [zero_mul, neg_zero] at hle
  | empty hcw hccw =>
    intro x hx
    rw [cone_sector hdegen] at hx
    refine Sector.eq_zero (hopens.pos (h := h) ?_) (by linarith) (by linarith) hx
    exact (show Planar.dot w.cw h + Planar.dot w.ccw h < 0 by linarith).ne
  | onlyCcw hcw hccw =>
    intro x
    have hzero := hsharp.ccw.eq_zero hccw
    rw [hray, cone_sector hdegen]
    refine (Sector.mem_ray_right hw.ccw (hopens.pos (h := h) ?_) (by linarith) hzero).symm
    exact (show Planar.dot w.cw h + Planar.dot w.ccw h < 0 by linarith).ne
  | onlyCw hccw hcw =>
    intro x
    have hzero := hsharp.cw.eq_zero hcw
    rw [hray, cone_sector hdegen]
    refine (Sector.mem_ray_left hw.cw (hopens.pos (h := h) ?_) (by linarith) hzero).symm
    exact (show Planar.dot w.cw h + Planar.dot w.ccw h < 0 by linarith).ne
  | line hcw hccw hside =>
    intro x
    have hzero := hsharp.cw.eq_zero hcw
    have hzero' := hsharp.ccw.eq_zero hccw
    -- both ends are on the border of `h`; if they spanned the plane, `h` would be zero
    have hopp : w.ccw = -w.cw := by
      refine hopens.resolve_left fun hpos => ?_
      have hall : ∀ x, Planar.dot x h = 0 := fun x => by
        refine (mul_eq_zero.mp ?_).resolve_left hpos.ne'
        rw [cross_mul_dot, hzero, hzero', zero_mul, zero_mul, add_zero]
      rw [dot_self_eq_zero.mp (hall h)] at hside
      simp [cross] at hside
    rw [mem_cone_degen rfl, cone_sector hdegen, hopp]
    exact (Sector.mem_line hw.cw hzero hside).symm

/-- Of a ray out of the half-plane, only zero is left. -/
theorem eq_zero_of_ray {u : ℝ × ℝ} {t : ℝ} (ht : 0 ≤ t) (hu : Planar.dot u h < 0)
    (hx : 0 ≤ Planar.dot (t • u) h) : t = 0 := by
  rw [dot_smul_left] at hx
  exact le_antisymm (nonpos_of_mul_nonneg_left hx hu) ht

/-- **A turn of the third loop is exact.** -/
theorem cutDegenerate_exactly (hdegen : w.degen = true)
    (hsharp : w.Ends fun u => Sharp (Planar.dot u h)) : w.Exactly h (w.cutDegenerate h) := by
  have hE := EPS_pos
  have hin {u : ℝ × ℝ} {t : ℝ} (ht : 0 ≤ t) (hu : 0 ≤ Planar.dot u h) :
      0 ≤ Planar.dot (t • u) h := by
    rw [dot_smul_left]
    exact mul_nonneg ht hu
  simp only [cutDegenerate, neg_two_EPS, lt_real, dot2_real]
  by_cases hcw : Planar.dot w.cw h < -(2 * EPS)
  · rw [if_pos hcw]
    have hcw' : Planar.dot w.cw h < 0 := by linarith
    by_cases hccw : Planar.dot w.ccw h < -(2 * EPS)
    · rw [if_pos hccw]
      have hccw' : Planar.dot w.ccw h < 0 := by linarith
      -- neither ray is left, only the origin
      intro x hx hxh
      obtain ⟨t, ht, rfl | rfl⟩ := (mem_cone_degen hdegen).mp hx
      · rw [eq_zero_of_ray ht hcw' hxh, zero_smul]
      · rw [eq_zero_of_ray ht hccw' hxh, zero_smul]
    · rw [if_neg hccw]
      have hccw' := hsharp.ccw.nonneg (not_lt.mp hccw)
      intro x
      rw [mem_cone_degen (w := { w with cw := w.ccw }) hdegen, mem_cone_degen hdegen]
      constructor
      · rintro ⟨t, ht, rfl | rfl⟩
        · exact ⟨⟨t, ht, .inr rfl⟩, hin ht hccw'⟩
        · exact ⟨⟨t, ht, .inr rfl⟩, hin ht hccw'⟩
      · -- the origin is on the ray that is kept
        rintro ⟨⟨t, ht, rfl | rfl⟩, hxh⟩
        · rw [eq_zero_of_ray ht hcw' hxh, zero_smul]
          exact ⟨0, le_rfl, .inl (zero_smul _ _).symm⟩
        · exact ⟨t, ht, .inl rfl⟩
  · rw [if_neg hcw]
    have hcw' := hsharp.cw.nonneg (not_lt.mp hcw)
    by_cases hccw : Planar.dot w.ccw h < -(2 * EPS)
    · rw [if_pos hccw]
      have hccw' : Planar.dot w.ccw h < 0 := by linarith
      intro x
      rw [mem_cone_degen (w := { w with ccw := w.cw }) hdegen, mem_cone_degen hdegen]
      constructor
      · rintro ⟨t, ht, rfl | rfl⟩
        · exact ⟨⟨t, ht, .inl rfl⟩, hin ht hcw'⟩
        · exact ⟨⟨t, ht, .inl rfl⟩, hin ht hcw'⟩
      · rintro ⟨⟨t, ht, rfl | rfl⟩, hxh⟩
        · exact ⟨t, ht, .inl rfl⟩
        · rw [eq_zero_of_ray ht hccw' hxh, zero_smul]
          exact ⟨0, le_rfl, .inl (zero_smul _ _).symm⟩
    · rw [if_neg hccw]
      have hccw' := hsharp.ccw.nonneg (not_lt.mp hccw)
      refine fun x => ⟨fun hx => ⟨hx, ?_⟩, And.left⟩
      obtain ⟨t, ht, rfl | rfl⟩ := (mem_cone_degen hdegen).mp hx
      · exact hin ht hcw'
      · exact hin ht hccw'

/-! ### Where the bounds come from -/

/-- Each bound of `w'` is one of `w`, or along the boundary of `h`. -/
theorem Cut.ends {p : ℝ × ℝ → Prop} (hcut : w.Cut h (some w')) (hw : w.Ends p)
    (hleft : ∀ (s : ℝ) (u : ℝ × ℝ), 0 < s → Planar.dot u u = 1 → turn h = s • u → p u)
    (hright : ∀ (s : ℝ) (u : ℝ × ℝ), 0 < s → Planar.dot u u = 1 → -turn h = s • u → p u) :
    w'.Ends p := by
  cases hcut with
  | newCw hs hunit hu hccw hcw => exact ⟨hleft _ _ hs hunit hu, hw.ccw⟩
  | newCcw hs hunit hu hcw hccw => exact ⟨hw.cw, hright _ _ hs hunit hu⟩
  | passCcw hccw hcw => exact hw
  | passCw hcw hccw => exact hw
  | touch hcw hccw hside => exact hw
  | onlyCcw hcw hccw => exact ⟨hw.ccw, hw.ccw⟩
  | onlyCw hccw hcw => exact ⟨hw.cw, hw.cw⟩
  | line hcw hccw hside => exact ⟨hw.cw, hw.ccw⟩

theorem cutDegenerate_ends {p : ℝ × ℝ → Prop} (hcut : w.cutDegenerate h = some w')
    (hw : w.Ends p) : w'.Ends p := by
  rw [cutDegenerate] at hcut
  split at hcut
  · split at hcut
    · cases hcut
    · obtain rfl := Option.some.inj hcut
      exact ⟨hw.ccw, hw.ccw⟩
  · split at hcut
    · obtain rfl := Option.some.inj hcut
      exact ⟨hw.cw, hw.cw⟩
    · obtain rfl := Option.some.inj hcut
      exact hw

end Wedge

/-! ### The loops -/

/-- The half-planes are short or not, and a product of one with a vector along the boundary of
another one is zero or not within the tolerance. -/
structure Distinct (half : ℕ → ℝ × ℝ) (order : List ℕ) : Prop where
  short {j : ℕ} : j ∈ order → half j = 0 ∨ 2 * EPS ≤ len (half j)
  edge {j k : ℕ} : j ∈ order → k ∈ order →
    cross (half j) (half k) = 0 ∨ 2 * EPS * len (half j) < |cross (half j) (half k)|

/-- A unit vector along the boundary of one of the half-planes. -/
def OnEdge (half : ℕ → ℝ × ℝ) (order : List ℕ) (u : ℝ × ℝ) : Prop :=
  Planar.dot u u = 1 ∧
    ∃ k ∈ order, ∃ s : ℝ, s ≠ 0 ∧ |s| = len (half k) ∧ turn (half k) = s • u

section Loops

variable {w w' : Wedge ℝ} {half : ℕ → ℝ × ℝ} {front rest order : List ℕ} {u : ℝ × ℝ} {j k : ℕ}

theorem onEdge_turn (hk : k ∈ order) {s : ℝ} (hs : s ≠ 0) (hunit : Planar.dot u u = 1)
    (hu : turn (half k) = s • u) : OnEdge half order u := by
  refine ⟨hunit, k, hk, s, hs, ?_, hu⟩
  have hsq : Planar.dot (half k) (half k) = s ^ 2 := by
    rw [← dot_turn_turn, hu, dot_smul_left, dot_comm, dot_smul_left, hunit]
    ring
  rw [len, hsq, Real.sqrt_sq_eq_abs]

/-- The product with a vector along an edge. -/
theorem OnEdge.mul_dot {s : ℝ} (hu : turn (half k) = s • u) (x : ℝ × ℝ) :
    s * Planar.dot u x = -cross (half k) x := by
  rw [← dot_smul_left, ← hu]
  simp only [turn, Planar.dot, cross]
  ring

theorem OnEdge.sharp (hdistinct : Distinct half order) (hu : OnEdge half order u)
    (hj : j ∈ order) : Sharp (Planar.dot u (half j)) := by
  obtain ⟨-, k, hk, s, hs, hlen, hturn⟩ := hu
  have hmul := OnEdge.mul_dot hturn (half j)
  rcases hdistinct.edge hk hj with hzero | hlarge
  · rw [hzero, neg_zero] at hmul
    exact .inl ((mul_eq_zero.mp hmul).resolve_left hs)
  · rw [← abs_neg, ← hmul, abs_mul, ← hlen, mul_comm] at hlarge
    exact .inr (lt_of_mul_lt_mul_left hlarge (abs_nonneg s))

theorem Wedge.Ends.sharp (hdistinct : Distinct half order) (hends : w.Ends (OnEdge half order))
    (hj : j ∈ order) : w.Ends fun u => Sharp (Planar.dot u (half j)) :=
  ⟨hends.cw.sharp hdistinct hj, hends.ccw.sharp hdistinct hj⟩

/-- What the half-planes of `rest` have left of `w`. -/
def Wedge.ExactlyAll (w : Wedge ℝ) (half : ℕ → ℝ × ℝ) (rest : List ℕ) : Option (Wedge ℝ) → Prop
  | none => ∀ x ∈ w.cone, (∀ j ∈ rest, 0 ≤ Planar.dot x (half j)) → x = 0
  | some w' => ∀ x, x ∈ w'.cone ↔ x ∈ w.cone ∧ ∀ j ∈ rest, 0 ≤ Planar.dot x (half j)

theorem Wedge.exactlyAll_nil (w : Wedge ℝ) (half : ℕ → ℝ × ℝ) :
    w.ExactlyAll half [] (some w) :=
  fun _ => ⟨fun hx => ⟨hx, fun _ hj => absurd hj List.not_mem_nil⟩, And.left⟩

theorem Wedge.Exactly.none_cons (h : w.Exactly (half j) none) (rest : List ℕ) :
    w.ExactlyAll half (j :: rest) none :=
  fun x hx hall => h x hx (hall j List.mem_cons_self)

theorem Wedge.Exactly.cons {left : Option (Wedge ℝ)} (h : w.Exactly (half j) (some w'))
    (hrest : w'.ExactlyAll half rest left) : w.ExactlyAll half (j :: rest) left := by
  cases left with
  | none =>
    intro x hx hall
    rw [List.forall_mem_cons] at hall
    exact hrest x ((h x).mpr ⟨hx, hall.1⟩) hall.2
  | some w'' =>
    intro x
    rw [hrest x, h x, List.forall_mem_cons, and_assoc]

theorem foldlM_exactly (hdistinct : Distinct half order) (hsub : rest ⊆ order)
    (hends : w.Ends (OnEdge half order)) (hw : w.Proper) (hdegen : w.degen = true) :
    w.ExactlyAll half rest (rest.foldlM (fun w j => w.cutDegenerate (half j)) w) ∧
      ∀ w' ∈ rest.foldlM (fun w j => w.cutDegenerate (half j)) w,
        w'.Proper ∧ w'.Ends (OnEdge half order) := by
  induction rest generalizing w with
  | nil => exact ⟨w.exactlyAll_nil half, fun w' hw' => by cases hw'; exact ⟨hw, hends⟩⟩
  | cons j rest ih =>
    obtain ⟨hj, hsub⟩ := List.cons_subset.mp hsub
    have hexact := Wedge.cutDegenerate_exactly hdegen (hends.sharp hdistinct hj)
    rw [List.foldlM_cons]
    cases hcut : w.cutDegenerate (half j) with
    | none =>
      rw [hcut] at hexact
      exact ⟨hexact.none_cons rest, fun _ hw' => nomatch hw'⟩
    | some w'' =>
      rw [hcut] at hexact
      obtain ⟨hkeeps, hdegen'⟩ := Wedge.cutDegenerate_keeps hw hdegen hcut
      obtain ⟨hall, hends'⟩ := ih hsub (Wedge.cutDegenerate_ends hcut hends) hkeeps.proper hdegen'
      exact ⟨hexact.cons hall, hends'⟩

theorem cutList_exactly (front : List ℕ) (hdistinct : Distinct half order) (hsub : rest ⊆ order)
    (hends : w.Ends (OnEdge half order)) (hw : w.Proper) (hdegen : w.degen = false) :
    w.ExactlyAll half rest (cutList half front rest w).1 ∧
      ∀ w' ∈ (cutList half front rest w).1, w'.Proper ∧ w'.Ends (OnEdge half order) := by
  induction rest generalizing front w with
  | nil => exact ⟨w.exactlyAll_nil half, fun w' hw' => by cases hw'; exact ⟨hw, hends⟩⟩
  | cons j rest ih =>
    obtain ⟨hj, hsub⟩ := List.cons_subset.mp hsub
    have houtcome := Wedge.cut_outcome hw (half j)
    have hexact := houtcome.exactly hw hdegen (hends.sharp hdistinct hj)
    rcases hcut : w.cut (half j) with - | ⟨offensive, w''⟩
    · rw [hcut] at hexact
      rw [cutList_none hcut]
      exact ⟨Wedge.Exactly.none_cons hexact rest, fun _ hw' => nomatch hw'⟩
    · rw [hcut] at hexact houtcome
      have hkeeps : w.Keeps (half j) w'' := houtcome.keeps hw hdegen
      have hends' : w''.Ends (OnEdge half order) := by
        refine Wedge.Cut.ends houtcome hends (fun s u hs hunit hu => ?_) fun s u hs hunit hu => ?_
        · exact onEdge_turn hj hs.ne' hunit hu
        · refine onEdge_turn hj (neg_ne_zero.mpr hs.ne') hunit ?_
          rw [neg_smul, ← hu, neg_neg]
      rw [cutList_some hcut]
      rcases hdegen' : w''.degen with - | -
      · rw [if_neg Bool.false_ne_true]
        obtain ⟨hall, hlast⟩ := ih (place offensive front j) hsub hends' hkeeps.proper hdegen'
        exact ⟨Wedge.Exactly.cons hexact hall, hlast⟩
      · rw [if_pos rfl]
        obtain ⟨hall, hlast⟩ := foldlM_exactly hdistinct hsub hends' hkeeps.proper hdegen'
        exact ⟨Wedge.Exactly.cons hexact hall, hlast⟩

/-- The vectors of the half-planes of `order`. -/
def Meet (half : ℕ → ℝ × ℝ) (order : List ℕ) : Set (ℝ × ℝ) :=
  {x | ∀ j ∈ order, 0 ≤ Planar.dot x (half j)}

/-- The first half-plane makes a wedge of a half turn. -/
theorem start_exactly (hj : j ∈ order) (hstart : Wedge.start (half j) = some w) :
    w.Ends (OnEdge half order) ∧ ∀ x, x ∈ w.cone ↔ 0 ≤ Planar.dot x (half j) := by
  obtain ⟨u, hunit2, hw⟩ := Option.bind_eq_some_iff.mp hstart
  have hlen : 2 * EPS ≤ len (half j) := by
    by_contra hlt
    have hnone : unit2 (half j) EPS = none :=
      if_pos (by rw [lt_real, two_EPS]; exact not_le.mp hlt)
    rw [hnone] at hunit2
    cases hunit2
  obtain ⟨s, u', hs, hu', hunit, hhalf⟩ := unit2_eq EPS_pos hlen
  obtain rfl := Option.some.inj (hunit2.symm.trans hu')
  obtain rfl := Option.some.inj hw
  have hturn : turn (half j) = s • turn u := by
    rw [hhalf]
    exact Prod.ext rfl (mul_neg _ _).symm
  have hunit' : Planar.dot (turn u) (turn u) = 1 := (dot_turn_turn u u).trans hunit
  refine ⟨⟨onEdge_turn hj hs.ne' hunit' hturn, ?_⟩, fun x => ?_⟩
  · refine onEdge_turn (u := -turn u) hj (neg_ne_zero.mpr hs.ne') ?_ ?_
    · rw [dot_neg_left, dot_neg_right, neg_neg, hunit']
    · rw [hturn, neg_smul, smul_neg, neg_neg]
  · have hcone : x ∈ Sector (turn u) (-turn u) ↔ 0 ≤ Planar.dot x u := by
      rw [Sector, Set.mem_ofPred_eq, cross_turn_left, cross_neg_right, cross_turn_right, neg_neg,
        and_self]
    rw [Wedge.cone_sector rfl, hhalf, dot_comm, dot_smul_left, dot_comm,
      mul_nonneg_iff_of_pos_left hs]
    exact hcone

theorem start_ne_none (hdistinct : Distinct half order) (hj : j ∈ order) (hne : half j ≠ 0) :
    Wedge.start (half j) ≠ none := by
  obtain ⟨s, u, -, hu, -, -⟩ := unit2_eq EPS_pos ((hdistinct.short hj).resolve_left hne)
  rw [Wedge.start, hu]
  exact Option.some_ne_none _

/-- **The wedge is exact**: there is none and only zero is in all the half-planes, or its cone
is what they have in common. -/
theorem wedgeList_exactly (hdistinct : Distinct half order) (hj : j ∈ order) (hne : half j ≠ 0) :
    ((wedgeList half order).1 = .error .infeasible ∧ ∀ x ∈ Meet half order, x = 0) ∨
      ∃ w, (wedgeList half order).1 = .ok w ∧ w.Proper ∧ w.Ends (OnEdge half order) ∧
        w.cone = Meet half order := by
  rw [wedgeList]
  rcases hfirst : order.findSome? fun j => Wedge.start (half j) with - | w₀
  · exact absurd (List.findSome?_eq_none_iff.mp hfirst j hj) (start_ne_none hdistinct hj hne)
  · obtain ⟨i, hi, hstart⟩ := List.exists_of_findSome?_eq_some hfirst
    obtain ⟨hw₀, hdegen⟩ := start_proper hstart
    obtain ⟨hends, hcone⟩ := start_exactly hi hstart
    obtain ⟨hexact, hlast⟩ :=
      cutList_exactly [] hdistinct (List.Subset.refl order) hends hw₀ hdegen
    simp only [Prod.map_fst]
    rcases hcut : (cutList half [] order w₀).1 with - | w
    · rw [hcut] at hexact
      exact .inl ⟨rfl, fun x hx => hexact x ((hcone x).mpr (hx i hi)) hx⟩
    · rw [hcut] at hexact hlast
      obtain ⟨hw, hends'⟩ := hlast w rfl
      refine .inr ⟨w, rfl, hw, hends', Set.ext fun x => ?_⟩
      rw [hexact x, hcone x]
      exact and_iff_right_of_imp fun hx => hx i hi

end Loops

/-! ### The optimum -/

section Optimum

variable {w : Wedge ℝ} {half : ℕ → ℝ × ℝ} {order : List ℕ} {n d x z : ℝ × ℝ}

/-- Where the objective is no larger than on `x`; its denominator is positive. -/
def Least (n d : ℝ × ℝ) (region : Set (ℝ × ℝ)) (x : ℝ × ℝ) : Prop :=
  ∀ z ∈ region, 0 < Planar.dot d z →
    Planar.dot n x * Planar.dot d z ≤ Planar.dot n z * Planar.dot d x

theorem least_of_cross (h : ∀ z ∈ w.cone, 0 < Planar.dot d z → cross n d * cross x z ≤ 0) :
    Least n d w.cone x := by
  intro z hz hpos
  have := h z hz hpos
  rw [← dot_mul_dot_sub] at this
  linarith

/-- The cone of a degenerate wedge is convex only if its bounds are along one line. -/
theorem cross_eq_zero_of_degen (hdegen : w.degen = true) (hcone : w.cone = Meet half order) :
    cross w.cw w.ccw = 0 := by
  have hcw : w.cw ∈ w.cone :=
    (Wedge.mem_cone_degen hdegen).mpr ⟨1, zero_le_one, .inl (one_smul _ _).symm⟩
  have hccw : w.ccw ∈ w.cone :=
    (Wedge.mem_cone_degen hdegen).mpr ⟨1, zero_le_one, .inr (one_smul _ _).symm⟩
  have hsum : w.cw + w.ccw ∈ w.cone := by
    rw [hcone] at hcw hccw ⊢
    intro j hj
    have hdot : Planar.dot (w.cw + w.ccw) (half j)
        = Planar.dot w.cw (half j) + Planar.dot w.ccw (half j) := by
      simp only [Planar.dot, Prod.fst_add, Prod.snd_add]
      ring
    rw [hdot]
    exact add_nonneg (hcw j hj) (hccw j hj)
  have hleft : cross w.cw (w.cw + w.ccw) = cross w.cw w.ccw := by
    simp only [cross, Prod.fst_add, Prod.snd_add]
    ring
  have hright : cross (w.cw + w.ccw) w.ccw = cross w.cw w.ccw := by
    simp only [cross, Prod.fst_add, Prod.snd_add]
    ring
  obtain ⟨t, -, ht | ht⟩ := (Wedge.mem_cone_degen hdegen).mp hsum
  · rw [← hleft, ht, cross_smul_right, Planar.cross_self, mul_zero]
  · rw [← hright, ht, cross_smul_left, Planar.cross_self, mul_zero]

/-- `d` is one of the half-planes; the test for a bound near a pole makes no difference. -/
structure Poles (half : ℕ → ℝ × ℝ) (order : List ℕ) (n d : ℝ × ℝ) : Prop where
  mem : ∃ i ∈ order, half i = d
  ne : d ≠ 0
  clear : cross n d = 0 ∨ 2 * EPS * EPS ≤ |cross n d|
  edge {l : ℕ} : l ∈ order → cross n d = 0 ∨ cross (half l) d = 0 ∨
    2 * EPS * (len d * len (half l)) < |cross n d| * |cross (half l) d|

section Poles

variable (hpoles : Poles half order n d) (hdistinct : Distinct half order) (hw : w.Proper)
variable (hends : w.Ends (OnEdge half order)) (hcone : w.cone = Meet half order)

include hpoles hcone in
/-- The denominator is not negative on the wedge. -/
theorem Poles.nonneg (hx : x ∈ w.cone) : 0 ≤ Planar.dot x d := by
  obtain ⟨i, hi, rfl⟩ := hpoles.mem
  rw [hcone] at hx
  exact hx i hi

include hpoles hdistinct in
theorem Poles.sharp (hx : OnEdge half order x) : Sharp (Planar.dot x d) := by
  obtain ⟨i, hi, rfl⟩ := hpoles.mem
  exact hx.sharp hdistinct hi

/-- The objective on the two bounds. -/
theorem cross_mul_cross (w : Wedge ℝ) (n d : ℝ × ℝ) :
    cross n d * cross w.cw w.ccw
      = Planar.dot w.cw n * Planar.dot w.ccw d - Planar.dot w.ccw n * Planar.dot w.cw d := by
  rw [← dot_mul_dot_sub, dot_comm n, dot_comm d, dot_comm n, dot_comm d]

include hpoles hends in
/-- Near a pole at the clockwise bound, the product that the code tests is sharp. -/
theorem Poles.lt_mul (hcw : Planar.dot w.cw d = 0) (hccw : Planar.dot w.ccw d ≠ 0)
    (hnd : cross n d ≠ 0) : 2 * EPS < |Planar.dot w.cw n * Planar.dot w.ccw d| := by
  obtain ⟨hunit, -⟩ := hends.cw
  obtain ⟨-, l, hl, s, hs, hlen, hturn⟩ := hends.ccw
  have hmul := OnEdge.mul_dot hturn d
  have hcross : cross (half l) d ≠ 0 := by
    intro hzero
    rw [hzero, neg_zero] at hmul
    exact hccw ((mul_eq_zero.mp hmul).resolve_left hs)
  have hlarge := ((hpoles.edge hl).resolve_left hnd).resolve_left hcross
  have hd : |cross w.cw d| = len d := by
    have hsq := dot_sq_add_cross_sq w.cw d
    rw [hcw, hunit, one_mul, zero_pow two_ne_zero, zero_add] at hsq
    rw [len, ← hsq, Real.sqrt_sq_eq_abs]
  have hn : cross n d = Planar.dot w.cw n * cross w.cw d := by
    have hid : Planar.dot w.cw w.cw * cross n d
        = cross n w.cw * Planar.dot w.cw d + Planar.dot w.cw n * cross w.cw d := by
      simp only [Planar.dot, cross]
      ring
    rwa [hunit, one_mul, hcw, mul_zero, zero_add] at hid
  have hd0 : 0 < len d * len (half l) := by
    refine mul_pos (Real.sqrt_pos.mpr (dot_self_pos.mpr hpoles.ne)) ?_
    rw [← hlen]
    exact abs_pos.mpr hs
  have heq : |cross n d| * |cross (half l) d|
      = |Planar.dot w.cw n * Planar.dot w.ccw d| * (len d * len (half l)) := by
    rw [hn, abs_mul, hd, ← abs_neg (cross (half l) d), ← hmul, abs_mul, hlen, abs_mul]
    ring
  rw [heq] at hlarge
  exact lt_of_mul_lt_mul_right hlarge hd0.le

include hpoles hdistinct hw hends hcone in
/-- **The quotient is smallest on the bound that the code chooses.** -/
theorem lpMinLinRat_cases (hdegen : w.degen = false) (hnd : cross n d ≠ 0) :
    lpMinLinRat w n d = w.cw ∧ cross n d ≤ 0 ∨ lpMinLinRat w n d = w.ccw ∧ 0 ≤ cross n d := by
  have hE := EPS_pos
  have hopens := hw.opens hdegen
  have ha := hpoles.nonneg hcone (w.region_subset_cone hw.cw_mem)
  have hb := hpoles.nonneg hcone (w.region_subset_cone hw.ccw_mem)
  have hasharp := hpoles.sharp hdistinct hends.cw
  have hbsharp := hpoles.sharp hdistinct hends.ccw
  -- the sign of `cross n d` is that of the comparison, since the wedge opens to the left
  have hcross := cross_mul_cross w n d
  have hzero {a : ℝ} (hsharp : Sharp a) (hnot : ¬ notZero a = true) : a = 0 := by
    rw [notZero_real] at hnot
    exact hsharp.eq_zero (not_le.mp hnot)
  have hpos {a : ℝ} (hnonneg : 0 ≤ a) (hnot : notZero a = true) : 0 < a := by
    rw [notZero_real, abs_of_nonneg hnonneg] at hnot
    linarith
  rw [lpMinLinRat, hdegen, if_neg Bool.false_ne_true]
  by_cases hcw : notZero (dot2 w.cw d) = true
  · have ha' := hpos ha hcw
    have hK : 0 < cross w.cw w.ccw :=
      hopens.pos (h := d) (show 0 < Planar.dot w.cw d + Planar.dot w.ccw d by linarith).ne'
    -- both ends are on the positive side of `d`: the ratios are compared
    by_cases hccw : notZero (dot2 w.ccw d) = true
    · have hb' := hpos hb hccw
      rw [if_pos (by rw [hcw, hccw]; rfl), if_pos (by rw [lt_real]; exact mul_pos ha' hb')]
      by_cases hlt : lt (dot2 w.cw n / dot2 w.cw d) (dot2 w.ccw n / dot2 w.ccw d) = true
      · rw [if_pos hlt]
        rw [lt_real, dot2_real, dot2_real, dot2_real, dot2_real, div_lt_div_iff₀ ha' hb'] at hlt
        refine .inl ⟨rfl, (neg_of_mul_neg_left ?_ hK.le).le⟩
        linarith
      · rw [if_neg hlt]
        rw [lt_real, dot2_real, dot2_real, dot2_real, dot2_real, div_lt_div_iff₀ ha' hb',
          not_lt] at hlt
        refine .inr ⟨rfl, nonneg_of_mul_nonneg_left ?_ hK⟩
        linarith
    · -- `ccw` is on the line of `d`
      have hb0 := hzero hbsharp hccw
      rw [if_neg (by rw [Bool.and_eq_true]; exact fun hand => hccw hand.2), if_pos hcw]
      rw [hb0, mul_zero, zero_sub] at hcross
      by_cases hlt : lt 0 (dot2 w.ccw n * dot2 w.cw d) = true
      · rw [if_pos hlt]
        rw [lt_real, dot2_real, dot2_real] at hlt
        refine .inl ⟨rfl, (neg_of_mul_neg_left ?_ hK.le).le⟩
        linarith
      · rw [if_neg hlt]
        rw [lt_real, dot2_real, dot2_real, not_lt] at hlt
        refine .inr ⟨rfl, nonneg_of_mul_nonneg_left ?_ hK⟩
        linarith
  · have ha0 := hzero hasharp hcw
    rw [if_neg (by rw [Bool.and_eq_true]; exact fun hand => hcw hand.1), if_neg hcw]
    by_cases hccw : notZero (dot2 w.ccw d) = true
    · have hb' := hpos hb hccw
      have hK : 0 < cross w.cw w.ccw :=
        hopens.pos (h := d) (show 0 < Planar.dot w.cw d + Planar.dot w.ccw d by linarith).ne'
      -- the comparison with `2 * EPS` is one with zero, since the product is not small
      have hlarge := hpoles.lt_mul hends ha0 hb'.ne' hnd
      rw [if_pos hccw]
      rw [ha0, mul_zero, sub_zero] at hcross
      by_cases hlt : lt (lit 2 * EPS) (dot2 w.cw n * dot2 w.ccw d) = true
      · rw [if_pos hlt]
        rw [lt_real, two_EPS, dot2_real, dot2_real] at hlt
        refine .inr ⟨rfl, (pos_of_mul_pos_left ?_ hK.le).le⟩
        linarith
      · rw [if_neg hlt]
        rw [lt_real, two_EPS, dot2_real, dot2_real, not_lt] at hlt
        have hneg : Planar.dot w.cw n * Planar.dot w.ccw d < 0 := by
          rcases lt_abs.mp hlarge with h | h
          · linarith
          · linarith
        refine .inl ⟨rfl, (neg_of_mul_neg_left ?_ hK.le).le⟩
        linarith
    · -- both ends are on the line: the code compares the directions
      rw [if_neg hccw]
      by_cases hlt : lt 0 (cross2 d n) = true
      · rw [if_pos hlt]
        rw [lt_real, cross2_real, cross_comm] at hlt
        exact .inl ⟨rfl, by linarith⟩
      · rw [if_neg hlt]
        rw [lt_real, cross2_real, cross_comm, not_lt] at hlt
        exact .inr ⟨rfl, by linarith⟩

include hpoles hdistinct in
/-- The denominator is not taken for zero. -/
theorem Poles.lt_dot_self : 2 * EPS * EPS < Planar.dot d d := by
  have hE := EPS_pos
  obtain ⟨i, hi, rfl⟩ := hpoles.mem
  have hlen := (hdistinct.short hi).resolve_left hpoles.ne
  rw [dot_self_eq_len]
  nlinarith

/-- Where numerator and denominator are parallel, one vector is as good as another. -/
theorem least_of_parallel (hnd : cross n d = 0) : Least n d w.cone x :=
  least_of_cross fun z _ _ => by rw [hnd, zero_mul]

theorem least_cw (hdegen : w.degen = false) (hnd : cross n d ≤ 0) : Least n d w.cone w.cw :=
  least_of_cross fun z hz _ => by
    rw [Wedge.cone_sector hdegen] at hz
    exact mul_nonpos_of_nonpos_of_nonneg hnd hz.1

theorem least_ccw (hdegen : w.degen = false) (hnd : 0 ≤ cross n d) : Least n d w.cone w.ccw :=
  least_of_cross fun z hz _ => by
    rw [Wedge.cone_sector hdegen] at hz
    rw [cross_comm w.ccw z, mul_neg, neg_nonpos]
    exact mul_nonneg hnd hz.2

include hcone in
/-- On a degenerate wedge too. -/
theorem least_of_degen (hdegen : w.degen = true) (hx : x = w.cw ∨ x = w.ccw) :
    Least n d w.cone x := by
  have hflat := cross_eq_zero_of_degen hdegen hcone
  refine least_of_cross fun z hz _ => ?_
  have hzero : cross x z = 0 := by
    obtain ⟨t, -, rfl | rfl⟩ := (Wedge.mem_cone_degen hdegen).mp hz
    · rcases hx with rfl | rfl
      · rw [cross_smul_right, Planar.cross_self, mul_zero]
      · rw [cross_smul_right, cross_comm, hflat, neg_zero, mul_zero]
    · rcases hx with rfl | rfl
      · rw [cross_smul_right, hflat, mul_zero]
      · rw [cross_smul_right, Planar.cross_self, mul_zero]
  rw [hzero, mul_zero]

include hpoles hdistinct hw hends hcone in
/-- **The optimum is exact**: it is a bound of the wedge, and the objective is nowhere smaller. -/
theorem optimum_least : ((w.optimum n d).2 = w.cw ∨ (w.optimum n d).2 = w.ccw) ∧
    Least n d w.cone (w.optimum n d).2 := by
  rw [Wedge.optimum]
  by_cases hparallel : lt (ABS (cross2 n d)) (lit 2 * EPS * EPS) = true
  · rw [if_pos hparallel, if_pos]
    · rw [lt_real, two_EPS, ABS_real, cross2_real] at hparallel
      exact ⟨.inl rfl, least_of_parallel (hpoles.clear.resolve_right hparallel.not_ge)⟩
    · rw [Bool.or_eq_true, lt_real, lt_real, two_EPS, dot2_real, dot2_real]
      exact .inr (hpoles.lt_dot_self hdistinct)
  · rw [if_neg hparallel]
    rw [lt_real, two_EPS, ABS_real, cross2_real, not_lt] at hparallel
    have hnd : cross n d ≠ 0 := by
      have hE := EPS_pos
      exact abs_pos.mp (lt_of_lt_of_le (by positivity) hparallel)
    rcases hdegen : w.degen with - | -
    · rcases lpMinLinRat_cases hpoles hdistinct hw hends hcone hdegen hnd with
        ⟨heq, hle⟩ | ⟨heq, hle⟩
      · exact ⟨.inl heq, by rw [heq]; exact least_cw hdegen hle⟩
      · exact ⟨.inr heq, by rw [heq]; exact least_ccw hdegen hle⟩
    · have hbound : lpMinLinRat w n d = w.cw ∨ lpMinLinRat w n d = w.ccw := by
        rw [lpMinLinRat, if_pos hdegen]
        split
        · exact .inl rfl
        · exact .inr rfl
      exact ⟨hbound, least_of_degen hcone hdegen hbound⟩

end Poles

end Optimum

end Lp

end Commelec
