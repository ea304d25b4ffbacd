/-
Commelec/Rasterization.lean

The rasteriser of cost functions (`renderCostFunction` and `evalFunOnPQDomain` of
`visualization_server.cpp`).

The client asks for a resolution.  The server rounds the bounding box of the PQ profile
outwards to multiples of the resolution, and asks Eigen for as many equally spaced points as
there are cells between the two ends.  The points include both ends, so there is one too few
of them, and they are too far apart:

* `gridPoints_real` — the points that the server computes;
* `gridPoints_spacing` — their distance: with `n` cells, it is `n / (n - 1)` times the
  resolution, and a single cell has a single point;
* `renderCostFunction_spacing` — so the resolution of an image is never the one asked for.
-/
import Commelec.RunLength
import Commelec.AdvFunc

namespace Commelec

open Effectful Outcome Double

/-- `static_cast<Eigen::Index>(x)`. -/
class ToIndex (R : Type) where
  toIndex : R → ℤ

export ToIndex (toIndex)

/-- Towards zero. -/
noncomputable instance : ToIndex ℝ where
  toIndex x := if 0 ≤ x then ⌊x⌋ else ⌈x⌉

/-! ### The code -/

section Code

variable {R : Type} [Double R]

/-- `v.setLinSpaced(size, low, high)`: equally spaced points, the ends included. -/
def setLinSpaced (size : ℤ) (low high : R) : Outcome Err (List R) := do
  assert (0 ≤ size)
  if size = 1 then pure [high]
  else
    let step := (high - low) / lit (size - 1)
    pure ((List.range size.toNat).map fun i : ℕ => low + lit i * step)

variable [ToIndex R]

/-- The evaluation points of a coordinate, for the resolution `res`. -/
def gridPoints (res min max : R) : Outcome Err (List R) :=
  let minDiv := floor (min / res)
  let maxDiv := ceil (max / res)
  let dim := maxDiv - minDiv
  setLinSpaced (toIndex dim) (minDiv * res) (maxDiv * res)

/-- The members of the request that are there. -/
structure RenderRequest (R : Type) where
  resP : Option R
  resQ : Option R
  dimP : Option ℤ
  dimQ : Option ℤ

/-- The vectors `p` and `q`, unless the request specifies neither dimension nor resolution. -/
def evalPoints (request : RenderRequest R) (bb : AlignedBox R) :
    Outcome Err (Option (List R × List R)) := do
  match request with
  | ⟨some resP, some resQ, _, _⟩ =>
    let p ← gridPoints resP (← coefficient bb.min 0) (← coefficient bb.max 0)
    let q ← gridPoints resQ (← coefficient bb.min 1) (← coefficient bb.max 1)
    pure (some (p, q))
  | ⟨_, _, some dimP, some dimQ⟩ =>
    let p ← setLinSpaced dimP (← coefficient bb.min 0) (← coefficient bb.max 0)
    let q ← setLinSpaced dimQ (← coefficient bb.min 1) (← coefficient bb.max 1)
    pure (some (p, q))
  | _ => pure none

/-- `evalFunOnPQDomain(pqFun, pqDomain, interpreter, p, q)`: the rows of the matrix. -/
def evalFunOnPQDomain (nan : R) (fuel : ℕ) (pqFun : RealExpr R) (pqDomain : SetExpr R)
    (evalPointsP evalPointsQ : List R) : Run (AdvFunc R) Err (List (List R)) :=
  evalPointsP.mapM fun p => evalPointsQ.mapM fun q => do
    let isMember ← AdvFunc.testMembership fuel pqDomain [p, q] fun _ => none
    if isMember then AdvFunc.evaluate fuel pqFun (bindPQ p q) else pure nan

/-- The object `cf` of the response. -/
structure CostImage (R : Type) where
  data : List (JsonValue R)
  originP : R
  originQ : R
  dimP : ℕ
  dimQ : ℕ
  resP : R
  resQ : R

/-- What the response says about the points. -/
def describe (data : List (JsonValue R)) (p q : List R) : Outcome Err (CostImage R) := do
  let originP ← coefficient p 0
  let originQ ← coefficient q 0
  let resP ← pure ((← coefficient p 1) - (← coefficient p 0))
  let resQ ← pure ((← coefficient q 1) - (← coefficient q 0))
  pure ⟨data, originP, originQ, p.length, q.length, resP, resQ⟩

/-- `renderCostFunction(request, response, adv)`; `none` if nothing is added to the response. -/
def renderCostFunction (nan : R) (solveLp2 : LpSolver R) (fuel : ℕ) (request : RenderRequest R)
    (adv : Advertisement R) : Run (AdvFunc R) Err (Option (CostImage R)) := do
  AdvFunc.setAdv adv
  let pqProf := adv.pQProfile.getD .default
  let bb ← AdvFunc.rectangularHull solveLp2 fuel pqProf fun _ => none
  match ← (evalPoints request bb).lift with
  | none => pure none
  | some (p, q) =>
    let rasterized ←
      evalFunOnPQDomain nan fuel (adv.costFunction.getD .default) pqProf p q
    let data ← (runlengthCompress (fun (i : Fin p.length) (j : Fin q.length) =>
      (rasterized.getD i []).getD j nan) compressVals).lift
    let cf ← (describe data p q).lift
    pure (some cf)

end Code

/-! ### The points of a coordinate -/

variable {res min max : ℝ}

theorem toIndex_intCast (n : ℤ) : toIndex (n : ℝ) = n := by
  show (if 0 ≤ (n : ℝ) then ⌊(n : ℝ)⌋ else ⌈(n : ℝ)⌉) = n
  rw [Int.floor_intCast, Int.ceil_intCast, ite_self]

/-- The number of cells of width `res` that the interval touches. -/
noncomputable def cells (res min max : ℝ) : ℕ := (⌈max / res⌉ - ⌊min / res⌋).toNat

theorem cells_eq (hres : 0 < res) (h : min < max) :
    (cells res min max : ℤ) = ⌈max / res⌉ - ⌊min / res⌋ ∧ 1 ≤ cells res min max := by
  have hlt : ⌊min / res⌋ < ⌈max / res⌉ := by
    have := (Int.floor_le (min / res)).trans_lt
      ((div_lt_div_of_pos_right h hres).trans_le (Int.le_ceil (max / res)))
    exact_mod_cast this
  rw [cells]
  omega

/-- With one cell, Eigen gives the upper end. -/
theorem gridPoints_one (hres : 0 < res) (h : min < max) (hcells : cells res min max = 1) :
    gridPoints res min max = ok [⌈max / res⌉ * res] := by
  have hdim := (cells_eq hres h).1
  show setLinSpaced (toIndex ((⌈max / res⌉ : ℝ) - ⌊min / res⌋)) _ (⌈max / res⌉ * res) = _
  rw [← Int.cast_sub, toIndex_intCast, ← hdim, hcells]
  rfl

/-- With `n` cells, the `n` points divide the cells into `n - 1` parts. -/
theorem gridPoints_real (hres : 0 < res) (h : min < max) (hcells : 2 ≤ cells res min max) :
    gridPoints res min max = ok ((List.range (cells res min max)).map fun i : ℕ =>
      (⌊min / res⌋ * res + i * (res * (cells res min max / (cells res min max - 1))) : ℝ)) := by
  have hdim := (cells_eq hres h).1
  have hcast : (cells res min max : ℝ) = ⌈max / res⌉ - ⌊min / res⌋ := by exact_mod_cast hdim
  show setLinSpaced (toIndex ((⌈max / res⌉ : ℝ) - ⌊min / res⌋)) (⌊min / res⌋ * res)
    (⌈max / res⌉ * res) = _
  rw [← Int.cast_sub, toIndex_intCast, ← hdim, setLinSpaced, assert,
    if_pos (decide_eq_true (by omega)), if_neg (by omega), Int.toNat_natCast]
  refine congrArg ok (List.map_congr_left fun i _ => ?_)
  rw [lit_real, lit_real]
  push_cast
  rw [hcast]
  ring

theorem gridPoints_ok (hres : 0 < res) (h : min < max) :
    ∃ points, gridPoints res min max = ok points ∧ points.length = cells res min max := by
  rcases (cells_eq hres h).2.eq_or_lt with hone | htwo
  · exact ⟨_, gridPoints_one hres h hone.symm, hone⟩
  · exact ⟨_, gridPoints_real hres h htwo, by rw [List.length_map, List.length_range]⟩

/-- **The distance of the points.**  If there are two points, they are farther apart than the
resolution. -/
theorem gridPoints_spacing (hres : 0 < res) (h : min < max) {points : List ℝ} {p0 p1 : ℝ}
    (hpoints : gridPoints res min max = ok points) (h0 : points[0]? = some p0)
    (h1 : points[1]? = some p1) :
    2 ≤ points.length ∧ p1 - p0 = res * (points.length / (points.length - 1)) ∧
      res < p1 - p0 := by
  rcases (cells_eq hres h).2.eq_or_lt with hone | htwo
  · rw [gridPoints_one hres h hone.symm] at hpoints
    obtain rfl := Outcome.ok.inj hpoints
    simp at h1
  · rw [gridPoints_real hres h htwo] at hpoints
    obtain rfl := Outcome.ok.inj hpoints
    rw [List.getElem?_map, List.getElem?_range (by omega)] at h0 h1
    obtain rfl := Option.some.inj h0
    obtain rfl := Option.some.inj h1
    rw [List.length_map, List.length_range]
    have htwo' : (2 : ℝ) ≤ cells res min max := by exact_mod_cast htwo
    have hratio : 1 < (cells res min max : ℝ) / (cells res min max - 1) := by
      rw [one_lt_div (by linarith)]
      linarith
    have hdist : ∀ d : ℝ,
        ⌊min / res⌋ * res + (1 : ℕ) * d - (⌊min / res⌋ * res + (0 : ℕ) * d) = d := by
      intro d
      push_cast
      ring
    rw [hdist]
    exact ⟨htwo, rfl, by nlinarith⟩

/-! ### The grid that was asked for -/

/-- The points are the consecutive multiples of `res`, from the largest one that is not above
`min` to the smallest one that is not below `max`. -/
def IsRaster (res min max : ℝ) (points : List ℝ) : Prop :=
  ∃ (k : ℤ) (n : ℕ), points = (List.range (n + 1)).map (fun i : ℕ => (k + i) * res) ∧
    (k * res ≤ min ∧ ∀ j : ℤ, j * res ≤ min → j ≤ k) ∧
    (max ≤ (k + n) * res ∧ ∀ j : ℤ, max ≤ j * res → k + n ≤ j)

/-- The grid that was asked for has one point more than there are cells. -/
theorem IsRaster.length_eq (hres : 0 < res) {points : List ℝ}
    (hr : IsRaster res min max points) : points.length = cells res min max + 1 := by
  obtain ⟨k, n, rfl, ⟨hmin, hlast⟩, hmax, hfirst⟩ := hr
  have hk : ⌊min / res⌋ = k := by
    apply le_antisymm
    · exact hlast _ ((le_div_iff₀ hres).mp (Int.floor_le _))
    · exact Int.le_floor.mpr ((le_div_iff₀ hres).mpr hmin)
  have hkn : ⌈max / res⌉ = k + n := by
    apply le_antisymm
    · exact Int.ceil_le.mpr ((div_le_iff₀ hres).mpr (by push_cast; exact hmax))
    · exact hfirst _ ((div_le_iff₀ hres).mp (Int.le_ceil _))
  rw [List.length_map, List.length_range, cells, hk, hkn]
  omega

theorem gridPoints_not_raster (hres : 0 < res) (h : min < max) {points : List ℝ}
    (hpoints : gridPoints res min max = ok points) : ¬ IsRaster res min max points := by
  intro hr
  obtain ⟨points', hpoints', hlen⟩ := gridPoints_ok hres h
  obtain rfl := Outcome.ok.inj (hpoints.symm.trans hpoints')
  rw [hr.length_eq hres] at hlen
  omega

/-- **The image of the grid.**  No box and no resolution give the points that were asked for,
in either coordinate. -/
theorem evalPoints_not_raster {request : RenderRequest ℝ} {resP resQ minP maxP minQ maxQ : ℝ}
    (hrequest : request.resP = some resP ∧ request.resQ = some resQ)
    (hres : 0 < resP ∧ 0 < resQ) (hbox : minP < maxP ∧ minQ < maxQ) :
    ∃ p q, evalPoints request ⟨[minP, minQ], [maxP, maxQ]⟩ = ok (some (p, q)) ∧
      ¬ IsRaster resP minP maxP p ∧ ¬ IsRaster resQ minQ maxQ q := by
  obtain ⟨_, _, dimP, dimQ⟩ := request
  obtain ⟨rfl, rfl⟩ := hrequest
  obtain ⟨p, hp, -⟩ := gridPoints_ok hres.1 hbox.1
  obtain ⟨q, hq, -⟩ := gridPoints_ok hres.2 hbox.2
  refine ⟨p, q, ?_, gridPoints_not_raster hres.1 hbox.1 hp, gridPoints_not_raster hres.2 hbox.2 hq⟩
  show (do
    let p ← gridPoints resP minP maxP
    let q ← gridPoints resQ minQ maxQ
    pure (some (p, q))) = _
  rw [hp, ok_bind, hq, ok_bind]
  rfl

/-- A box of two by two cells. -/
def twoByTwo : AlignedBox ℝ := ⟨[0, 0], [2, 2]⟩

theorem evalPoints_not_raster_two :
    ∃ p q, evalPoints ⟨some 1, some 1, none, none⟩ twoByTwo = ok (some (p, q)) ∧
      ¬ IsRaster 1 0 2 p ∧ ¬ IsRaster 1 0 2 q :=
  evalPoints_not_raster ⟨rfl, rfl⟩ ⟨one_pos, one_pos⟩ ⟨two_pos, two_pos⟩

/-- The corners are the only points: the three multiples of the resolution are not met. -/
theorem evalPoints_two_corners :
    evalPoints ⟨some 1, some 1, none, none⟩ twoByTwo = ok (some ([0, 2], [0, 2])) ∧
      ¬ IsRaster 1 0 2 [0, 2] := by
  have hcells : cells 1 0 2 = 2 := by
    norm_num [cells]
    rfl
  have hgrid : gridPoints (1 : ℝ) 0 2 = ok [0, 2] := by
    rw [gridPoints_real one_pos two_pos hcells.ge, hcells]
    norm_num [List.range_succ]
  refine ⟨?_, gridPoints_not_raster one_pos two_pos hgrid⟩
  show (do
    let p ← gridPoints (1 : ℝ) 0 2
    let q ← gridPoints (1 : ℝ) 0 2
    pure (some (p, q))) = _
  rw [hgrid]
  rfl

/-! ### The response -/

theorem coefficient_eq_ok {v : List ℝ} {i : ℕ} {x : ℝ} :
    (coefficient v i : Outcome Err ℝ) = ok x ↔ v[i]? = some x := by
  rw [coefficient]
  rcases v[i]? with - | y <;> simp

/-- What an image says about the points of a coordinate: their number, the first one, and the
distance to the second. -/
structure Describes (dim : ℕ) (origin spacing : ℝ) (points : List ℝ) : Prop where
  dim_eq : dim = points.length
  origin_eq : points[0]? = some origin
  spacing_eq : ∃ next, points[1]? = some next ∧ spacing = next - origin

theorem describe_eq_ok {data : List (JsonValue ℝ)} {p q : List ℝ} {cf : CostImage ℝ}
    (h : describe data p q = ok cf) :
    Describes cf.dimP cf.originP cf.resP p ∧ Describes cf.dimQ cf.originQ cf.resQ q := by
  obtain ⟨p0, hp0, h⟩ := bind_eq_ok.mp h
  obtain ⟨q0, hq0, h⟩ := bind_eq_ok.mp h
  obtain ⟨p1, hp1, h⟩ := bind_eq_ok.mp h
  rw [hp0, ok_bind, pure_eq, ok_bind] at h
  obtain ⟨q1, hq1, h⟩ := bind_eq_ok.mp h
  rw [hq0, ok_bind, pure_eq, ok_bind] at h
  obtain rfl := Outcome.ok.inj h
  rw [coefficient_eq_ok] at hp0 hq0 hp1 hq1
  exact ⟨⟨rfl, hp0, p1, hp1, rfl⟩, ⟨rfl, hq0, q1, hq1, rfl⟩⟩

theorem Describes.spacing_gt {dim : ℕ} {origin spacing : ℝ} {points : List ℝ}
    (hd : Describes dim origin spacing points) (hres : 0 < res) (h : min < max)
    (hpoints : gridPoints res min max = ok points) :
    2 ≤ dim ∧ spacing = res * (dim / (dim - 1)) ∧ res < spacing := by
  obtain ⟨next, hnext, hspacing⟩ := hd.spacing_eq
  rw [hd.dim_eq, hspacing]
  exact gridPoints_spacing hres h hpoints hd.origin_eq hnext

/-- The points for a resolution come from the first two coordinates of the box. -/
theorem of_evalPoints {resP resQ : ℝ} {dimP dimQ : Option ℤ} {bb : AlignedBox ℝ}
    {p q : List ℝ}
    (h : evalPoints ⟨some resP, some resQ, dimP, dimQ⟩ bb = ok (some (p, q))) :
    ∃ minP maxP minQ maxQ,
      (bb.min[0]? = some minP ∧ bb.max[0]? = some maxP ∧
        bb.min[1]? = some minQ ∧ bb.max[1]? = some maxQ) ∧
      gridPoints resP minP maxP = ok p ∧ gridPoints resQ minQ maxQ = ok q := by
  obtain ⟨minP, hminP, h⟩ := bind_eq_ok.mp h
  obtain ⟨maxP, hmaxP, h⟩ := bind_eq_ok.mp h
  obtain ⟨p', hp, h⟩ := bind_eq_ok.mp h
  obtain ⟨minQ, hminQ, h⟩ := bind_eq_ok.mp h
  obtain ⟨maxQ, hmaxQ, h⟩ := bind_eq_ok.mp h
  obtain ⟨q', hq, h⟩ := bind_eq_ok.mp h
  obtain ⟨rfl, rfl⟩ := Prod.mk.inj (Option.some.inj (Outcome.ok.inj h))
  rw [coefficient_eq_ok] at hminP hmaxP hminQ hmaxQ
  exact ⟨minP, maxP, minQ, maxQ, ⟨hminP, hmaxP, hminQ, hmaxQ⟩, hp, hq⟩

/-- **The resolution of an image.**  When the server answers a request for a resolution, the
box has more than one cell in each coordinate that is not a single value, and the resolution
of the image is coarser than the one asked for. -/
theorem renderCostFunction_spacing {nan resP resQ : ℝ} {lp : LpSolver ℝ} {fuel : ℕ}
    {dimP dimQ : Option ℤ} {adv : Advertisement ℝ} {af : AdvFunc ℝ} {cf : CostImage ℝ}
    (h : (renderCostFunction nan lp fuel ⟨some resP, some resQ, dimP, dimQ⟩ adv af).1
      = ok (some cf)) (hresP : 0 < resP) (hresQ : 0 < resQ) :
    ∃ af₁ af₂ bb minP maxP minQ maxQ, AdvFunc.setAdv adv af = (ok (), af₁) ∧
      AdvFunc.rectangularHull lp fuel (adv.pQProfile.getD .default) (fun _ => none) af₁
        = (ok bb, af₂) ∧
      bb.min[0]? = some minP ∧ bb.max[0]? = some maxP ∧
      bb.min[1]? = some minQ ∧ bb.max[1]? = some maxQ ∧
      (minP < maxP → 2 ≤ cf.dimP ∧ cf.resP = resP * (cf.dimP / (cf.dimP - 1)) ∧
        resP < cf.resP) ∧
      (minQ < maxQ → 2 ≤ cf.dimQ ∧ cf.resQ = resQ * (cf.dimQ / (cf.dimQ - 1)) ∧
        resQ < cf.resQ) := by
  obtain ⟨⟨⟩, af₁, hset, h⟩ := Run.of_bind_ok h
  obtain ⟨bb, af₂, hhull, h⟩ := Run.of_bind_ok h
  obtain ⟨points, af₃, heval, h⟩ := Run.of_bind_ok h
  rcases points with - | ⟨p, q⟩
  · simp at h
  obtain ⟨rasterized, af₄, -, h⟩ := Run.of_bind_ok h
  obtain ⟨data, af₅, -, h⟩ := Run.of_bind_ok h
  obtain ⟨cf', af₆, hdescribe, h⟩ := Run.of_bind_ok h
  obtain rfl : cf' = cf := by simpa using h
  rw [Run.lift_apply] at heval hdescribe
  have heval' : evalPoints ⟨some resP, some resQ, dimP, dimQ⟩ bb = ok (some (p, q)) :=
    congrArg Prod.fst heval
  obtain ⟨minP, maxP, minQ, maxQ, hbb, hp, hq⟩ := of_evalPoints heval'
  obtain ⟨hdp, hdq⟩ := describe_eq_ok (congrArg Prod.fst hdescribe)
  exact ⟨af₁, af₂, bb, minP, maxP, minQ, maxQ, hset, hhull, hbb.1, hbb.2.1, hbb.2.2.1, hbb.2.2.2,
    fun hlt => hdp.spacing_gt hresP hlt hp, fun hlt => hdq.spacing_gt hresQ hlt hq⟩

end Commelec
