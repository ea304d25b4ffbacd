/-
Commelec/VizImage.lean

The picture of a cost function: what the visualization server sends, and what its client plots
(`visualization_server.cpp` and `viz-user.py`).

The server asks one interpreter about every point of a grid, compresses the values and describes
the grid by its first point, its spacing and its size.  The client decompresses the values and
cuts them into rows.

* `evalFunOnPQDomain_shows` — every value is what a new interpreter finds at the point;
* `describe_gridOf` — the points are those that the description gives;
* `reshape_columnMajor` — the rows of the client are the columns of the server;
* `renderCostFunction_plotted` — **the picture shows the cost function**: the entry of the plotted
  matrix for the grid point `(i, j)` is the cost there, and not a number outside of the PQ
  profile.
-/
import Commelec.Independence
import Commelec.Rasterization

namespace Commelec

open Effectful Outcome Double

variable {R : Type}

/-! ### The client -/

/-- `np.array(data).reshape((rows, cols))`; there is no such array if the size is wrong. -/
def reshape {α : Type} (rows cols : ℕ) (data : List α) : Option (List (List α)) :=
  if data.length = rows * cols then
    some ((List.range rows).map fun j => (data.drop (j * cols)).take cols)
  else none

/-- The matrix that is plotted. -/
def plotted [Double R] (nan : R) (cf : CostImage R) :
    Outcome PyErr (Option (List (List (JsonValue R)))) := do
  let uncData ← uncompress nan cf.data
  pure (reshape cf.dimQ cf.dimP uncData)

/-- Lists of one length are recovered from their concatenation. -/
theorem reshape_flatten {α : Type} (cols : ℕ) {rows : List (List α)}
    (h : ∀ row ∈ rows, row.length = cols) : reshape rows.length cols rows.flatten = some rows := by
  have hlen : rows.flatten.length = rows.length * cols := by
    induction rows with
    | nil => simp
    | cons row rows ih =>
      rw [List.forall_mem_cons] at h
      rw [List.flatten_cons, List.length_append, h.1, ih h.2, List.length_cons, Nat.succ_mul]
      exact Nat.add_comm _ _
  rw [reshape, if_pos hlen]
  congr 1
  clear hlen
  induction rows with
  | nil => rfl
  | cons row rows ih =>
    rw [List.forall_mem_cons] at h
    rw [List.length_cons, List.range_succ_eq_map, List.map_cons, List.map_map, List.flatten_cons]
    congr 1
    · rw [Nat.zero_mul, List.drop_zero]
      exact List.take_left' h.1
    · refine (List.map_congr_left fun j _ => ?_).trans (ih h.2)
      show List.take cols (List.drop ((j + 1) * cols) (row ++ rows.flatten)) = _
      have hpast : row.length ≤ cols + j * cols := by
        rw [h.1]
        exact Nat.le_add_right _ _
      rw [Nat.succ_mul, Nat.add_comm, List.drop_append, List.drop_eq_nil_of_le hpast,
        List.nil_append, h.1, Nat.add_sub_cancel_left]

/-! ### The values -/

section Values

variable [Double R] (nan : R) (fuel : ℕ) (pqFun : RealExpr R) (pqDomain : SetExpr R)

/-- What an interpreter finds at a point: the value of the function in the domain, and `nan`
elsewhere. -/
inductive Shows (af : AdvFunc R) (p q : R) : R → Prop
  | inside {v : R} :
      (AdvFunc.testMembership fuel pqDomain [p, q] (fun _ => none) af).1 = ok true →
      (AdvFunc.evaluate fuel pqFun (bindPQ p q) af).1 = ok v → Shows af p q v
  | outside :
      (AdvFunc.testMembership fuel pqDomain [p, q] (fun _ => none) af).1 = ok false →
      Shows af p q nan

/-- The work on one point. -/
def evalAt (p q : R) : Run (AdvFunc R) Err R := do
  let isMember ← AdvFunc.testMembership fuel pqDomain [p, q] fun _ => none
  if isMember then AdvFunc.evaluate fuel pqFun (bindPQ p q) else pure nan

variable {nan fuel pqFun pqDomain} {fresh af af' : AdvFunc R}

/-- **One point**: an interpreter that has answered other queries finds what a new one finds. -/
theorem evalAt_shows (hfresh : fresh.advValid = true) {p q v : R} (haf : AdvFunc.LooksLike fresh af)
    (h : evalAt nan fuel pqFun pqDomain p q af = (ok v, af')) :
    AdvFunc.LooksLike fresh af' ∧ Shows nan fuel pqFun pqDomain fresh p q v := by
  obtain ⟨isMember, af₁, hmember, h⟩ := Run.bind_eq_ok.mp h
  have haf₁ := haf.run fuel (.testMembership pqDomain [p, q] fun _ => none)
  have hfst := haf.run_eq hfresh fuel (.testMembership pqDomain [p, q] fun _ => none)
  rw [show (Query.testMembership pqDomain [p, q] fun _ => none).run fuel af = _ from hmember]
    at haf₁ hfst
  cases isMember with
  | false =>
    obtain ⟨rfl, rfl⟩ : nan = v ∧ af₁ = af' := by simpa using h
    exact ⟨haf₁, .outside hfst.symm⟩
  | true =>
    have haf' := haf₁.run fuel (.evaluate pqFun (bindPQ p q))
    have hvalue := haf₁.run_eq hfresh fuel (.evaluate pqFun (bindPQ p q))
    rw [show (Query.evaluate pqFun (bindPQ p q)).run fuel af₁ = _ from h] at haf' hvalue
    exact ⟨haf', .inside hfst.symm hvalue.symm⟩

/-- **All points.** -/
theorem evalFunOnPQDomain_shows (hfresh : fresh.advValid = true) (haf : AdvFunc.LooksLike fresh af)
    {evalPointsP evalPointsQ : List R} {rows : List (List R)}
    (h : evalFunOnPQDomain nan fuel pqFun pqDomain evalPointsP evalPointsQ af = (ok rows, af')) :
    List.Forall₂ (fun p row =>
      List.Forall₂ (fun q v => Shows nan fuel pqFun pqDomain fresh p q v) evalPointsQ row)
      evalPointsP rows := by
  have heval : evalFunOnPQDomain nan fuel pqFun pqDomain evalPointsP evalPointsQ
      = evalPointsP.mapM fun p => evalPointsQ.mapM fun q =>
        evalAt nan fuel pqFun pqDomain p q := rfl
  rw [heval] at h
  have hrow (p : R) (af row af') (haf : AdvFunc.LooksLike fresh af)
      (h : (evalPointsQ.mapM fun q => evalAt nan fuel pqFun pqDomain p q :
        Run (AdvFunc R) Err (List R)) af = (ok row, af')) :
      AdvFunc.LooksLike fresh af' ∧
        List.Forall₂ (fun q v => Shows nan fuel pqFun pqDomain fresh p q v) evalPointsQ row := by
    apply Run.mapM_ok (f := fun q => evalAt nan fuel pqFun pqDomain p q) _ haf h
    intro q af v af' haf hv
    exact evalAt_shows hfresh haf hv
  exact (Run.mapM_ok hrow haf h).2

end Values

/-! ### The points -/

/-- A sum of multiples is found again from the first two. -/
theorem affine_of_first (low step : NanReal) (i : ℕ) :
    low + lit i * step = low + lit (0 : ℕ) * step
      + lit i * (low + lit (1 : ℕ) * step - (low + lit (0 : ℕ) * step)) := by
  have hlit (k : ℕ) : (lit (k : ℚ) : NanReal) = .fin k := congrArg NanReal.fin (Rat.cast_natCast k)
  rw [hlit, hlit, hlit]
  cases low with
  | nan => simp
  | fin x =>
    cases step with
    | nan => simp
    | fin y =>
      simp only [NanReal.fin_mul, NanReal.fin_add, NanReal.fin_sub, NanReal.fin.injEq]
      push_cast
      ring

/-- **The points of a coordinate** follow from the first two. -/
theorem setLinSpaced_affine {size : ℤ} {low high origin next : NanReal} {points : List NanReal}
    (h : setLinSpaced size low high = ok points) (h0 : points[0]? = some origin)
    (h1 : points[1]? = some next) :
    points = (List.range points.length).map fun i : ℕ => origin + lit i * (next - origin) := by
  obtain ⟨-, -, h⟩ := bind_eq_ok.mp h
  split at h
  · obtain rfl := Outcome.ok.inj h
    simp at h1
  obtain rfl := Outcome.ok.inj h
  rw [List.length_map, List.length_range]
  rw [List.getElem?_map, Option.map_eq_some_iff] at h0 h1
  obtain ⟨i, hi, rfl⟩ := h0
  obtain ⟨k, hk, rfl⟩ := h1
  obtain ⟨-, rfl⟩ := List.getElem?_eq_some_iff.mp hi
  obtain ⟨-, rfl⟩ := List.getElem?_eq_some_iff.mp hk
  rw [List.getElem_range, List.getElem_range]
  exact List.map_congr_left fun i _ => affine_of_first low _ i

/-- The points of both coordinates are equally spaced. -/
theorem evalPoints_spaced [Double R] [ToIndex R] {request : RenderRequest R} {bb : AlignedBox R}
    {p q : List R} (h : evalPoints request bb = ok (some (p, q))) :
    (∃ size low high, setLinSpaced size low high = ok p) ∧
      ∃ size low high, setLinSpaced size low high = ok q := by
  unfold evalPoints at h
  split at h
  · obtain ⟨minP, -, h⟩ := bind_eq_ok.mp h
    obtain ⟨maxP, -, h⟩ := bind_eq_ok.mp h
    obtain ⟨p', hp, h⟩ := bind_eq_ok.mp h
    obtain ⟨minQ, -, h⟩ := bind_eq_ok.mp h
    obtain ⟨maxQ, -, h⟩ := bind_eq_ok.mp h
    obtain ⟨q', hq, h⟩ := bind_eq_ok.mp h
    obtain ⟨rfl, rfl⟩ := Prod.mk.inj (Option.some.inj (Outcome.ok.inj h))
    exact ⟨⟨_, _, _, hp⟩, _, _, _, hq⟩
  · obtain ⟨minP, -, h⟩ := bind_eq_ok.mp h
    obtain ⟨maxP, -, h⟩ := bind_eq_ok.mp h
    obtain ⟨p', hp, h⟩ := bind_eq_ok.mp h
    obtain ⟨minQ, -, h⟩ := bind_eq_ok.mp h
    obtain ⟨maxQ, -, h⟩ := bind_eq_ok.mp h
    obtain ⟨q', hq, h⟩ := bind_eq_ok.mp h
    obtain ⟨rfl, rfl⟩ := Prod.mk.inj (Option.some.inj (Outcome.ok.inj h))
    exact ⟨⟨_, _, _, hp⟩, _, _, _, hq⟩
  · cases Outcome.ok.inj h

/-- The points that a description gives. -/
def gridOf [Double R] (dim : ℕ) (origin res : R) : List R :=
  (List.range dim).map fun i : ℕ => origin + lit i * res

/-- **The description** of the image. -/
theorem describe_gridOf {data : List (JsonValue NanReal)} {p q : List NanReal}
    {cf : CostImage NanReal} (h : describe data p q = ok cf)
    (hp : ∃ size low high, setLinSpaced size low high = ok p)
    (hq : ∃ size low high, setLinSpaced size low high = ok q) :
    cf.data = data ∧ (cf.dimP = p.length ∧ p = gridOf cf.dimP cf.originP cf.resP) ∧
      cf.dimQ = q.length ∧ q = gridOf cf.dimQ cf.originQ cf.resQ := by
  obtain ⟨originP, hp0, h⟩ := bind_eq_ok.mp h
  obtain ⟨originQ, hq0, h⟩ := bind_eq_ok.mp h
  obtain ⟨nextP, hp1, h⟩ := bind_eq_ok.mp h
  rw [hp0, ok_bind, pure_eq, ok_bind] at h
  obtain ⟨nextQ, hq1, h⟩ := bind_eq_ok.mp h
  rw [hq0, ok_bind, pure_eq, ok_bind] at h
  obtain rfl := Outcome.ok.inj h
  obtain ⟨_, _, _, hp⟩ := hp
  obtain ⟨_, _, _, hq⟩ := hq
  exact ⟨rfl, ⟨rfl, setLinSpaced_affine hp (coefficient_cases hp0) (coefficient_cases hp1)⟩, rfl,
    setLinSpaced_affine hq (coefficient_cases hq0) (coefficient_cases hq1)⟩

/-! ### The picture -/

/-- Fewer than `2 ^ 31` coefficients are compressed, and decompressed again. -/
theorem compress_of_lt {rows cols : ℕ} (m : Fin rows → Fin cols → NanReal)
    (hlen : rows * cols < 2 ^ 31) :
    ∃ array, runlengthCompress m compressVals = ok array ∧
      uncompress .nan array = ok ((columnMajor m).map fun a => .double (restored a)) := by
  have hstart : Compressor.Reads ⟨0, 0, 0, []⟩ (((columnMajor m).take 0).map wireValue) :=
    ⟨fun h => absurd h (Nat.lt_irrefl 0), [], by simp, rfl, rfl⟩
  obtain ⟨st, hloop, hreads⟩ := compressLoop_reads (by rwa [length_columnMajor])
    (Nat.zero_le _) le_rfl hstart
  obtain ⟨tokens, hvalid, hwrite, hexpand⟩ := hreads.finish
  refine ⟨st.finish, by rw [runlengthCompress, hloop]; rfl, ?_⟩
  rw [hwrite, uncompress_write hvalid, hexpand, List.map_map]
  simp only [Function.comp_def, received_wireValue]

/-- What has been compressed is decompressed. -/
theorem uncompress_of_compress {rows cols : ℕ} {m : Fin rows → Fin cols → NanReal}
    {array : List (JsonValue NanReal)} (h : runlengthCompress m compressVals = ok array) :
    uncompress .nan array = ok ((columnMajor m).map fun a => .double (restored a)) := by
  have hlen : rows * cols < 2 ^ 31 := by
    by_contra hlen
    rw [← length_columnMajor m, not_lt] at hlen
    rw [runlengthCompress, compressLoop_overflow hlen (Nat.two_pow_pos 31) le_rfl] at h
    cases h
  obtain ⟨array', hcompress, huncompress⟩ := compress_of_lt m hlen
  obtain rfl : array = array' := Outcome.ok.inj (h.symm.trans hcompress)
  exact huncompress

/-- The rows of the client are the columns of the server. -/
theorem reshape_columnMajor {α β : Type} (rows cols : ℕ) (image : ℕ → ℕ → α) (f : α → β) :
    reshape cols rows ((columnMajor fun (i : Fin rows) (j : Fin cols) => image i j).map f)
      = some ((List.range cols).map fun j => (List.range rows).map fun i => f (image i j)) := by
  have hcolumn (j : ℕ) : ((List.finRange rows).map fun i : Fin rows => f (image i j))
      = (List.range rows).map fun i => f (image i j) := by
    rw [← List.map_coe_finRange_eq_range, List.map_map]
    rfl
  have hflatten : (columnMajor fun (i : Fin rows) (j : Fin cols) => image i j).map f
      = ((List.range cols).map fun j => (List.range rows).map fun i => f (image i j)).flatten := by
    have hcolumns : (List.range cols).map (fun j => (List.range rows).map fun i => f (image i j))
        = (List.finRange cols).map fun j : Fin cols =>
          (List.range rows).map fun i => f (image i j) := by
      rw [← List.map_coe_finRange_eq_range (n := cols), List.map_map]
      rfl
    rw [columnMajor, List.map_flatMap, hcolumns, List.flatMap_def]
    congr 1
    refine List.map_congr_left fun j _ => ?_
    rw [List.map_map]
    exact hcolumn j
  have hlength : ∀ column ∈ (List.range cols).map fun j =>
      (List.range rows).map fun i => f (image i j), column.length = rows := by simp
  have hreshape := reshape_flatten rows hlength
  rwa [List.length_map, List.length_range, ← hflatten] at hreshape

theorem getD_of_forall₂ {α β : Type} {P : α → β → Prop} {as : List α} {bs : List β}
    (h : List.Forall₂ P as bs) {i : ℕ} {a : α} (hi : as[i]? = some a) (d : β) :
    P a (bs.getD i d) := by
  obtain ⟨hlen, hget⟩ := List.forall₂_iff_get.mp h
  obtain ⟨hlt, rfl⟩ := List.getElem?_eq_some_iff.mp hi
  rw [List.getD_eq_getElem?_getD, List.getElem?_eq_getElem (hlen ▸ hlt)]
  exact hget i hlt (hlen ▸ hlt)

theorem getElem?_gridOf [Double R] {dim i : ℕ} (origin res : R) (hi : i < dim) :
    (gridOf dim origin res)[i]? = some (origin + lit i * res) := by
  rw [gridOf, List.getElem?_map, List.getElem?_range hi]
  rfl

/-- **The picture shows the cost function.**  The client plots, for the grid that the response
describes, the cost that a new interpreter finds inside of the PQ profile, and not a number
outside. -/
theorem renderCostFunction_plotted [ToIndex NanReal] {lp : LpSolver NanReal} {fuel : ℕ}
    {request : RenderRequest NanReal} {adv : Advertisement NanReal} {cf : CostImage NanReal}
    (h : (renderCostFunction .nan lp fuel request adv AdvFunc.blank).1 = ok (some cf)) :
    ∃ (fresh : AdvFunc NanReal) (image : ℕ → ℕ → NanReal), AdvFunc.new adv = (ok (), fresh) ∧
      (∀ i < cf.dimP, ∀ j < cf.dimQ,
        Shows .nan fuel (adv.costFunction.getD .default) (adv.pQProfile.getD .default) fresh
          (cf.originP + lit i * cf.resP) (cf.originQ + lit j * cf.resQ) (image i j)) ∧
      plotted .nan cf = ok (some ((List.range cf.dimQ).map fun j =>
        (List.range cf.dimP).map fun i => .double (restored (image i j)))) := by
  obtain ⟨⟨⟩, fresh, hset, h⟩ := Run.of_bind_ok h
  obtain ⟨bb, af₁, hhull, h⟩ := Run.of_bind_ok h
  obtain ⟨points, af₂, heval, h⟩ := Run.of_bind_ok h
  rcases points with - | ⟨p, q⟩
  · simp at h
  obtain ⟨rasterized, af₃, hrasterized, h⟩ := Run.of_bind_ok h
  obtain ⟨data, af₄, hdata, h⟩ := Run.of_bind_ok h
  obtain ⟨cf', af₅, hdescribe, h⟩ := Run.of_bind_ok h
  obtain rfl : cf = cf' := by simpa using h.symm
  rw [Run.lift_apply] at heval hdata hdescribe
  obtain ⟨hpoints, rfl⟩ := Prod.mk.inj heval
  obtain ⟨hp, hq⟩ := evalPoints_spaced hpoints
  obtain ⟨rfl, ⟨hdimP, hgridP⟩, hdimQ, hgridQ⟩ :=
    describe_gridOf (congrArg Prod.fst hdescribe) hp hq
  -- the interpreter has been asked for the hull
  have hvalid := (AdvFunc.of_new hset).1
  have hfresh : AdvFunc.LooksLike fresh fresh := ⟨hvalid, rfl, fun _ => rfl⟩
  have hlooks := hfresh.run fuel
    (.rectangularHull lp (adv.pQProfile.getD .default) fun _ => none)
  rw [show (Query.rectangularHull lp (adv.pQProfile.getD .default) fun _ => none).run fuel fresh
    = _ from hhull] at hlooks
  have hshows := evalFunOnPQDomain_shows hvalid hlooks hrasterized
  refine ⟨fresh, fun i j => (rasterized.getD i []).getD j .nan, hset, fun i hi j hj => ?_, ?_⟩
  · have hpi : p[i]? = some (cf.originP + lit i * cf.resP) := by
      rw [hgridP, getElem?_gridOf _ _ hi]
    have hqj : q[j]? = some (cf.originQ + lit j * cf.resQ) := by
      rw [hgridQ, getElem?_gridOf _ _ hj]
    exact getD_of_forall₂ (getD_of_forall₂ hshows hpi []) hqj .nan
  · rw [plotted, uncompress_of_compress (congrArg Prod.fst hdata), ok_bind, hdimP, hdimQ]
    exact congrArg ok (reshape_columnMajor p.length q.length
      (fun i j => (rasterized.getD i []).getD j .nan) fun a => JsonValue.double (restored a))

/-! ### The picture of a disc -/

/-- What is not a number cannot be converted; this is what common processors give. -/
noncomputable instance : ToIndex NanReal where
  toIndex
    | .fin x => toIndex x
    | .nan => -2 ^ 63

/-- A device with any power of at most 2, at the cost of its active power. -/
noncomputable def discAdv : Advertisement NanReal where
  pQProfile := some (.ball none [.real none (.fin 0), .real none (.fin 0)] (.real none (.fin 2)))
  beliefFunction := none
  costFunction := some (.var none "P")
  implementedSetpoint := []

theorem testMembership_disc (p q : ℝ) {af : AdvFunc NanReal} (haf : af.advValid = true) :
    ∃ af', AdvFunc.testMembership 2 (discAdv.pQProfile.getD .default) [.fin p, .fin q]
      (fun _ => none) af = (ok (decide (p * p + q * q ≤ 4)), af') ∧ af'.advValid = true := by
  rw [AdvFunc.testMembership, AdvFunc.query, if_pos haf]
  have hle : le (squaredNorm (vecSub [NanReal.fin 0, .fin 0] [.fin p, .fin q]))
      (NanReal.fin 2 * .fin 2) = decide (p * p + q * q ≤ 4) := by
    have hsquared : squaredNorm (vecSub [NanReal.fin 0, .fin 0] [.fin p, .fin q])
        = .fin (p * p + q * q) := by
      simp [squaredNorm, dot, vecSub]
    rw [hsquared, NanReal.fin_mul, show (2 * 2 : ℝ) = 4 by norm_num]
    rfl
  rw [← hle]
  exact ⟨_, rfl, haf⟩

theorem evaluate_disc (p q : NanReal) {af : AdvFunc NanReal} (haf : af.advValid = true) :
    ∃ af', AdvFunc.evaluate 2 (discAdv.costFunction.getD .default) (bindPQ p q) af = (ok p, af') ∧
      af'.advValid = true := by
  rw [AdvFunc.evaluate, AdvFunc.query, if_pos haf]
  exact ⟨_, rfl, haf⟩

/-- Whether the point is in the profile or not, there is a value. -/
theorem evalAt_disc (p q : NanReal) {af : AdvFunc NanReal} (haf : af.advValid = true) :
    ∃ v af', evalAt .nan 2 (discAdv.costFunction.getD .default) (discAdv.pQProfile.getD .default)
      p q af = (ok v, af') ∧ af'.advValid = true := by
  obtain ⟨b, af₁, hmember, haf₁⟩ : ∃ b af₁, AdvFunc.testMembership 2
      (discAdv.pQProfile.getD .default) [p, q] (fun _ => none) af = (ok b, af₁) ∧
        af₁.advValid = true := by
    rw [AdvFunc.testMembership, AdvFunc.query, if_pos haf]
    exact ⟨_, _, rfl, haf⟩
  rw [evalAt, Run.bind_ok hmember]
  cases b with
  | false => exact ⟨_, _, rfl, haf₁⟩
  | true => exact ⟨p, evaluate_disc p q haf₁⟩

/-- Inside of the disc the active power, and outside of it no number. -/
theorem eq_finIf_of_shows {p q : ℝ} {fresh : AdvFunc NanReal} (hfresh : fresh.advValid = true)
    {v : NanReal} (h : Shows .nan 2 (discAdv.costFunction.getD .default)
      (discAdv.pQProfile.getD .default) fresh (.fin p) (.fin q) v) :
    v = .finIf (p * p + q * q ≤ 4) p := by
  obtain ⟨af, hmember, -⟩ := testMembership_disc p q hfresh
  obtain ⟨af', hvalue, -⟩ := evaluate_disc (.fin p) (.fin q) hfresh
  cases h with
  | inside hin hv =>
    rw [hmember] at hin
    rw [hvalue] at hv
    rw [NanReal.finIf_pos (of_decide_eq_true (Outcome.ok.inj hin))]
    exact (Outcome.ok.inj hv).symm
  | outside hout =>
    rw [hmember] at hout
    rw [NanReal.finIf_neg (of_decide_eq_false (Outcome.ok.inj hout))]

theorem rectangularHull_disc {af : AdvFunc NanReal} (haf : af.advValid = true) :
    ∃ af', AdvFunc.rectangularHull (fun _ _ => .outOfFuel) 2 (discAdv.pQProfile.getD .default)
      (fun _ => none) af = (ok ⟨[.fin (-2), .fin (-2)], [.fin 2, .fin 2]⟩, af') ∧
        af'.advValid = true := by
  have hbox : (⟨[.fin (-2), .fin (-2)], [.fin 2, .fin 2]⟩ : AlignedBox NanReal)
      = ⟨[.fin 0 - .fin 2, .fin 0 - .fin 2], [.fin 0 + .fin 2, .fin 0 + .fin 2]⟩ := by
    simp
  rw [AdvFunc.rectangularHull, AdvFunc.query, if_pos haf, hbox]
  exact ⟨_, rfl, haf⟩

/-- The points of an axis. -/
theorem discAxis (k : ℕ) : (NanReal.fin (-2) + lit k * .fin 2 : NanReal) = .fin (-2 + k * 2) :=
  congrArg (fun x => NanReal.fin (-2 + x * 2)) (Rat.cast_natCast k)

/-- Three points on each axis. -/
theorem evalPoints_three : evalPoints ⟨none, none, some 3, some 3⟩
    ⟨[.fin (-2), .fin (-2)], [.fin 2, .fin 2]⟩
      = ok (some ([NanReal.fin (-2), .fin 0, .fin 2], [NanReal.fin (-2), .fin 0, .fin 2])) := by
  have hpoints : setLinSpaced 3 (NanReal.fin (-2)) (.fin 2)
      = ok [NanReal.fin (-2), .fin 0, .fin 2] := by
    rw [setLinSpaced, assert, if_pos (by decide), if_neg (by decide)]
    have hstep : ((NanReal.fin 2 - .fin (-2)) / lit ((3 : ℤ) - 1) : NanReal) = .fin 2 := by
      show NanReal.finIf ((((3 : ℤ) - 1 : ℚ) : ℝ) ≠ 0) ((2 - -2) / (((3 : ℤ) - 1 : ℚ) : ℝ)) = _
      norm_num [NanReal.finIf]
    simp only [hstep, pure_eq, ok_bind]
    show ok ((List.range 3).map fun i : ℕ => NanReal.fin (-2) + lit i * .fin 2) = _
    simp only [discAxis]
    norm_num [List.range_succ]
  show (do
    let p ← setLinSpaced 3 (NanReal.fin (-2)) (.fin 2)
    let q ← setLinSpaced 3 (NanReal.fin (-2)) (.fin 2)
    pure (some (p, q))) = _
  rw [hpoints]
  rfl

theorem describe_three (data : List (JsonValue NanReal)) :
    describe data [.fin (-2), .fin 0, .fin 2] [.fin (-2), .fin 0, .fin 2]
      = ok ⟨data, .fin (-2), .fin (-2), 3, 3, .fin 2, .fin 2⟩ := by
  simp [describe, coefficient]

theorem restored_nan : restored NanReal.nan = .nan := by
  simp [restored]

theorem restored_fin {x : ℝ} (hx : x ≠ -1) : restored (NanReal.fin x) = .fin x := by
  simp [restored, hx]

/-- A picture, from its parts. -/
theorem renderCostFunction_eq [Double R] [ToIndex R] {nan : R} {lp : LpSolver R} {fuel : ℕ}
    {request : RenderRequest R} {adv : Advertisement R} {af fresh af₁ af₂ : AdvFunc R}
    {bb : AlignedBox R} {p q : List R} {rasterized : List (List R)} {data : List (JsonValue R)}
    {cf : CostImage R} (hset : AdvFunc.setAdv adv af = (ok (), fresh))
    (hhull : AdvFunc.rectangularHull lp fuel (adv.pQProfile.getD .default) (fun _ => none) fresh
      = (ok bb, af₁))
    (hpoints : evalPoints request bb = ok (some (p, q)))
    (hrasterized : evalFunOnPQDomain nan fuel (adv.costFunction.getD .default)
      (adv.pQProfile.getD .default) p q af₁ = (ok rasterized, af₂))
    (hdata : runlengthCompress (fun (i : Fin p.length) (j : Fin q.length) =>
      (rasterized.getD i []).getD j nan) compressVals = ok data)
    (hdescribe : describe data p q = ok cf) :
    renderCostFunction nan lp fuel request adv af = (ok (some cf), af₂) := by
  rw [renderCostFunction, Run.bind_ok hset, Run.bind_ok hhull, hpoints]
  show ((evalFunOnPQDomain nan fuel _ _ p q >>= _) : Run (AdvFunc R) Err _) af₁ = _
  rw [Run.bind_ok hrasterized, hdata]
  show (((describe data p q).lift >>= _) : Run (AdvFunc R) Err _) af₂ = _
  rw [hdescribe]
  rfl

theorem renderCostFunction_disc : ∃ data, (renderCostFunction .nan (fun _ _ => .outOfFuel) 2
    ⟨none, none, some 3, some 3⟩ discAdv AdvFunc.blank).1
      = ok (some ⟨data, .fin (-2), .fin (-2), 3, 3, .fin 2, .fin 2⟩) := by
  have hcollectable : discAdv.Collectable :=
    ⟨Nat.le_of_ble_eq_true rfl, Nat.zero_le _, Nat.succ_le_succ (Nat.zero_le _)⟩
  obtain ⟨fresh, hset, hfresh⟩ : ∃ fresh, AdvFunc.setAdv discAdv AdvFunc.blank = (ok (), fresh) ∧
      fresh.advValid = true := ⟨_, AdvFunc.setAdv_of_collectable hcollectable _, rfl⟩
  obtain ⟨af₁, hhull, haf₁⟩ := rectangularHull_disc hfresh
  obtain ⟨rasterized, af₂, hrasterized, -⟩ := Run.exists_mapM
    (fun p s hs => Run.exists_mapM (fun q s hs => evalAt_disc p q hs)
      [.fin (-2), .fin 0, .fin 2] hs) [.fin (-2), .fin 0, .fin 2] haf₁
  obtain ⟨data, hdata, -⟩ := compress_of_lt (fun (i : Fin 3) (j : Fin 3) =>
    (rasterized.getD i []).getD j .nan) (by norm_num)
  exact ⟨data, congrArg Prod.fst
    (renderCostFunction_eq hset hhull evalPoints_three hrasterized hdata (describe_three data))⟩

theorem renderCostFunction_plotted_disc : ∃ data,
    (renderCostFunction .nan (fun _ _ => .outOfFuel) 2 ⟨none, none, some 3, some 3⟩ discAdv
        AdvFunc.blank).1 = ok (some ⟨data, .fin (-2), .fin (-2), 3, 3, .fin 2, .fin 2⟩) ∧
      plotted .nan ⟨data, .fin (-2), .fin (-2), 3, 3, .fin 2, .fin 2⟩ = ok (some
        [[.double .nan, .double (.fin 0), .double .nan],
          [.double (.fin (-2)), .double (.fin 0), .double (.fin 2)],
          [.double .nan, .double (.fin 0), .double .nan]]) := by
  obtain ⟨data, hcf⟩ := renderCostFunction_disc
  obtain ⟨fresh, image, hfresh, hshows, hplotted⟩ := renderCostFunction_plotted hcf
  have himage (i j : ℕ) (hi : i < 3) (hj : j < 3) : image i j = .finIf
      ((-2 + i * 2 : ℝ) * (-2 + i * 2) + (-2 + j * 2) * (-2 + j * 2) ≤ 4) (-2 + i * 2) := by
    have hpoint := hshows i hi j hj
    rw [discAxis, discAxis] at hpoint
    exact eq_finIf_of_shows (AdvFunc.of_new hfresh).1 hpoint
  have hrow : (List.range 3).map (fun j => (List.range 3).map fun i =>
        JsonValue.double (restored (image i j)))
      = [[.double .nan, .double (.fin 0), .double .nan],
          [.double (.fin (-2)), .double (.fin 0), .double (.fin 2)],
          [.double .nan, .double (.fin 0), .double .nan]] := by
    norm_num [List.range_succ, himage, NanReal.finIf, restored_nan, restored_fin]
  exact ⟨data, hcf, hplotted.trans (congrArg (ok ∘ some) hrow)⟩

end Commelec
