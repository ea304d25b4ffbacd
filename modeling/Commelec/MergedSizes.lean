/-
Commelec/MergedSizes.lean

The sizes that the bounding box of an intersection merges.

`rectHull(List<SetExpr>)` puts the constraints of all polytopes into one matrix, and intersects
the boxes of the other members.  Whether an operation on these fits depends on the sizes alone:
the rows, columns and bounds of the polytopes, and the dimensions of the boxes, which are known
beforehand (`SetExpr.hullDim`).  `Sizes` follows the loop.

The box of an intersection goes outside exactly where the sizes of its members do not fit
(`hullIntersection_outside`).
-/
import Commelec.Misfits

namespace Commelec

open Effectful Outcome

variable {R : Type}

/-! ### Sizes -/

def SetExpr.isPolytope : SetExpr R → Bool
  | .convexPolytope .. => true
  | _ => false

mutual

/-- The dimension of the bounding box. -/
def SetExpr.hullDim : SetExpr R → ℕ
  | .singleton _ as => as.length
  | .ball _ center _ => center.length
  | .rectangle _ rect => rect.length
  | .convexPolytope .. => 2
  | .intersection _ ss => hullDims ss
  | .caseDistinction .. | .reference .. | .unknown .. => 0

/-- The dimension of the bounding box of an intersection. -/
def hullDims : List (SetExpr R) → ℕ
  | [] => 0
  | s :: ss => if (s :: ss).any SetExpr.isPolytope then 2 else s.hullDim

end

/-- The sizes of what was merged: of `Merged_A` the rows and columns, of `Merged_b` the number
of bounds, and the dimension of `tempResult`. -/
structure Sizes where
  poly : Option (ℕ × ℕ × ℕ)
  box : Option ℕ

namespace Sizes

/-- The sizes after one more member, if they fit.  A second polytope fits if it is empty. -/
def add (z : Sizes) : SetExpr R → Option Sizes
  | .convexPolytope _ a b =>
    match z.poly with
    | none => some { z with poly := some (a.length, (a.headD []).length, b.length) }
    | some (rows, cols, bounds) =>
      if cols ≠ 0 ∧ (a.headD []).length = 0 ∧ b.length = 0 then
        some { z with poly := some (rows + a.length, cols, bounds) }
      else
        none
  | s =>
    match z.box with
    | none => some { z with box := some s.hullDim }
    | some dim => if dim = s.hullDim then some z else none

theorem add_box {s : SetExpr R} (hs : s.isPolytope = false) (z : Sizes) :
    z.add s = match z.box with
      | none => some { z with box := some s.hullDim }
      | some dim => if dim = s.hullDim then some { z with box := some dim } else none := by
  rcases z with ⟨poly, box⟩
  cases box with
  | none => cases s <;> first | rfl | exact absurd hs (by simp [SetExpr.isPolytope])
  | some dim => cases s <;> first | rfl | exact absurd hs (by simp [SetExpr.isPolytope])

theorem of_add {z z' : Sizes} {s : SetExpr R} (h : z.add s = some z') :
    z'.poly.isSome = (z.poly.isSome || s.isPolytope) ∧
      (s.isPolytope = false → z'.box = z.box.orElse fun _ => some s.hullDim) := by
  cases hs : s.isPolytope with
  | true =>
    cases s with
    | convexPolytope n a b =>
      rcases z with ⟨- | ⟨rows, cols, bounds⟩, box⟩
      · obtain rfl := Option.some.inj h
        exact ⟨rfl, by simp⟩
      · obtain ⟨-, h⟩ := Option.ite_none_right_eq_some.mp h
        obtain rfl := Option.some.inj h
        exact ⟨rfl, by simp⟩
    | _ => exact absurd hs (by simp [SetExpr.isPolytope])
  | false =>
    rw [add_box hs] at h
    rcases z with ⟨poly, - | dim⟩
    · obtain rfl := Option.some.inj h
      exact ⟨(Bool.or_false _).symm, fun _ => rfl⟩
    · obtain ⟨-, h⟩ := Option.ite_none_right_eq_some.mp h
      obtain rfl := Option.some.inj h
      exact ⟨(Bool.or_false _).symm, fun _ => rfl⟩

/-- After the loop, there are constraints if there was a polytope, and otherwise a box of the
dimension of the first member. -/
theorem of_foldlM_add {ss : List (SetExpr R)} {z z' : Sizes}
    (h : ss.foldlM Sizes.add z = some z') :
    (z'.poly.isSome = (z.poly.isSome || ss.any SetExpr.isPolytope)) ∧
      (ss.any SetExpr.isPolytope = false →
        z'.box = z.box.orElse fun _ => ss.head?.map SetExpr.hullDim) := by
  induction ss generalizing z with
  | nil =>
    obtain rfl := Option.some.inj h
    rcases z with ⟨poly, - | dim⟩
    · exact ⟨by simp, fun _ => rfl⟩
    · exact ⟨by simp, fun _ => rfl⟩
  | cons s ss ih =>
    obtain ⟨z₁, hz₁, h⟩ := Option.bind_eq_some_iff.mp h
    obtain ⟨hpoly, hbox⟩ := ih h
    obtain ⟨hpoly₁, hbox₁⟩ := of_add hz₁
    rw [hpoly, hpoly₁, List.any_cons, Bool.or_assoc]
    refine ⟨rfl, fun hnone => ?_⟩
    obtain ⟨hs, hss⟩ := Bool.or_eq_false_iff.mp hnone
    rw [hbox hss, hbox₁ hs]
    rcases z.box with - | dim
    · rfl
    · rfl

/-- The constraints of a polytope and the box can be put together. -/
def Fit (z : Sizes) : Prop :=
  ∀ rows cols bounds, z.poly = some (rows, cols, bounds) →
    cols = 2 ∧ rows = bounds ∧ (z.box.getD 0 = 0 ∨ z.box.getD 0 = 2)

end Sizes

/-- The rows of the matrix have the length of its columns. -/
def Matrix.IsRect (M : Matrix R) : Prop := ∀ row ∈ M.rows, row.length = M.cols

variable [Double R]

/-- What was merged has the sizes `z`. -/
structure Merged.HasSizes (st : Merged R) (z : Sizes) : Prop where
  poly : st.poly.map (fun p => (p.1.rows.length, p.1.cols, p.2.length)) = z.poly
  rows : ∀ p, st.poly = some p → 0 < p.1.rows.length
  rect : ∀ p, st.poly = some p → p.1.IsRect
  box : st.tempResult.map (fun box => box.min.length) = z.box
  max : ∀ box, st.tempResult = some box → box.max.length = box.min.length

omit [Double R] in
theorem Merged.HasSizes.setPoly {st : Merged R} {z : Sizes} (h : st.HasSizes z) {M : Matrix R}
    {b : List R} {rows cols bounds : ℕ} (hrows : M.rows.length = rows) (hcols : M.cols = cols)
    (hbounds : b.length = bounds) (hpos : 0 < rows) (hrect : M.IsRect) :
    Merged.HasSizes { st with poly := some (M, b) }
      { z with poly := some (rows, cols, bounds) } where
  poly := by rw [Option.map_some, hrows, hcols, hbounds]
  rows := by
    rintro p ⟨⟩
    exact hrows ▸ hpos
  rect := by
    rintro p ⟨⟩
    exact hrect
  box := h.box
  max := h.max

omit [Double R] in
theorem Merged.HasSizes.setBox {st : Merged R} {z : Sizes} (h : st.HasSizes z)
    {box : AlignedBox R} {dim : ℕ} (hmin : box.min.length = dim) (hmax : box.max.length = dim) :
    Merged.HasSizes { st with tempResult := some box } { z with box := some dim } where
  poly := h.poly
  rows := h.rows
  rect := h.rect
  box := by rw [Option.map_some, hmin]
  max := by
    rintro _ ⟨⟩
    exact hmax.trans hmin.symm

omit [Double R] in
/-- The dimensions of the box after the loop. -/
theorem Merged.HasSizes.getD {st : Merged R} {z : Sizes} (h : st.HasSizes z) :
    (st.tempResult.getD .empty).min.length = z.box.getD 0 ∧
      (st.tempResult.getD .empty).max.length = (st.tempResult.getD .empty).min.length := by
  have hbox := h.box
  cases hst : st.tempResult with
  | none =>
    rw [hst] at hbox
    rw [← hbox]
    exact ⟨rfl, rfl⟩
  | some box =>
    rw [hst] at hbox
    rw [← hbox]
    exact ⟨rfl, h.max box hst⟩

/-! ### Blocks -/

omit [Double R] in
theorem Matrix.isRect_ofRows {A : List (List R)}
    (h : ∀ row ∈ A, row.length = (A.headD []).length) : (Matrix.ofRows A).IsRect := h

theorem Matrix.isRect_identity (sz : ℕ) : (Matrix.identity sz : Matrix R).IsRect := by
  intro row hrow
  obtain ⟨i, -, rfl⟩ := List.mem_map.mp hrow
  exact (List.length_map _).trans List.length_range

theorem Matrix.IsRect.neg {M : Matrix R} (h : M.IsRect) : M.neg.IsRect := by
  intro row hrow
  obtain ⟨row', hrow', rfl⟩ := List.mem_map.mp hrow
  exact (List.length_map _).trans (h row' hrow')

theorem Matrix.IsRect.resize {M : Matrix R} (h : M.IsRect) (rows : ℕ) :
    (M.resize rows).IsRect := by
  rw [Matrix.resize]
  split
  · exact h
  · intro row hrow
    obtain rfl := List.eq_of_mem_replicate hrow
    exact List.length_replicate

namespace EigenOp

/-- A second polytope is appended. -/
theorem comma_append_fits {M A : Matrix R} (hA : 0 < A.rows.length) :
    (comma (M.resize (M.rows.length + A.rows.length)).rows.length
      (M.resize (M.rows.length + A.rows.length)).cols
      [M.resize (M.rows.length + A.rows.length), A]).fits = true ↔ M.cols ≠ 0 ∧ A.cols = 0 := by
  have hne : M.rows.length + A.rows.length ≠ 0 := by omega
  have hnonEmpty : (M.resize (M.rows.length + A.rows.length)).nonEmpty = decide (M.cols ≠ 0) := by
    rw [Matrix.nonEmpty, Matrix.rows_resize, Matrix.cols_resize, decide_eq_true hne, Bool.true_and]
  have hnonEmptyA : A.nonEmpty = decide (A.cols ≠ 0) := by
    rw [Matrix.nonEmpty, decide_eq_true hA.ne', Bool.true_and]
  by_cases hM : M.cols = 0
  · by_cases hcols : A.cols = 0
    · simp [fits, List.filter, hnonEmpty, hnonEmptyA, hM, hcols, Matrix.rows_resize]
      omega
    · simp [fits, List.filter, hnonEmpty, hnonEmptyA, hM, hcols, Matrix.cols_resize]
  · by_cases hcols : A.cols = 0
    · simp [fits, List.filter, hnonEmpty, hnonEmptyA, hM, hcols, Matrix.rows_resize]
    · -- the matrix is appended to itself, and has no room for more rows
      simp [fits, List.filter, hnonEmpty, hnonEmptyA, hM, hcols, Matrix.rows_resize,
        List.length_pos_iff.mp hA]

/-- The constraints of a box are appended. -/
theorem comma_box_fits {M : Matrix R} (hM : 0 < M.rows.length) (dim : ℕ) :
    (comma (M.rows.length + 2 * dim) M.cols
      [M, Matrix.identity dim, (Matrix.identity dim).neg]).fits = true ↔
      M.cols ≠ 0 ∧ (dim = 0 ∨ dim = M.cols) := by
  have hnonEmpty : M.nonEmpty = decide (M.cols ≠ 0) := by
    rw [Matrix.nonEmpty, decide_eq_true hM.ne', Bool.true_and]
  have hrows : (Matrix.identity dim : Matrix R).rows.length = dim := by simp [Matrix.identity]
  have hrowsNeg : (Matrix.identity dim : Matrix R).neg.rows.length = dim := by
    simp [Matrix.identity, Matrix.neg]
  have hcolsEye : (Matrix.identity dim : Matrix R).cols = dim := rfl
  have hcolsNeg : (Matrix.identity dim : Matrix R).neg.cols = dim := rfl
  have heye : (Matrix.identity dim : Matrix R).nonEmpty = decide (dim ≠ 0) := by
    rw [Matrix.nonEmpty, hrows, hcolsEye, Bool.and_self]
  have hneg : (Matrix.identity dim : Matrix R).neg.nonEmpty = decide (dim ≠ 0) := by
    rw [Matrix.nonEmpty, hrowsNeg, hcolsNeg, Bool.and_self]
  by_cases hcols : M.cols = 0
  · obtain rfl | hdim := Nat.eq_zero_or_pos dim
    · simp [fits, List.filter, hnonEmpty, heye, hneg, hcols]
      omega
    · simp [fits, List.filter, hnonEmpty, heye, hneg, hcols, hdim.ne', hcolsEye]
  · obtain rfl | hdim := Nat.eq_zero_or_pos dim
    · simp [fits, List.filter, hnonEmpty, heye, hneg, hcols]
    · simp [fits, List.filter, hnonEmpty, heye, hneg, hcols, hdim.ne', hcolsEye, hcolsNeg, hrows,
        hrowsNeg]
      omega

theorem commaVec_append_fits (b bs : List R) :
    (commaVec (resizeVec b (b.length + bs.length)).length
      [resizeVec b (b.length + bs.length), bs]).fits = true ↔ bs.length = 0 := by
  simp only [fits, List.map_cons, List.map_nil, List.sum_cons, List.sum_nil, length_resizeVec]
  rw [decide_eq_true_iff]
  omega

/-- The bounds of a box are appended. -/
theorem commaVec_box_fits (b : List R) {box : AlignedBox R}
    (hmax : box.max.length = box.min.length) :
    (commaVec (b.length + 2 * box.min.length) [b, box.max, box.min.map (-·)]).fits = true := by
  refine decide_eq_true ?_
  simp only [List.map_cons, List.map_nil, List.sum_cons, List.sum_nil, List.length_map, hmax]
  omega

/-- Blocks that fit fill the matrix. -/
theorem comma_value_rows {rows cols : ℕ} {blocks : List (Matrix R)}
    (h : (comma rows cols blocks).fits = true) :
    (comma rows cols blocks).value.rows.length = rows := by
  have hsum : ((blocks.filter Matrix.nonEmpty).map fun B => B.rows.length).sum = rows :=
    of_decide_eq_true (Bool.and_eq_true_iff.mp h).2
  show ((blocks.filter Matrix.nonEmpty).map Matrix.rows).flatten.length = rows
  rw [List.length_flatten, List.map_map]
  exact hsum

/-- The blocks have the columns of the matrix that they fill. -/
theorem isRect_comma_value {rows cols : ℕ} {blocks : List (Matrix R)}
    (h : (comma rows cols blocks).fits = true) (hrect : ∀ B ∈ blocks, B.IsRect) :
    (comma rows cols blocks).value.IsRect := by
  have hcols := List.all_eq_true.mp (Bool.and_eq_true_iff.mp h).1
  intro row hrow
  obtain ⟨rows', hrows', hrow⟩ := List.mem_flatten.mp hrow
  obtain ⟨B, hB, rfl⟩ := List.mem_map.mp hrows'
  exact (hrect B (List.mem_of_mem_filter hB) row hrow).trans (of_decide_eq_true (hcols B hB))

theorem commaVec_value_length {size : ℕ} {blocks : List (List R)}
    (h : (commaVec size blocks).fits = true) : (commaVec size blocks).value.length = size := by
  show blocks.flatten.length = size
  rw [List.length_flatten]
  exact of_decide_eq_true h

end EigenOp

/-! ### Members -/

namespace Release

/-- The member has what the loop needs of it: a matrix and bounds, or a box. -/
def Valued (val : RealExpr R → R → Prop) (box : SetExpr R → AlignedBox R → Prop) :
    SetExpr R → Prop
  | .convexPolytope _ a b => HasValues val a ∧ ∀ e ∈ b, HasValue val e
  | s => ∃ hull, box s hull

/-- Where the sizes fit, they are those of the result, and otherwise it goes outside. -/
def Leads (x : Outcome Err (Merged R)) : Option Sizes → Prop
  | some z => ∃ st, x = ok st ∧ st.HasSizes z
  | none => x = .throw outside

omit [Double R] in
theorem Leads.bind_outside {x : Outcome Err (Merged R)} {o : Option Sizes} (h : Leads x o)
    {α : Type} {f : Merged R → Outcome Err α} {q : Sizes → Prop}
    (hf : ∀ st z, st.HasSizes z → (f st = .throw outside ↔ q z)) :
    (x >>= f) = .throw outside ↔ ∀ z, o = some z → q z := by
  cases o with
  | none =>
    obtain rfl : x = .throw outside := h
    exact iff_of_true rfl (by simp)
  | some z =>
    obtain ⟨st, rfl, hst⟩ := h
    rw [ok_bind, hf st z hst]
    simp

omit [Double R] in
theorem Leads.of_eq_ok {x : Outcome Err (Merged R)} {o : Option Sizes} (h : Leads x o)
    {st : Merged R} (hx : x = ok st) : ∃ z, o = some z ∧ st.HasSizes z := by
  cases o with
  | none => exact absurd (hx.symm.trans h) (by simp)
  | some z =>
    obtain ⟨st', hst', hsizes⟩ := h
    obtain rfl := Outcome.ok.inj (hx.symm.trans hst')
    exact ⟨z, rfl, hsizes⟩

/-- What is done with an evaluated polytope. -/
def mergePolytope (st : Merged R) (A : Matrix R) (bs : List R) : Outcome Err (Merged R) :=
  match st.poly with
  | none => pure { st with poly := some (A, bs) }
  | some (mergedA, mergedB) => do
    let mergedA := mergedA.resize (mergedA.rows.length + A.rows.length)
    let mergedA ← (EigenOp.comma mergedA.rows.length mergedA.cols [mergedA, A]).perform .worst
    let mergedB := resizeVec mergedB (mergedB.length + bs.length)
    let mergedB ← (EigenOp.commaVec mergedB.length [mergedB, bs]).perform .worst
    pure { st with poly := some (mergedA, mergedB) }

/-- What is done with a box. -/
def mergeBox (st : Merged R) (hull : AlignedBox R) : Outcome Err (Merged R) :=
  match st.tempResult with
  | none => pure { st with tempResult := some hull }
  | some tempResult => do
    let tempResult ← (EigenOp.intersection tempResult hull).perform .worst
    pure { st with tempResult := some tempResult }

section Merge

variable {st : Merged R} {z : Sizes} (h : st.HasSizes z)

include h

theorem leads_mergePolytope (n : Option String) {a : List (List (RealExpr R))}
    {b : List (RealExpr R)} {A : Matrix R} {bs : List R} (hpos : 0 < a.length)
    (hrows : A.rows.length = a.length) (hcols : A.cols = (a.headD []).length)
    (hrect : A.IsRect) (hbs : bs.length = b.length) :
    Leads (mergePolytope st A bs) (z.add (.convexPolytope n a b)) := by
  have hpoly := h.poly
  cases hst : st.poly with
  | none =>
    rw [hst] at hpoly
    rw [mergePolytope, hst, Sizes.add, ← hpoly]
    exact ⟨_, rfl, h.setPoly hrows hcols hbs hpos hrect⟩
  | some p =>
    obtain ⟨M, mb⟩ := p
    rw [hst] at hpoly
    rw [mergePolytope, hst, Sizes.add, ← hpoly, ← hcols, ← hbs, ← hrows]
    dsimp only [Option.map_some]
    have hA : 0 < A.rows.length := hrows ▸ hpos
    have hcomma := EigenOp.comma_append_fits (M := M) hA
    have hcommaVec := EigenOp.commaVec_append_fits mb bs
    by_cases hfits : M.cols ≠ 0 ∧ A.cols = 0
    · rw [perform_worst_of_fits (hcomma.mpr hfits), ok_bind]
      by_cases hlen : bs.length = 0
      · rw [if_pos ⟨hfits.1, hfits.2, hlen⟩, perform_worst_of_fits (hcommaVec.mpr hlen)]
        refine ⟨_, rfl, h.setPoly ?_ ?_ ?_ ?_ ?_⟩
        · rw [EigenOp.comma_value_rows (hcomma.mpr hfits), Matrix.rows_resize]
        · exact Matrix.cols_resize M _
        · rw [EigenOp.commaVec_value_length (hcommaVec.mpr hlen), length_resizeVec, hlen]
          rfl
        · exact Nat.add_pos_right _ hA
        · refine EigenOp.isRect_comma_value (hcomma.mpr hfits) ?_
          simpa using ⟨(h.rect _ hst).resize _, hrect⟩
      · rw [if_neg fun h => hlen h.2.2,
          perform_worst_eq_throw.mpr (Bool.eq_false_iff.mpr (mt hcommaVec.mp hlen))]
        rfl
    · rw [if_neg fun h => hfits ⟨h.1, h.2.1⟩,
        perform_worst_eq_throw.mpr (Bool.eq_false_iff.mpr (mt hcomma.mp hfits))]
      rfl

theorem leads_mergeBox {s : SetExpr R} (hs : s.isPolytope = false) {box : AlignedBox R}
    (hmin : box.min.length = s.hullDim) (hmax : box.max.length = s.hullDim) :
    Leads (mergeBox st box) (z.add s) := by
  have hbox := h.box
  cases hst : st.tempResult with
  | none =>
    rw [hst] at hbox
    rw [mergeBox, hst, Sizes.add_box hs, ← hbox]
    exact ⟨_, rfl, h.setBox hmin hmax⟩
  | some temp =>
    rw [hst] at hbox
    rw [mergeBox, hst, Sizes.add_box hs, ← hbox]
    dsimp only [Option.map_some]
    have htemp : temp.max.length = temp.min.length := h.max temp hst
    by_cases hdim : temp.min.length = s.hullDim
    · have hfits : (EigenOp.intersection temp box).fits = true := decide_eq_true
        ⟨hdim.trans hmin.symm, (htemp.trans hdim).trans hmax.symm⟩
      rw [if_pos hdim, perform_worst_of_fits hfits]
      refine ⟨_, rfl, h.setBox ?_ ?_⟩
      · show (List.zipWith stdMax temp.min box.min).length = _
        rw [List.length_zipWith, hmin, hdim, min_self]
      · show (List.zipWith stdMin temp.max box.max).length = _
        rw [List.length_zipWith, hmax, htemp, hdim, min_self]
    · have hfits : (EigenOp.intersection temp box).fits = false := decide_eq_false
        fun hlen => hdim (hlen.1.trans hmin)
      rw [if_neg hdim, perform_worst_eq_throw.mpr hfits]
      rfl

end Merge

section Member

variable {ev : RealExpr R → Outcome Err R} {mem : SetExpr R → List R → Outcome Err Bool}
  {rh : SetExpr R → Outcome Err (AlignedBox R)}

/-- The boxes have the dimensions that are known beforehand. -/
def HullDims (rh : SetExpr R → Outcome Err (AlignedBox R)) (s : SetExpr R) : Prop :=
  ∀ box, rh s = ok box → box.min.length = s.hullDim ∧ box.max.length = s.hullDim

theorem mergeMember_polytope (st : Merged R) (n : Option String) (a : List (List (RealExpr R)))
    (b : List (RealExpr R)) :
    mergeMember .worst st (member ⟨ev, mem⟩ rh (.convexPolytope n a b))
      = evalToVector (b.map ev) >>= fun bs => evalToMatrix (a.map (List.map ev)) >>= fun A =>
        mergePolytope st (Matrix.ofRows A) bs := rfl

theorem mergeMember_box (st : Merged R) {s : SetExpr R} (hs : s.isPolytope = false) :
    mergeMember .worst st (member ⟨ev, mem⟩ rh s) = rh s >>= mergeBox st := by
  cases s <;> first | rfl | exact absurd hs (by simp [SetExpr.isPolytope])

/-- **One iteration.**  The sizes of the member are added, if it has what the loop needs. -/
theorem mergeMember_bind_outside (hev : ∀ e, Spares outside (ev e))
    (hrh : ∀ s, Spares outside (rh s)) {s : SetExpr R} (hdims : HullDims rh s) {st : Merged R}
    {z : Sizes} (h : st.HasSizes z) {α : Type} {f : Merged R → Outcome Err α}
    {q : Sizes → Prop} (hf : ∀ st z, st.HasSizes z → (f st = .throw outside ↔ q z)) :
    (mergeMember .worst st (member ⟨ev, mem⟩ rh s) >>= f) = .throw outside ↔
      Valued (Yields ev) (Yields rh) s ∧ ∀ z', z.add s = some z' → q z' := by
  cases hs : s.isPolytope with
  | true =>
    cases s with
    | convexPolytope n a b =>
      rw [mergeMember_polytope, Outcome.bind_assoc, Valued, and_comm (a := HasValues (Yields ev) a),
        and_assoc]
      refine vector_bind_outside hev fun bs hbs => ?_
      rw [Outcome.bind_assoc]
      refine matrix_bind_outside hev fun A hlen hpos hrows => ?_
      have hcols := cols_ofRows hlen hpos hrows
      exact (leads_mergePolytope h n hpos hlen hcols (Matrix.isRect_ofRows fun row hrow =>
        (hrows row hrow).trans hcols.symm) hbs).bind_outside hf
    | _ => exact absurd hs (by simp [SetExpr.isPolytope])
  | false =>
    have hvalued : Valued (Yields ev) (Yields rh) s ↔ ∃ box, rh s = ok box := by
      cases s <;> first | rfl | exact absurd hs (by simp [SetExpr.isPolytope])
    rw [mergeMember_box st hs, Outcome.bind_assoc, hvalued]
    refine (hrh s).bind_eq_throw_iff fun box hbox => ?_
    exact (leads_mergeBox h hs (hdims box hbox).1 (hdims box hbox).2).bind_outside hf

/-- A member that is merged had sizes that fit. -/
theorem mergeMember_sizes {s : SetExpr R} (hdims : HullDims rh s) {st st' : Merged R}
    {z : Sizes} (h : st.HasSizes z)
    (hok : mergeMember .worst st (member ⟨ev, mem⟩ rh s) = ok st') :
    ∃ z', z.add s = some z' ∧ st'.HasSizes z' := by
  cases hs : s.isPolytope with
  | true =>
    cases s with
    | convexPolytope n a b =>
      rw [mergeMember_polytope] at hok
      obtain ⟨bs, hbs, hok⟩ := bind_eq_ok.mp hok
      obtain ⟨A, hA, hok⟩ := bind_eq_ok.mp hok
      obtain ⟨hlen, hpos, hrows⟩ := shape_of_evalToMatrix hA
      have hcols := cols_ofRows hlen hpos hrows
      have hleads := leads_mergePolytope h n hpos hlen hcols (Matrix.isRect_ofRows fun row hrow =>
        (hrows row hrow).trans hcols.symm) (by simpa using collect_length hbs)
      exact hleads.of_eq_ok hok
    | _ => exact absurd hs (by simp [SetExpr.isPolytope])
  | false =>
    rw [mergeMember_box st hs] at hok
    obtain ⟨box, hbox, hok⟩ := bind_eq_ok.mp hok
    exact (leads_mergeBox h hs (hdims box hbox).1 (hdims box hbox).2).of_eq_ok hok

/-! ### The loop -/

/-- The loop comes to sizes that do not fit. -/
def MergeMisfit (val : RealExpr R → R → Prop) (box : SetExpr R → AlignedBox R → Prop) :
    Sizes → List (SetExpr R) → Prop
  | z, [] => ¬ z.Fit
  | z, s :: ss => Valued val box s ∧ ∀ z', z.add s = some z' → MergeMisfit val box z' ss

theorem mergeMembers_bind_outside (hev : ∀ e, Spares outside (ev e))
    (hrh : ∀ s, Spares outside (rh s)) (hdims : ∀ s, HullDims rh s) (ss : List (SetExpr R))
    {st : Merged R} {z : Sizes} (h : st.HasSizes z) {α : Type} {f : Merged R → Outcome Err α}
    (hf : ∀ st z, st.HasSizes z → (f st = .throw outside ↔ ¬ z.Fit)) :
    (mergeMembers .worst st (ss.map (member ⟨ev, mem⟩ rh)) >>= f) = .throw outside ↔
      MergeMisfit (Yields ev) (Yields rh) z ss := by
  induction ss generalizing st z with
  | nil => exact hf st z h
  | cons s ss ih =>
    rw [List.map_cons, mergeMembers, Outcome.bind_assoc]
    exact mergeMember_bind_outside hev hrh (hdims s) h fun st z hst => ih hst

theorem mergeMembers_sizes (hdims : ∀ s, HullDims rh s) {ss : List (SetExpr R)}
    {st st' : Merged R} {z : Sizes} (h : st.HasSizes z)
    (hok : mergeMembers .worst st (ss.map (member ⟨ev, mem⟩ rh)) = ok st') :
    ∃ z', ss.foldlM Sizes.add z = some z' ∧ st'.HasSizes z' := by
  induction ss generalizing st z with
  | nil =>
    obtain rfl := Outcome.ok.inj hok
    exact ⟨z, rfl, h⟩
  | cons s ss ih =>
    obtain ⟨st₁, hst₁, hok⟩ := bind_eq_ok.mp hok
    obtain ⟨z₁, hz₁, hsizes⟩ := mergeMember_sizes (hdims s) h hst₁
    obtain ⟨z', hz', hst'⟩ := ih hsizes hok
    refine ⟨z', ?_, hst'⟩
    rw [List.foldlM_cons, hz₁]
    exact hz'

end Member

/-! ### After the loop -/

theorem boundMerged_outside {lp : LpSolver R} (hlp : lp.Sound) {st : Merged R} {z : Sizes}
    (h : st.HasSizes z) :
    (boundMerged .worst lp st : Outcome Err (AlignedBox R)) = .throw outside ↔ ¬ z.Fit := by
  have hpoly := h.poly
  cases hst : st.poly with
  | none =>
    rw [hst] at hpoly
    rw [boundMerged, hst]
    refine iff_of_false (by simp) (not_not.mpr ?_)
    intro rows cols bounds hz
    exact absurd (hpoly.trans hz) (by simp)
  | some p =>
    obtain ⟨M, mb⟩ := p
    rw [hst] at hpoly
    have hFit : z.Fit ↔ M.cols = 2 ∧ M.rows.length = mb.length ∧
        (z.box.getD 0 = 0 ∨ z.box.getD 0 = 2) := by
      rw [Sizes.Fit, ← hpoly]
      simp
    obtain ⟨hmin, hmax⟩ := h.getD
    rw [hFit, ← hmin, boundMerged, hst]
    dsimp only
    generalize st.tempResult.getD .empty = box at hmax ⊢
    have hrows : 0 < M.rows.length := h.rows _ hst
    have hcomma := EigenOp.comma_box_fits hrows box.min.length
    by_cases hfits : M.cols ≠ 0 ∧ (box.min.length = 0 ∨ box.min.length = M.cols)
    · have hbounds := EigenOp.commaVec_box_fits mb hmax
      rw [perform_worst_of_fits (hcomma.mpr hfits), ok_bind, perform_worst_of_fits hbounds,
        ok_bind, computeAABB_outside hlp (by
          rw [EigenOp.comma_value_rows (hcomma.mpr hfits)]
          exact Nat.add_pos_left hrows _),
        EigenOp.comma_value_rows (hcomma.mpr hfits), EigenOp.commaVec_value_length hbounds]
      have hcols : (EigenOp.comma (M.rows.length + 2 * box.min.length) M.cols
          [M, Matrix.identity box.min.length, (Matrix.identity box.min.length).neg]).value.cols
          = M.cols := rfl
      rw [hcols]
      omega
    · rw [perform_worst_eq_throw.mpr (Bool.eq_false_iff.mpr (mt hcomma.mp hfits))]
      refine iff_of_true rfl ?_
      rintro ⟨hcols, -, hdim⟩
      apply hfits
      omega

/-! ### The dimension of a box -/

theorem length_computeAABB {lp : LpSolver R} {A : Matrix R} {b : List R} {box : AlignedBox R}
    (h : (computeAABBConvexPolytope .worst lp A b : Outcome Err (AlignedBox R)) = ok box) :
    box.min.length = 2 ∧ box.max.length = 2 := by
  obtain ⟨halves, -, h⟩ := bind_eq_ok.mp h
  obtain ⟨sol, -, h⟩ := bind_eq_ok.mp h
  obtain ⟨xmax, -, h⟩ := bind_eq_ok.mp h
  obtain ⟨sol2, -, h⟩ := bind_eq_ok.mp h
  obtain ⟨xmin, -, h⟩ := bind_eq_ok.mp h
  obtain ⟨sol3, -, h⟩ := bind_eq_ok.mp h
  obtain ⟨ymax, -, h⟩ := bind_eq_ok.mp h
  obtain ⟨sol4, -, h⟩ := bind_eq_ok.mp h
  obtain ⟨ymin, -, h⟩ := bind_eq_ok.mp h
  obtain rfl := Outcome.ok.inj h
  exact ⟨rfl, rfl⟩

theorem hullDims_hullIntersection {lp : LpSolver R} {ev : RealExpr R → Outcome Err R}
    {mem : SetExpr R → List R → Outcome Err Bool} {rh : SetExpr R → Outcome Err (AlignedBox R)}
    (hdims : ∀ s, HullDims rh s) {ss : List (SetExpr R)} {box : AlignedBox R}
    (h : hullIntersection .worst lp (ss.map (member ⟨ev, mem⟩ rh)) = ok box) :
    box.min.length = hullDims ss ∧ box.max.length = hullDims ss := by
  obtain ⟨st, hst, hbound⟩ := bind_eq_ok.mp h
  obtain ⟨z, hz, hsizes⟩ := mergeMembers_sizes hdims
    (z := ⟨none, none⟩) ⟨rfl, by simp, by simp, rfl, by simp⟩ hst
  obtain ⟨hpoly, hbox⟩ := Sizes.of_foldlM_add hz
  have hsome : st.poly.isSome = ss.any SetExpr.isPolytope := by
    rw [← Option.isSome_map, hsizes.poly, hpoly]
    rfl
  cases hany : ss.any SetExpr.isPolytope with
  | true =>
    have hdim : hullDims ss = 2 := by
      cases ss with
      | nil => exact absurd hany (by simp)
      | cons s ss => rw [hullDims, if_pos hany]
    obtain ⟨p, hp⟩ := Option.isSome_iff_exists.mp (hsome.trans hany)
    rw [boundMerged, hp] at hbound
    obtain ⟨finalA, -, hbound⟩ := bind_eq_ok.mp hbound
    obtain ⟨finalB, -, hbound⟩ := bind_eq_ok.mp hbound
    rw [hdim]
    exact length_computeAABB hbound
  | false =>
    have hdim : z.box.getD 0 = hullDims ss := by
      rw [hbox hany]
      cases ss with
      | nil => rfl
      | cons s ss =>
        rw [hullDims, if_neg (by simp [hany])]
        rfl
    have hnone : st.poly = none :=
      Option.isNone_iff_eq_none.mp (Option.isSome_eq_false_iff.mp (hsome.trans hany))
    rw [boundMerged, hnone] at hbound
    obtain rfl := Outcome.ok.inj hbound
    obtain ⟨hmin, hmax⟩ := hsizes.getD
    rw [hmax, hmin, hdim]
    exact ⟨rfl, rfl⟩

theorem hullDims_hullSetExpr (env : Env R) {lp : LpSolver R} {c : Calls R (Outcome Err)}
    {rh : SetExpr R → Outcome Err (AlignedBox R)} (hdims : ∀ s, HullDims rh s) (s : SetExpr R) :
    HullDims (hullSetExpr .worst env.self lp c rh) s := by
  intro box h
  obtain ⟨-, -, h⟩ := bind_eq_ok.mp h
  cases s with
  | singleton n as =>
    obtain ⟨p, hp, h⟩ := bind_eq_ok.mp h
    obtain rfl := Outcome.ok.inj h
    have hlen : p.length = as.length := by simpa using collect_length hp
    exact ⟨hlen, hlen⟩
  | ball n center radius =>
    obtain ⟨cent, hcent, h⟩ := bind_eq_ok.mp h
    obtain ⟨r, -, h⟩ := bind_eq_ok.mp h
    obtain rfl := Outcome.ok.inj h
    have hlen : cent.length = center.length := by simpa using collect_length hcent
    exact ⟨(List.length_map _).trans hlen, (List.length_map _).trans hlen⟩
  | rectangle n rect =>
    obtain ⟨bounds, hbounds, h⟩ := bind_eq_ok.mp h
    obtain rfl := Outcome.ok.inj h
    have hlen : bounds.length = rect.length := by simpa using collect_length hbounds
    exact ⟨(List.length_map _).trans hlen, (List.length_map _).trans hlen⟩
  | convexPolytope n a b =>
    obtain ⟨A, -, h⟩ := bind_eq_ok.mp h
    obtain ⟨bs, -, h⟩ := bind_eq_ok.mp h
    exact length_computeAABB h
  | intersection n ss => exact hullDims_hullIntersection hdims h
  | caseDistinction n cases => exact absurd h (by simp)
  | reference n ref => exact absurd h (by simp)
  | unknown n which => exact absurd h (by simp)

/-- **The bounding box of an intersection goes outside** where the sizes of the members do not
fit. -/
theorem hullIntersection_outside {lp : LpSolver R} (hlp : lp.Sound)
    {ev : RealExpr R → Outcome Err R} (hev : ∀ e, Spares outside (ev e))
    {mem : SetExpr R → List R → Outcome Err Bool} {rh : SetExpr R → Outcome Err (AlignedBox R)}
    (hrh : ∀ s, Spares outside (rh s)) (hdims : ∀ s, HullDims rh s) (ss : List (SetExpr R)) :
    hullIntersection .worst lp (ss.map (member ⟨ev, mem⟩ rh)) = .throw outside ↔
      MergeMisfit (Yields ev) (Yields rh) ⟨none, none⟩ ss :=
  mergeMembers_bind_outside hev hrh hdims ss ⟨rfl, by simp, by simp, rfl, by simp⟩ fun _ _ =>
    boundMerged_outside hlp

end Release

/-- The boxes that are found have the dimensions that are known beforehand. -/
theorem Env.hullDims_release (env : Env R) (lp : LpSolver R) (s : SetExpr R) :
    Release.HullDims (fun s => env.release.sem (.rectHull lp s)) s := by
  have hrun : ∀ n s, Release.HullDims
      (Release.rectHull (m := Outcome Err) .worst env.self lp n) s := by
    intro n
    induction n with
    | zero => exact fun s box h => absurd h (by simp [Release.rectHull])
    | succ n ih => exact Release.hullDims_hullSetExpr env ih
  intro box hbox
  have hsem : env.release.sem (.rectHull lp s) = ok box := hbox
  obtain ⟨n, hn⟩ := env.release.exists_run_eq_sem (t := .rectHull lp s)
    fun hstop => nomatch hsem.symm.trans hstop
  have hrect := (env.run_release_rectHull lp n s).symm.trans hn
  exact hrun n s box (hrect.trans hbox)

end Commelec
