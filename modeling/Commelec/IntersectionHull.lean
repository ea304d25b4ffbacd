/-
Commelec/IntersectionHull.lean

The system of inequalities that `rectHull(List<SetExpr>)` hands to the bounding box solver.

The loop over the members keeps one box and one system of rows.  A box is intersected with
the next one, and the first polytope becomes the system; but for a second polytope the
matrix is resized and then initialised with itself and the new rows, which do not fit
(`mergeMember_second`).  So the system says what all members say exactly when at most one
of them is a polytope (`intersection_system_iff`).
-/
import Commelec.Semantics

namespace Commelec

open Effectful Outcome

/-! ### What a member says -/

/-- The point satisfies every row `row · x ≤ bᵢ`. -/
def Satisfies (A : List (List ℝ)) (b x : List ℝ) : Prop :=
  List.Forall₂ (fun row bi => dot row x ≤ bi) A b

theorem satisfies_append {A A' : List (List ℝ)} {b b' x : List ℝ} (h : A.length = b.length) :
    Satisfies (A ++ A') (b ++ b') x ↔ Satisfies A b x ∧ Satisfies A' b' x := by
  induction A generalizing b with
  | nil =>
    obtain rfl : b = [] := List.length_eq_zero_iff.mp h.symm
    simp [Satisfies]
  | cons row A ih =>
    obtain - | ⟨bi, b⟩ := b
    · simp at h
    · have htail := ih (by simpa using h)
      simp only [Satisfies, List.cons_append, List.forall₂_cons] at htail ⊢
      rw [htail, and_assoc]

/-- The point lies in the box. -/
def AlignedBox.Contains (B : AlignedBox ℝ) (x : List ℝ) : Prop :=
  List.Forall₂ (· ≤ ·) B.min x ∧ List.Forall₂ (· ≤ ·) x B.max

def AlignedBox.Planar (B : AlignedBox ℝ) : Prop := B.min.length = 2 ∧ B.max.length = 2

/-- The constraints of a member of an intersection. -/
inductive Piece where
  | polytope (A : List (List ℝ)) (b : List ℝ)
  | box (B : AlignedBox ℝ)

def Piece.Contains : Piece → List ℝ → Prop
  | polytope A b, x => Satisfies A b x
  | box B, x => B.Contains x

def Piece.isPolytope : Piece → Bool
  | polytope _ _ => true
  | box _ => false

/-- A well-formed member: a polytope with two columns and as many bounds as rows, or another
set with a box in the plane as hull. -/
inductive Evaluates (env : Env ℝ) (lp : LpSolver ℝ) : SetExpr ℝ → Piece → Prop
  | polytope {n a b A bs} :
      (evalToMatrix (a.map (List.map env.evalSem)) : Outcome Err (List (List ℝ))) = ok A →
      (∀ row ∈ A, row.length = 2) →
      (evalToVector (b.map env.evalSem) : Outcome Err (List ℝ)) = ok bs →
      A.length = bs.length →
      Evaluates env lp (.convexPolytope n a b) (.polytope A bs)
  | box {s B} : (∀ n a b, s ≠ .convexPolytope n a b) → env.hullSem lp s = ok B → B.Planar →
      Evaluates env lp s (.box B)

/-! ### Boxes -/

theorem AlignedBox.Planar.eq {B : AlignedBox ℝ} (h : B.Planar) :
    ∃ l₁ l₂ u₁ u₂, B = ⟨[l₁, l₂], [u₁, u₂]⟩ := by
  obtain ⟨min, max⟩ := B
  obtain ⟨l₁, l₂, rfl⟩ := List.length_eq_two.mp h.1
  obtain ⟨u₁, u₂, rfl⟩ := List.length_eq_two.mp h.2
  exact ⟨l₁, l₂, u₁, u₂, rfl⟩

theorem AlignedBox.contains_pair {l₁ l₂ u₁ u₂ p q : ℝ} :
    (⟨[l₁, l₂], [u₁, u₂]⟩ : AlignedBox ℝ).Contains [p, q]
      ↔ (l₁ ≤ p ∧ l₂ ≤ q) ∧ p ≤ u₁ ∧ q ≤ u₂ := by
  simp [AlignedBox.Contains]

/-- The intersection of two boxes. -/
theorem AlignedBox.intersection_planar {B C : AlignedBox ℝ} (hB : B.Planar) (hC : C.Planar) :
    ∃ D, (B.intersection C : Outcome Err (AlignedBox ℝ)) = ok D ∧ D.Planar ∧
      ∀ p q, D.Contains [p, q] ↔ B.Contains [p, q] ∧ C.Contains [p, q] := by
  obtain ⟨l₁, l₂, u₁, u₂, rfl⟩ := hB.eq
  obtain ⟨m₁, m₂, v₁, v₂, rfl⟩ := hC.eq
  refine ⟨⟨[stdMax l₁ m₁, stdMax l₂ m₂], [stdMin u₁ v₁, stdMin u₂ v₂]⟩, rfl, ⟨rfl, rfl⟩,
    fun p q => ?_⟩
  simp only [AlignedBox.contains_pair, stdMax_real, stdMin_real, max_le_iff, le_min_iff]
  tauto

/-- A box as a system: `x ≤ max` and `-x ≤ -min`. -/
theorem AlignedBox.satisfies_eye {B : AlignedBox ℝ} (hB : B.Planar) (p q : ℝ) :
    Satisfies ((Matrix.identity B.min.length).rows ++ (Matrix.identity B.min.length).neg.rows)
        (B.max ++ B.min.map (-·)) [p, q] ↔ B.Contains [p, q] := by
  obtain ⟨l₁, l₂, u₁, u₂, rfl⟩ := hB.eq
  have hrows : (Matrix.identity 2 : Matrix ℝ).rows ++ (Matrix.identity 2 : Matrix ℝ).neg.rows
      = [[1, 0], [0, 1], [-1, -0], [-0, -1]] := rfl
  show Satisfies ((Matrix.identity 2 : Matrix ℝ).rows ++ (Matrix.identity 2 : Matrix ℝ).neg.rows)
    [u₁, u₂, -l₁, -l₂] [p, q] ↔ _
  rw [hrows, AlignedBox.contains_pair]
  simp only [Satisfies, List.forall₂_cons, dot, List.zipWith_cons_cons, List.zipWith_nil_left,
    List.sum_cons, List.sum_nil]
  norm_num
  tauto

/-! ### The loop -/

namespace Merged

/-- The constraints collected so far. -/
def Contains (st : Merged ℝ) (x : List ℝ) : Prop :=
  (∀ A b, st.poly = some (A, b) → Satisfies A.rows b x) ∧
    ∀ B, st.tempResult = some B → B.Contains x

/-- The matrix has two columns, at least one row, and as many bounds; the box lies in the
plane. -/
structure WellFormed (st : Merged ℝ) : Prop where
  poly {A b} : st.poly = some (A, b) →
    A.cols = 2 ∧ A.rows ≠ [] ∧ A.rows.length = b.length
  tempResult {B} : st.tempResult = some B → B.Planar

/-- The number of polytopes so far: none or one. -/
def polytopes (st : Merged ℝ) : ℕ := if st.poly.isSome then 1 else 0

end Merged

theorem sem_eval (env : Env ℝ) : env.sem.eval = env.evalSem := rfl

/-! Eigen's comma initialiser -/

theorem commaInit_ok {rows cols : ℕ} {blocks : List (Matrix ℝ)}
    (hcols : ∀ B ∈ blocks, B.cols = cols) (hne : ∀ B ∈ blocks, B.nonEmpty = true)
    (hrows : (blocks.map fun B => B.rows.length).sum = rows) :
    (commaInit rows cols blocks : Outcome Err (Matrix ℝ))
      = ok ⟨cols, (blocks.map Matrix.rows).flatten⟩ := by
  have hall : (blocks.all fun B => decide (B.cols = cols)) = true := by simpa using hcols
  rw [commaInit, List.filter_eq_self.mpr hne, hall, hrows]
  simp [assert]

theorem commaInitVec_ok {size : ℕ} {blocks : List (List ℝ)}
    (hsize : (blocks.map List.length).sum = size) :
    (commaInitVec size blocks : Outcome Err (List ℝ)) = ok blocks.flatten := by
  rw [commaInitVec, hsize]
  simp [assert]

theorem commaInit_overfull {rows cols : ℕ} {blocks : List (Matrix ℝ)}
    (hrows : ((blocks.filter Matrix.nonEmpty).map fun B => B.rows.length).sum ≠ rows) :
    (commaInit rows cols blocks : Outcome Err (Matrix ℝ)) = .throw .assertion := by
  rw [commaInit]
  by_cases hall : ((blocks.filter Matrix.nonEmpty).all fun B => decide (B.cols = cols)) = true
  · rw [hall]
    simp [assert, hrows]
  · rw [Bool.eq_false_of_not_eq_true hall]
    simp [assert]

section Loop

variable {env : Env ℝ} {lp : LpSolver ℝ} {s : SetExpr ℝ} {st : Merged ℝ}

/-- The first polytope becomes the system. -/
theorem mergeMember_first {A : List (List ℝ)} {b : List ℝ} (hst : st.WellFormed)
    (hs : Evaluates env lp s (.polytope A b)) (hpoly : st.poly = none) :
    ∃ st', mergeMember st (member env.sem (env.hullSem lp) s) = ok st' ∧ st'.WellFormed ∧
      st'.polytopes = 1 ∧ st'.tempResult = st.tempResult ∧
      ∀ x, st'.Contains x ↔ st.Contains x ∧ Satisfies A b x := by
  cases hs with
  | @polytope n a' b' _ _ hA hcols hb hlen =>
    have hne := ne_nil_of_evalToMatrix hA
    let st' : Merged ℝ := { st with poly := some (Matrix.ofRows A, b) }
    have hmerge : mergeMember st
        (member env.sem (env.hullSem lp) (.convexPolytope n a' b')) = ok st' := by
      rw [member, mergeMember, sem_eval, hb, ok_bind, hA, ok_bind, hpoly]
      rfl
    refine ⟨st', hmerge, ⟨?_, hst.tempResult⟩, rfl, rfl, fun x => ?_⟩
    · intro A' b'' h
      obtain ⟨rfl, rfl⟩ : Matrix.ofRows A = A' ∧ b = b'' := by simpa [st'] using h
      refine ⟨?_, hne, hlen⟩
      obtain ⟨row, A, rfl⟩ := List.exists_cons_of_ne_nil hne
      exact hcols row (by simp)
    · constructor
      · rintro ⟨hpolys, htemp⟩
        exact ⟨⟨fun A' b'' h => by simp [hpoly] at h, htemp⟩, hpolys _ _ rfl⟩
      · rintro ⟨⟨-, htemp⟩, hsat⟩
        refine ⟨fun A' b'' h => ?_, htemp⟩
        obtain ⟨rfl, rfl⟩ : Matrix.ofRows A = A' ∧ b = b'' := by simpa [st'] using h
        exact hsat

/-- **A second polytope does not fit**: the resized matrix alone fills the matrix that it
is to be merged into. -/
theorem mergeMember_second {A : List (List ℝ)} {b : List ℝ} (hst : st.WellFormed)
    (hs : Evaluates env lp s (.polytope A b)) (hpoly : st.poly.isSome) :
    mergeMember st (member env.sem (env.hullSem lp) s) = .throw .assertion := by
  cases hs with
  | @polytope n a' b' _ _ hA hcols hb hlen =>
    obtain ⟨⟨mergedA, mergedB⟩, hsome⟩ := Option.isSome_iff_exists.mp hpoly
    obtain ⟨hmcols, hmne, hmlen⟩ := hst.poly hsome
    have hne := ne_nil_of_evalToMatrix hA
    have hpos : 0 < A.length := List.length_pos_iff.mpr hne
    obtain ⟨row, A, rfl⟩ := List.exists_cons_of_ne_nil hne
    have hcols : (Matrix.ofRows (row :: A)).cols = 2 := hcols row (by simp)
    let big := mergedA.resize (mergedA.rows.length + (row :: A).length)
    have hbig : big.nonEmpty = true := by
      simp [big, Matrix.nonEmpty, Matrix.rows_resize, Matrix.cols_resize, hmcols]
    have hnew : (Matrix.ofRows (row :: A)).nonEmpty = true := by
      rw [Matrix.nonEmpty, hcols]
      simp [Matrix.ofRows]
    have hfull : (([big, Matrix.ofRows (row :: A)].filter Matrix.nonEmpty).map
        fun B => B.rows.length).sum ≠ big.rows.length := by
      rw [List.filter_cons_of_pos hbig, List.filter_cons_of_pos hnew]
      simp [Matrix.ofRows]
    rw [member, mergeMember, sem_eval, hb, ok_bind, hA, ok_bind, hsome]
    show (commaInit big.rows.length big.cols [big, Matrix.ofRows (row :: A)] >>= _) = _
    rw [commaInit_overfull hfull]
    rfl

/-- The boxes are intersected. -/
theorem mergeMember_box {B : AlignedBox ℝ} (hst : st.WellFormed)
    (hs : Evaluates env lp s (.box B)) :
    ∃ st', mergeMember st (member env.sem (env.hullSem lp) s) = ok st' ∧ st'.WellFormed ∧
      st'.poly = st.poly ∧ st'.tempResult.isSome ∧
      ∀ p q, st'.Contains [p, q] ↔ st.Contains [p, q] ∧ B.Contains [p, q] := by
  cases hs with
  | box hnot hhull hplanar =>
    have hmember : member env.sem (env.hullSem lp) s = .other (env.hullSem lp s) := by
      cases s with
      | convexPolytope n a b => exact absurd rfl (hnot n a b)
      | _ => rfl
    rw [hmember, mergeMember, hhull, ok_bind]
    rcases htemp : st.tempResult with - | C
    · refine ⟨{ st with tempResult := some B }, rfl, ⟨hst.poly, ?_⟩, rfl, rfl, fun p q => ?_⟩
      · rintro C h
        obtain rfl : B = C := by simpa using h
        exact hplanar
      · constructor
        · rintro ⟨hpoly, hbox⟩
          exact ⟨⟨hpoly, fun C h => by simp [htemp] at h⟩, hbox B rfl⟩
        · rintro ⟨⟨hpoly, -⟩, hB⟩
          refine ⟨hpoly, fun C h => ?_⟩
          obtain rfl : B = C := by simpa using h
          exact hB
    · obtain ⟨D, hD, hDplanar, hcontains⟩ :=
        AlignedBox.intersection_planar (hst.tempResult htemp) hplanar
      refine ⟨{ st with tempResult := some D }, ?_, ⟨hst.poly, ?_⟩, rfl, rfl, fun p q => ?_⟩
      · show (C.intersection B >>= fun D => _) = _
        rw [hD]
        rfl
      · rintro D' h
        obtain rfl : D = D' := by simpa using h
        exact hDplanar
      · constructor
        · rintro ⟨hpoly, hbox⟩
          obtain ⟨hC, hB⟩ := (hcontains p q).mp (hbox D rfl)
          refine ⟨⟨hpoly, fun C' h => ?_⟩, hB⟩
          obtain rfl : C = C' := by simpa [htemp] using h
          exact hC
        · rintro ⟨⟨hpoly, hbox⟩, hB⟩
          refine ⟨hpoly, fun D' h => ?_⟩
          obtain rfl : D = D' := by simpa using h
          exact (hcontains p q).mpr ⟨hbox C htemp, hB⟩

/-! ### Whole intersections -/

variable {sets : List (SetExpr ℝ)} {pieces : List Piece}

/-- **The loop, with at most one polytope.** -/
theorem mergeMembers_of_le (hst : st.WellFormed)
    (h : List.Forall₂ (Evaluates env lp) sets pieces)
    (hcount : st.polytopes + pieces.countP Piece.isPolytope ≤ 1) :
    ∃ st', mergeMembers st (sets.map (member env.sem (env.hullSem lp))) = ok st' ∧
      st'.WellFormed ∧ st'.polytopes = st.polytopes + pieces.countP Piece.isPolytope ∧
      (st.tempResult.isSome ∨ (∃ B, .box B ∈ pieces) → st'.tempResult.isSome) ∧
      ∀ p q, st'.Contains [p, q] ↔
        st.Contains [p, q] ∧ ∀ piece ∈ pieces, piece.Contains [p, q] := by
  induction h generalizing st with
  | nil => exact ⟨st, rfl, hst, rfl, by simp, fun p q => by simp⟩
  | @cons s piece sets pieces hs h ih =>
    rw [List.map_cons]
    cases piece with
    | polytope A b =>
      rw [List.countP_cons_of_pos rfl] at hcount ⊢
      have hpoly : st.poly = none := by
        rcases hp : st.poly with - | P
        · rfl
        · rw [Merged.polytopes, hp] at hcount
          simp at hcount
      obtain ⟨st₁, hmerge, hst₁, hpolys, htemp, hcontains⟩ := mergeMember_first hst hs hpoly
      have h0 : st.polytopes = 0 := by rw [Merged.polytopes, hpoly]; rfl
      obtain ⟨st', hrun, hst', hpolys', htemp', hcontains'⟩ := ih hst₁ (by omega)
      refine ⟨st', by rw [mergeMembers, hmerge, ok_bind, hrun], hst', by omega, ?_, fun p q => ?_⟩
      · rintro (hsome | ⟨B, hB⟩)
        · exact htemp' (Or.inl (htemp ▸ hsome))
        · exact htemp' (Or.inr ⟨B, by simpa using hB⟩)
      · rw [hcontains', hcontains, List.forall_mem_cons, and_assoc]
        rfl
    | box B =>
      rw [List.countP_cons_of_neg (by simp [Piece.isPolytope])] at hcount ⊢
      obtain ⟨st₁, hmerge, hst₁, hpolys, htemp, hcontains⟩ := mergeMember_box hst hs
      have h1 : st₁.polytopes = st.polytopes := by rw [Merged.polytopes, hpolys, Merged.polytopes]
      obtain ⟨st', hrun, hst', hpolys', htemp', hcontains'⟩ := ih hst₁ (by omega)
      refine ⟨st', by rw [mergeMembers, hmerge, ok_bind, hrun], hst', by omega,
        fun _ => htemp' (Or.inl htemp), fun p q => ?_⟩
      rw [hcontains', hcontains, List.forall_mem_cons, and_assoc]
      rfl

/-- **The loop, with more polytopes.** -/
theorem mergeMembers_of_lt (hst : st.WellFormed)
    (h : List.Forall₂ (Evaluates env lp) sets pieces)
    (hcount : 1 < st.polytopes + pieces.countP Piece.isPolytope) :
    mergeMembers st (sets.map (member env.sem (env.hullSem lp))) = .throw .assertion := by
  induction h generalizing st with
  | nil =>
    rw [List.countP_nil, Merged.polytopes] at hcount
    split at hcount <;> omega
  | @cons s piece sets pieces hs h ih =>
    rw [List.map_cons, mergeMembers]
    cases piece with
    | polytope A b =>
      rw [List.countP_cons_of_pos rfl] at hcount
      rcases hp : st.poly with - | P
      · obtain ⟨st₁, hmerge, hst₁, hpolys, -, -⟩ := mergeMember_first hst hs hp
        have h0 : st.polytopes = 0 := by rw [Merged.polytopes, hp]; rfl
        rw [hmerge, ok_bind]
        exact ih hst₁ (by omega)
      · rw [mergeMember_second hst hs (by rw [hp]; rfl)]
        rfl
    | box B =>
      rw [List.countP_cons_of_neg (by simp [Piece.isPolytope])] at hcount
      obtain ⟨st₁, hmerge, hst₁, hpolys, -, -⟩ := mergeMember_box hst hs
      have h1 : st₁.polytopes = st.polytopes := by rw [Merged.polytopes, hpolys, Merged.polytopes]
      rw [hmerge, ok_bind]
      exact ih hst₁ (by omega)

/-- The box or the system says exactly what all members say. -/
def SaysAll (system : AlignedBox ℝ ⊕ (Matrix ℝ × List ℝ)) (pieces : List Piece) : Prop :=
  ∀ p q,
    (match system with
      | .inl B => B.Contains [p, q]
      | .inr (A, b) => Satisfies A.rows b [p, q]) ↔
    ∀ piece ∈ pieces, piece.Contains [p, q]

theorem Merged.contains_box {B : AlignedBox ℝ} (hpoly : st.poly = none)
    (htemp : st.tempResult = some B) (x : List ℝ) : st.Contains x ↔ B.Contains x := by
  constructor
  · rintro ⟨-, hbox⟩
    exact hbox B htemp
  · intro hin
    refine ⟨fun A b h => by simp [hpoly] at h, fun C h => ?_⟩
    obtain rfl : B = C := by simpa [htemp] using h
    exact hin

theorem Merged.contains_both {A : Matrix ℝ} {b : List ℝ} {B : AlignedBox ℝ}
    (hpoly : st.poly = some (A, b)) (htemp : st.tempResult = some B) (x : List ℝ) :
    st.Contains x ↔ Satisfies A.rows b x ∧ B.Contains x := by
  constructor
  · rintro ⟨hrows, hbox⟩
    exact ⟨hrows A b hpoly, hbox B htemp⟩
  · rintro ⟨hsat, hin⟩
    refine ⟨fun A' b' h => ?_, fun C h => ?_⟩
    · obtain ⟨rfl, rfl⟩ : A = A' ∧ b = b' := by simpa [hpoly] using h
      exact hsat
    · obtain rfl : B = C := by simpa [htemp] using h
      exact hin

theorem wellFormed_empty : (⟨none, none⟩ : Merged ℝ).WellFormed :=
  ⟨fun h => by simp at h, fun h => by simp at h⟩

/-- The rows of the polytope, then those of the box. -/
theorem finalSystem_eq {st : Merged ℝ} (hst : st.WellFormed) {A : Matrix ℝ} {b : List ℝ}
    {B : AlignedBox ℝ} (hpoly : st.poly = some (A, b)) (htemp : st.tempResult = some B) :
    ∃ finalA finalB,
      (commaInit (A.rows.length + 2 * B.min.length) A.cols
        [A, Matrix.identity B.min.length, (Matrix.identity B.min.length).neg]
        : Outcome Err (Matrix ℝ)) = ok finalA ∧
      (commaInitVec (b.length + 2 * B.min.length) [b, B.max, B.min.map (-·)]
        : Outcome Err (List ℝ)) = ok finalB ∧
      ∀ p q, Satisfies finalA.rows finalB [p, q] ↔
        Satisfies A.rows b [p, q] ∧ B.Contains [p, q] := by
  obtain ⟨hcols, hne, hlen⟩ := hst.poly hpoly
  have hplanar := hst.tempResult htemp
  have hsz : B.min.length = 2 := hplanar.1
  have hrows : (Matrix.identity B.min.length : Matrix ℝ).rows.length = B.min.length := by
    simp [Matrix.identity]
  have hneg : (Matrix.identity B.min.length : Matrix ℝ).neg.rows.length = B.min.length := by
    simp [Matrix.neg, Matrix.identity]
  have hnonEmpty : ∀ M ∈ [A, Matrix.identity B.min.length, (Matrix.identity B.min.length).neg],
      M.nonEmpty = true := by
    rw [hsz]
    simp [Matrix.nonEmpty, hcols, hne, Matrix.identity, Matrix.neg]
  have hsame : ∀ M ∈ [A, Matrix.identity B.min.length, (Matrix.identity B.min.length).neg],
      M.cols = A.cols := by
    rw [hsz]
    simp [hcols, Matrix.identity, Matrix.neg]
  refine ⟨_, _, commaInit_ok hsame hnonEmpty ?_, commaInitVec_ok ?_, fun p q => ?_⟩
  · simp only [List.map_cons, List.map_nil, List.sum_cons, List.sum_nil, hrows, hneg]
    omega
  · simp [hplanar.1, hplanar.2]
  · simp only [List.map_cons, List.map_nil, List.flatten_cons, List.flatten_nil, List.append_nil]
    rw [satisfies_append hlen, AlignedBox.satisfies_eye hplanar]

/-- **Without a second polytope** the system is as it should be. -/
theorem intersectionSystem_of_le (h : List.Forall₂ (Evaluates env lp) sets pieces)
    (hbox : ∃ B, .box B ∈ pieces) (hcount : pieces.countP Piece.isPolytope ≤ 1) :
    ∃ system, (intersectionSystem (sets.map (member env.sem (env.hullSem lp)))
      : Outcome Err _) = ok system ∧ SaysAll system pieces := by
  have h0 : (⟨none, none⟩ : Merged ℝ).polytopes = 0 := rfl
  obtain ⟨st, hrun, hst, -, htemp, hcontains⟩ :=
    mergeMembers_of_le wellFormed_empty h (by rw [h0]; omega)
  obtain ⟨B, hB⟩ := Option.isSome_iff_exists.mp (htemp (Or.inr hbox))
  have hall : ∀ p q, st.Contains [p, q] ↔ ∀ piece ∈ pieces, piece.Contains [p, q] := by
    intro p q
    rw [hcontains]
    exact and_iff_right ⟨fun A b h => by simp at h, fun B h => by simp at h⟩
  rw [intersectionSystem, hrun, ok_bind]
  rcases hpoly : st.poly with - | ⟨A, b⟩
  · refine ⟨.inl B, by simp [hB], fun p q => ?_⟩
    rw [← hall, Merged.contains_box hpoly hB]
  · obtain ⟨finalA, finalB, hA, hb, hsat⟩ := finalSystem_eq hst hpoly hB
    refine ⟨.inr (finalA, finalB), ?_, fun p q => ?_⟩
    · simp [hB, hA, hb]
    · rw [← hall, Merged.contains_both hpoly hB]
      exact hsat p q

/-- **With one** the matrices do not fit. -/
theorem intersectionSystem_of_lt (h : List.Forall₂ (Evaluates env lp) sets pieces)
    (hcount : 1 < pieces.countP Piece.isPolytope) :
    (intersectionSystem (sets.map (member env.sem (env.hullSem lp))) : Outcome Err _)
      = .throw .assertion := by
  have h0 : (⟨none, none⟩ : Merged ℝ).polytopes = 0 := rfl
  rw [intersectionSystem, mergeMembers_of_lt wellFormed_empty h (by rw [h0]; omega)]
  rfl

/-- What the hull of an intersection is computed from. -/
theorem hullSem_intersection (env : Env ℝ) (lp : LpSolver ℝ) (n : Option String)
    (sets : List (SetExpr ℝ)) :
    env.hullSem lp (.intersection n sets)
      = hullIntersection lp (sets.map (member env.sem (env.hullSem lp))) :=
  env.hullSem_eq lp _

end Loop

/-- **Does the bounding box of an intersection use all constraints?**  A query for it is
the run of `hullIntersection` on the members.  What that hands to the bounding box solver,
or returns if there is no polytope, says exactly what all members say, when at most one of
them is a polytope; with more polytopes the query fails. -/
theorem intersection_system_iff {af : AdvFunc ℝ} (hv : af.advValid = true)
    {bv : ValueMap ℝ} {lp : LpSolver ℝ} {n : Option String} {sets : List (SetExpr ℝ)}
    {pieces : List Piece} (h : List.Forall₂ (Evaluates (af.env bv) lp) sets pieces)
    (hbox : ∃ B, .box B ∈ pieces) :
    (∀ fuel, (AdvFunc.rectangularHull lp fuel (.intersection n sets) bv af).1
        = .throw maxNesting ∨
      (AdvFunc.rectangularHull lp fuel (.intersection n sets) bv af).1.Le
        (hullIntersection lp (sets.map (member (af.env bv).sem ((af.env bv).hullSem lp))))) ∧
    ((∃ system, intersectionSystem (sets.map (member (af.env bv).sem ((af.env bv).hullSem lp)))
        = ok system ∧ SaysAll system pieces) ↔ pieces.countP Piece.isPolytope ≤ 1) ∧
    (1 < pieces.countP Piece.isPolytope →
      hullIntersection lp (sets.map (member (af.env bv).sem ((af.env bv).hullSem lp)))
        = .throw .assertion) := by
  refine ⟨fun fuel => ?_, ⟨?_, intersectionSystem_of_le h hbox⟩, fun hcount => ?_⟩
  · rw [← hullSem_intersection (af.env bv) lp n sets]
    exact query_refines hv (refines_hull (af.env bv) lp _) fuel
  · rintro ⟨system, hsystem, -⟩
    by_contra hcount
    rw [intersectionSystem_of_lt h (not_le.mp hcount)] at hsystem
    simp at hsystem
  · rw [hullIntersection, intersectionSystem_of_lt h hcount]
    rfl

/-! ### Half-planes and a square -/

/-- The half-plane `a₁ P + a₂ Q ≤ b`. -/
def halfPlane (a₁ a₂ b : ℝ) : SetExpr ℝ :=
  .convexPolytope none [[.real none a₁, .real none a₂]] [.real none b]

/-- The square with sides from 0 to 2. -/
def square : SetExpr ℝ :=
  .rectangle none [(.real none 0, .real none 2), (.real none 0, .real none 2)]

theorem evaluates_halfPlane (env : Env ℝ) (lp : LpSolver ℝ) (a₁ a₂ b : ℝ) :
    Evaluates env lp (halfPlane a₁ a₂ b) (.polytope [[a₁, a₂]] [b]) := by
  refine .polytope ?_ (by simp) ?_ rfl
  · simp only [List.map_cons, List.map_nil, env.evalSem_real]
    rfl
  · simp only [List.map_cons, List.map_nil, env.evalSem_real]
    rfl

theorem evaluates_square (env : Env ℝ) (lp : LpSolver ℝ) :
    Evaluates env lp square (.box ⟨[stdMin 0 2, stdMin 0 2], [stdMax 0 2, stdMax 0 2]⟩) := by
  refine .box (fun n a b h => by simp [square] at h) ?_ ⟨rfl, rfl⟩
  rw [env.hullSem_eq]
  show hullRectangle [(env.evalSem (.real none 0), env.evalSem (.real none 2)),
    (env.evalSem (.real none 0), env.evalSem (.real none 2))] = _
  rw [env.evalSem_real, env.evalSem_real]
  rfl

/-- An object for an advertisement without parts. -/
def emptyAdv : AdvFunc ℝ := (AdvFunc.new ⟨none, none, none, []⟩).2

/-- A solver that returns the objective. -/
def echoLp : LpSolver ℝ := fun _ c => ok c

/-- The members of an intersection as the loop sees them. -/
noncomputable def membersOf (sets : List (SetExpr ℝ)) : List (Member ℝ (Outcome Err)) :=
  sets.map (member (emptyAdv.env (bindPQ 0 0)).sem ((emptyAdv.env (bindPQ 0 0)).hullSem echoLp))

theorem intersection_system_iff_sample :
    ∃ system, intersectionSystem (membersOf [halfPlane 1 0 1, square]) = ok system ∧
      SaysAll system [.polytope [[1, 0]] [1],
        .box ⟨[stdMin 0 2, stdMin 0 2], [stdMax 0 2, stdMax 0 2]⟩] := by
  have hpieces := List.Forall₂.cons (evaluates_halfPlane (emptyAdv.env (bindPQ 0 0)) echoLp 1 0 1)
    (.cons (evaluates_square _ _) .nil)
  have hbox := List.mem_cons_of_mem (.polytope [[1, 0]] [1])
    (List.mem_singleton_self (Piece.box ⟨[stdMin 0 2, stdMin 0 2], [stdMax 0 2, stdMax 0 2]⟩))
  exact (intersection_system_iff (n := none) rfl hpieces ⟨_, hbox⟩).2.1.mpr le_rfl

/-- With the half-planes `P ≤ 1` and `Q ≤ 1` and the square there is no system, and the
query fails. -/
theorem two_halfPlanes_fail :
    intersectionSystem (membersOf [halfPlane 1 0 1, halfPlane 0 1 1, square])
      = .throw .assertion ∧
    (AdvFunc.rectangularHull echoLp 3
      (.intersection none [halfPlane 1 0 1, halfPlane 0 1 1, square]) (bindPQ 0 0) emptyAdv).1
      = .throw .assertion := by
  have hpieces := List.Forall₂.cons (evaluates_halfPlane (emptyAdv.env (bindPQ 0 0)) echoLp 1 0 1)
    (.cons (evaluates_halfPlane _ _ 0 1 1) (.cons (evaluates_square _ _) .nil))
  exact ⟨intersectionSystem_of_lt hpieces (Nat.lt_succ_self 1), rfl⟩

end Commelec
