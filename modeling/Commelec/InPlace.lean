/-
Commelec/InPlace.lean

`dykstraProjectionAlgorithm` with its arrays.

The source keeps the vectors `xv[0..m]` and `yv[0..m]` and updates them in place.  The body of
the inner loop copies `xv[m]` to `xv[0]` every time, so that `xv[i-1]` is the last vector of the
previous sweep when `i` is 1, and a vector of this sweep otherwise.  An array is a function of
the index here.

The lists of `Projection` are what these loops compute: a sweep writes to the arrays what
`dykstraSweep` returns (`innerLoop_eq`), and both algorithms return the same
(`dykstraProjectionAlgorithm_eq`).
-/
import Commelec.Projection

namespace Commelec

open Effectful Outcome Double

/-- The arrays, and the variable `result`. -/
structure Vectors (R : Type) where
  xv : ℕ → List R
  yv : ℕ → List R
  result : List R

namespace InPlace

section Loops

variable {R : Type} [Double R] {M : Type → Type} [Effects Err M]

/-- The body of the inner loop, for `m` sets. -/
def innerStep (m : ℕ) (proj : List R → M (List R)) (i : ℕ) (v : Vectors R) :
    M (Vectors R) := do
  let xv := Function.update v.xv 0 (v.xv m)
  assert ((xv (i - 1)).length = (v.yv i).length)
  let z := vecAdd (xv (i - 1)) (v.yv i)
  let x ← proj z
  assert (z.length = x.length)
  pure { v with xv := Function.update xv i x, yv := Function.update v.yv i (vecSub z x) }

/-- The inner loop, from `i` on. -/
def innerLoop (m : ℕ) : List (List R → M (List R)) → ℕ → Vectors R → M (Vectors R)
  | [], _, v => pure v
  | proj :: sets, i, v => do
    let v ← innerStep m proj i v
    innerLoop m sets (i + 1) v

/-- The outer loop; gives `converged` and `result`. -/
def outerLoop (sets : List (List R → M (List R))) : ℕ → Vectors R → M (Bool × List R)
  | 0, v => pure (false, v.result)
  | iter + 1, v => do
    let v ← innerLoop sets.length sets 1 v
    if lt (dist (v.xv sets.length) v.result) convergenceThreshold then
      pure (true, v.result)
    else
      outerLoop sets iter { v with result := v.xv sets.length }

/-- The arrays before the first sweep.  The vectors `xv[0..m-1]` are not initialised in the
source; they are assigned before they are read. -/
def start (m : ℕ) (point : List R) : Vectors R where
  xv := Function.update (fun _ => List.replicate point.length 0) m point
  yv := fun _ => List.replicate point.length 0
  result := point

def dykstraProjectionAlgorithm (sets : List (List R → M (List R))) (point : List R) :
    M (Bool × List R) :=
  outerLoop sets maxIterations (start sets.length point)

end Loops

end InPlace

/-! ### What a sweep writes -/

namespace Vectors

variable {R : Type} (m : ℕ)

/-- The vector that the inner loop reads as `xv[i-1]`. -/
def prev (v : Vectors R) (i : ℕ) : List R := Function.update v.xv 0 (v.xv m) (i - 1)

/-- The vectors `yv[i..]` of `k` sets. -/
def corrections (v : Vectors R) (i k : ℕ) : List (List R) := (List.range' i k).map v.yv

/-- The vectors `xv[i..]` of `k` sets. -/
def points (v : Vectors R) (i k : ℕ) : List (List R) := (List.range' i k).map v.xv

/-- What the body of the inner loop does to the arrays when it finds the point `x` and the
correction `y`. -/
def assign (v : Vectors R) (i : ℕ) (x y : List R) : Vectors R :=
  { v with
    xv := Function.update (Function.update v.xv 0 (v.xv m)) i x
    yv := Function.update v.yv i y }

/-- What the inner loop does to the arrays when it finds the points `xs` and the corrections
`ys`, from `i` on. -/
def write : ℕ → List (List R) → List (List R) → Vectors R → Vectors R
  | i, x :: xs, y :: ys, v => write (i + 1) xs ys (v.assign m i x y)
  | _, _, _, v => v

variable {m} {v : Vectors R} {xs ys : List (List R)}

theorem write_result {i : ℕ} : (v.write m i xs ys).result = v.result := by
  induction xs generalizing i ys v with
  | nil => rfl
  | cons x xs ih =>
    cases ys with
    | nil => rfl
    | cons y ys => exact ih

/-- Indices below `i` are left alone, but for `xv[0]`. -/
theorem write_below {i : ℕ} {j : ℕ} (hj : j < i) :
    (v.write m i xs ys).yv j = v.yv j ∧ (j ≠ 0 → (v.write m i xs ys).xv j = v.xv j) := by
  induction xs generalizing i ys v with
  | nil => exact ⟨rfl, fun _ => rfl⟩
  | cons x xs ih =>
    cases ys with
    | nil => exact ⟨rfl, fun _ => rfl⟩
    | cons y ys =>
      obtain ⟨hy, hx⟩ : ((v.assign m i x y).write m (i + 1) xs ys).yv j = (v.assign m i x y).yv j ∧
          (j ≠ 0 → ((v.assign m i x y).write m (i + 1) xs ys).xv j = (v.assign m i x y).xv j) :=
        ih (by omega)
      constructor
      · rw [write, hy]
        exact Function.update_of_ne hj.ne _ _
      · intro hne
        rw [write, hx hne]
        show Function.update (Function.update v.xv 0 (v.xv m)) i x j = v.xv j
        rw [Function.update_of_ne hj.ne, Function.update_of_ne hne]

theorem write_corrections {i : ℕ} (hlen : xs.length = ys.length) :
    (v.write m i xs ys).corrections i ys.length = ys := by
  induction xs generalizing i ys v with
  | nil =>
    obtain rfl : ys = [] := List.length_eq_zero_iff.mp hlen.symm
    rfl
  | cons x xs ih =>
    obtain - | ⟨y, ys⟩ := ys
    · simp at hlen
    rw [corrections, List.length_cons, List.range'_succ, List.map_cons]
    congr 1
    · rw [write, (write_below (Nat.lt_succ_self i)).1]
      exact Function.update_self _ _ _
    · exact ih (by simpa using hlen)

theorem write_points {i : ℕ} (hi : i ≠ 0) (hlen : xs.length = ys.length) :
    (v.write m i xs ys).points i xs.length = xs := by
  induction xs generalizing i ys v with
  | nil => rfl
  | cons x xs ih =>
    obtain - | ⟨y, ys⟩ := ys
    · simp at hlen
    rw [points, List.length_cons, List.range'_succ, List.map_cons]
    congr 1
    · rw [write, (write_below (Nat.lt_succ_self i)).2 hi]
      exact Function.update_self _ _ _
    · exact ih (Nat.succ_ne_zero i) (by simpa using hlen)

/-- After a whole sweep, `xv[m]` is the last point. -/
theorem write_last (hxs : xs.length = m) (hys : ys.length = m) :
    (v.write m 1 xs ys).xv m = xs.getLast?.getD (v.xv m) := by
  obtain rfl | hm := Nat.eq_zero_or_pos m
  · -- without sets nothing is written
    obtain rfl := List.length_eq_zero_iff.mp hxs
    rfl
  · have hpoints := write_points (m := m) (v := v) one_ne_zero (hxs.trans hys.symm)
    have hlast : (List.range' 1 m).getLast? = some m := by
      rw [List.getLast?_range', if_neg hm.ne']
      congr 1
      omega
    conv_rhs => rw [← hpoints]
    rw [points, hxs, List.getLast?_map, hlast]
    rfl

end Vectors

/-! ### The lists of the algorithm -/

namespace InPlace

variable {R : Type} [Double R] {σ : Type} {projs : List (List R → Run σ Err (List R))}

/-- **The inner loop** writes to the arrays what `dykstraSweep` returns. -/
theorem innerLoop_eq {m i : ℕ} {v : Vectors R} (hi : i ≠ 0) :
    innerLoop m projs i v
      = dykstraSweep projs (v.corrections i projs.length) (v.prev m i) >>= fun p =>
          pure (v.write m i p.1 p.2) := by
  induction projs generalizing i v with
  | nil => rfl
  | cons proj projs ih =>
    -- the next step reads the point just found, and corrections that are not yet touched
    have hprev : ∀ x y : List R, (v.assign m i x y).prev m (i + 1) = x := by
      intro x y
      show Function.update (v.assign m i x y).xv 0 _ i = x
      rw [Function.update_of_ne hi]
      exact Function.update_self _ _ _
    have hcorrections : ∀ x y : List R,
        (v.assign m i x y).corrections (i + 1) projs.length
          = v.corrections (i + 1) projs.length := by
      intro x y
      refine List.map_congr_left fun j hj => ?_
      rw [List.mem_range'_1] at hj
      exact Function.update_of_ne (by omega) _ _
    have hloop : innerLoop m (proj :: projs) i v
        = assert ((v.prev m i).length = (v.yv i).length) >>= fun _ =>
          proj (vecAdd (v.prev m i) (v.yv i)) >>= fun x =>
          assert ((vecAdd (v.prev m i) (v.yv i)).length = x.length) >>= fun _ =>
          innerLoop m projs (i + 1)
            (v.assign m i x (vecSub (vecAdd (v.prev m i) (v.yv i)) x)) := by
      simp only [innerLoop, innerStep, Run.bind_assoc, Run.pure_bind]
      rfl
    have hsweep : dykstraSweep (proj :: projs) (v.corrections i (proj :: projs).length)
          (v.prev m i)
        = dykstraSweep (proj :: projs) (v.yv i :: v.corrections (i + 1) projs.length)
          (v.prev m i) := rfl
    rw [hloop, hsweep, dykstraSweep]
    simp only [Run.bind_assoc, ih (Nat.succ_ne_zero i), hprev, hcorrections]
    rfl

theorem dykstraSweep_length {ys xs ys' : List (List R)} {x : List R} {s : σ}
    (hlen : ys.length = projs.length) (h : (dykstraSweep projs ys x s).1 = ok (xs, ys')) :
    xs.length = projs.length ∧ ys'.length = projs.length := by
  induction projs generalizing ys xs ys' x s with
  | nil =>
    obtain ⟨rfl, rfl⟩ : [] = xs ∧ [] = ys' := Prod.mk.inj (Outcome.ok.inj h)
    exact ⟨rfl, rfl⟩
  | cons proj projs ih =>
    obtain - | ⟨y, ys⟩ := ys
    · simp at hlen
    rw [dykstraSweep] at h
    obtain ⟨_, _, -, h⟩ := Run.of_bind_ok h
    obtain ⟨x', _, -, h⟩ := Run.of_bind_ok h
    obtain ⟨_, _, -, h⟩ := Run.of_bind_ok h
    obtain ⟨⟨xs', ys''⟩, s', hsweep, h⟩ := Run.of_bind_ok h
    obtain ⟨rfl, rfl⟩ := Prod.mk.inj (Outcome.ok.inj h)
    have hrest := ih (by simpa using hlen) (congrArg Prod.fst hsweep)
    simpa using hrest

/-- **The outer loop**, with its result as an option. -/
theorem outerLoop_eq {iter : ℕ} {v : Vectors R} (hresult : v.result = v.xv projs.length) :
    (outerLoop projs iter v >>= fun p => pure (if p.1 then some p.2 else none))
      = dykstraLoop projs iter (v.corrections 1 projs.length) (v.xv projs.length) := by
  induction iter generalizing v with
  | zero => rfl
  | succ iter ih =>
    have hprev : v.prev projs.length 1 = v.xv projs.length := Function.update_self _ _ _
    funext s
    rw [outerLoop, dykstraLoop, innerLoop_eq one_ne_zero, hprev, Run.bind_assoc, Run.bind_assoc]
    rcases hs : dykstraSweep projs (v.corrections 1 projs.length) (v.xv projs.length) s
      with ⟨⟨xs, ys'⟩ | e | -, s'⟩
    · obtain ⟨hxs, hys⟩ := dykstraSweep_length (by simp [Vectors.corrections])
        (congrArg Prod.fst hs)
      rw [Run.bind_ok hs, Run.bind_ok hs, Run.pure_bind, Vectors.write_result,
        Vectors.write_last hxs hys, hresult]
      dsimp only
      -- the test is the same in both loops
      split
      · rfl
      · have hcorr : (v.write projs.length 1 xs ys').corrections 1 projs.length = ys' := by
          have h := Vectors.write_corrections (m := projs.length) (v := v) (i := 1)
            (hxs.trans hys.symm)
          rwa [hys] at h
        have hlast := Vectors.write_last (v := v) hxs hys
        have hrest := ih (v := { v.write projs.length 1 xs ys' with
          result := (v.write projs.length 1 xs ys').xv projs.length }) rfl
        have hcorr' : ({ v.write projs.length 1 xs ys' with
            result := (v.write projs.length 1 xs ys').xv projs.length } : Vectors R).corrections 1
              projs.length = ys' := hcorr
        rw [hcorr'] at hrest
        dsimp only at hrest
        rw [hlast] at hrest
        exact congrFun hrest s'
    · rw [Run.bind_throw hs, Run.bind_throw hs]
    · rw [Run.bind_outOfFuel hs, Run.bind_outOfFuel hs]

/-- **The algorithm with its arrays** returns what the one on lists returns. -/
theorem dykstraProjectionAlgorithm_eq (point : List R) :
    (dykstraProjectionAlgorithm projs point >>= fun p => pure (if p.1 then some p.2 else none))
      = Commelec.dykstraProjectionAlgorithm projs point := by
  have hlast : (start projs.length point).xv projs.length = point := by
    simp [start]
  have hcorr : (start projs.length point).corrections 1 projs.length
      = List.replicate projs.length (List.replicate point.length 0) := by
    rw [Vectors.corrections, List.eq_replicate_iff]
    refine ⟨by simp, fun y hy => ?_⟩
    obtain ⟨_, -, rfl⟩ := List.mem_map.mp hy
    rfl
  rw [dykstraProjectionAlgorithm, outerLoop_eq hlast.symm, hlast, hcorr,
    Commelec.dykstraProjectionAlgorithm]

end InPlace

end Commelec
