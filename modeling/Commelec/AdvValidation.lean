/-
Commelec/AdvValidation.lean

The validator of advertisements (`AdvValidator` in `adv-validation.hpp`), which the daemon runs
in debug mode before it sends an advertisement.

The validator evaluates the cost function and the belief function at random setpoints.  It
finds a setpoint by drawing points of the bounding box of the PQ profile until one is in the
profile; nothing bounds the number of draws:

* `sampleSetpoint_returns` — what it finds is in the profile;
* `validator_searches` — so if no point is, the construction has the outcome of the search;
* `search_loops` — and if the test says no to every draw, the search never ends;
* `validator_throws_iff` — on a profile without points the construction throws, whatever is
  drawn, exactly if the test of every point of the box throws.
-/
import Commelec.Acceptance
import Commelec.Independence
import Commelec.AdvertisedSets

namespace Commelec

open Effectful Outcome Double

variable {R : Type}

/-! ### The validator -/

def cfEvaluations : ℕ := 100

def bfEvaluations : ℕ := 100

/-- The state of the validator: its interpreter, and how many points have been drawn. -/
structure AdvValidator (R : Type) where
  interpreter : AdvFunc R
  drawn : ℕ

namespace AdvValidator

section Code

/-- A query of the interpreter. -/
def ask {α : Type} (query : Run (AdvFunc R) Err α) : Run (AdvValidator R) Err α := fun v =>
  let r := query v.interpreter
  (r.1, { v with interpreter := r.2 })

/-- The checks of `checkDefinitions()`; the exceptions are kinds of `InvalidAdvertisement`. -/
def checkDefinitions (adv : Advertisement R) : Outcome Err Unit :=
  if adv.pQProfile.isNone then
    .throw (.runtimeError "Uninitialized PQ Profile")
  else if adv.costFunction.isNone then
    .throw (.runtimeError "Uninitialized Cost Function")
  else if adv.beliefFunction.isNone then
    .throw (.runtimeError "Uninitialized Belief Function")
  else if adv.implementedSetpoint.length ≠ 2 then
    .throw (.runtimeError "Uninitialized Implemented Setpoint")
  else
    ok ()

variable [Double R]

/-- `sample(b)`, when `random(x, y)` has the value `x + (y - x) * u d` for coordinate `d`. -/
def sample (b : AlignedBox R) (u : ℕ → R) : List R :=
  (List.zip b.min b.max).mapIdx fun d bound => bound.1 + (bound.2 - bound.1) * u d

/-- The numbers for the next point. -/
def draw (draws : ℕ → ℕ → R) : Run (AdvValidator R) Err (ℕ → R) := fun v =>
  (ok (draws v.drawn), { v with drawn := v.drawn + 1 })

/-- The condition of the loop: `testMembership` of the first two coordinates. -/
def isMember (depth : ℕ) (pqProf : SetExpr R) (randomPoint : List R) :
    Run (AdvValidator R) Err Bool := do
  let p ← coefficient randomPoint 0
  let q ← coefficient randomPoint 1
  ask (AdvFunc.testMembership depth pqProf [p, q] fun _ => none)

/-- `sampleSetpoint()`, for at most `fuel` draws. -/
def sampleSetpoint (draws : ℕ → ℕ → R) (depth : ℕ) (pqProf : SetExpr R) (b : AlignedBox R) :
    ℕ → Run (AdvValidator R) Err (List R)
  | 0 => stop
  | fuel + 1 => do
    let u ← draw draws
    let randomPoint := sample b u
    if ← isMember depth pqProf randomPoint then
      pure randomPoint
    else
      sampleSetpoint draws depth pqProf b fuel

variable (draws : ℕ → ℕ → R) (lp : LpSolver R) (fuel : ℕ)

/-- A setpoint, as the values of `P` and `Q`. -/
def sampleValues (pqProf : SetExpr R) (b : AlignedBox R) :
    Run (AdvValidator R) Err (ValueMap R) := do
  let randomPoint ← sampleSetpoint draws fuel pqProf b fuel
  pure (bindPQ (← coefficient randomPoint 0) (← coefficient randomPoint 1))

def evalCostFuncOnRandomPoint (pqProf : SetExpr R) (b : AlignedBox R) (costFunction : RealExpr R) :
    Run (AdvValidator R) Err R := do
  let values ← sampleValues draws fuel pqProf b
  ask (AdvFunc.evaluate fuel costFunction values)

def evalBeliefBoxOnRandomPoint (pqProf : SetExpr R) (b : AlignedBox R)
    (beliefFunction : SetExpr R) : Run (AdvValidator R) Err (AlignedBox R) := do
  let values ← sampleValues draws fuel pqProf b
  ask (AdvFunc.rectangularHull lp fuel beliefFunction values)

/-- `for (auto i = 0; i < n; ++i) body;` -/
def repeated (n : ℕ) (body : Run (AdvValidator R) Err Unit) : Run (AdvValidator R) Err Unit :=
  match n with
  | 0 => pure ()
  | n + 1 => do
    body
    repeated n body

/-- `initAndValidate()`.  The sums and the merged boxes are not used; merging a box with
`beliefBB` checks its dimension. -/
def initAndValidate (adv : Advertisement R) : Run (AdvValidator R) Err Unit := do
  (checkDefinitions adv).lift
  let pqProf := adv.pQProfile.getD .default
  let pQprofBB ← ask (AdvFunc.rectangularHull lp fuel pqProf fun _ => none)
  repeated cfEvaluations do
    let _ ← evalCostFuncOnRandomPoint draws fuel pqProf pQprofBB (adv.costFunction.getD .default)
  repeated bfEvaluations do
    let box ← evalBeliefBoxOnRandomPoint draws lp fuel pqProf pQprofBB
      (adv.beliefFunction.getD .default)
    assert (box.min.length = 2 && box.max.length = 2)

/-- The constructor `AdvValidator(adv)`. -/
def new (adv : Advertisement R) : Run (AdvValidator R) Err Unit := do
  ask (AdvFunc.setAdv adv)
  initAndValidate draws lp fuel adv

/-- The constructor `AdvValidator(buffer)`, for the message that the buffer holds. -/
def ofMessage (msg : Message R) : Run (AdvValidator R) Err Unit :=
  match msg.body with
  | .advertisement (some adv) => new draws lp fuel adv
  | _ => raise (.runtimeError "Message is not an advertisement")

/-- The outcome of a construction. -/
def construct (adv : Advertisement R) : Outcome Err Unit :=
  (new draws lp fuel adv ⟨AdvFunc.blank, 0⟩).1

end Code

theorem checkDefinitions_eq_ok {adv : Advertisement R} : checkDefinitions adv = ok () ↔
    adv.pQProfile.isSome ∧ adv.costFunction.isSome ∧ adv.beliefFunction.isSome ∧
      adv.implementedSetpoint.length = 2 := by
  rw [checkDefinitions]
  rcases adv.pQProfile with - | pq <;> rcases adv.costFunction with - | cf <;>
    rcases adv.beliefFunction with - | bf <;> simp

/-! ### The search for a setpoint -/

variable [Double R] {af : AdvFunc R} {pqProf : SetExpr R} {b : AlignedBox R}

/-- The test of a point that has been drawn, on an interpreter that is new. -/
def trial (af : AdvFunc R) (depth : ℕ) (pqProf : SetExpr R) (b : AlignedBox R) (u : ℕ → R) :
    Outcome Err Bool := do
  let p ← coefficient (sample b u) 0
  let q ← coefficient (sample b u) 1
  (AdvFunc.testMembership depth pqProf [p, q] (fun _ => none) af).1

/-- The interpreter of the validator still answers as when it was new. -/
def Intact (af : AdvFunc R) (v : AdvValidator R) : Prop := af.LooksLike v.interpreter

theorem isMember_eq (pqProf : SetExpr R) (b : AlignedBox R) (hvalid : af.advValid = true)
    {v : AdvValidator R} (hv : Intact af v) (depth : ℕ) (u : ℕ → R) :
    ∃ v', isMember depth pqProf (sample b u) v = (trial af depth pqProf b u, v') ∧
      Intact af v' ∧ v'.drawn = v.drawn := by
  simp only [isMember, trial, coefficient]
  rcases (sample b u)[0]? with - | p
  · exact ⟨v, rfl, hv, rfl⟩
  rcases (sample b u)[1]? with - | q
  · exact ⟨v, rfl, hv, rfl⟩
  let query : Query R := .testMembership pqProf [p, q] fun _ => none
  have heq := hv.run_eq hvalid depth query
  exact ⟨{ v with interpreter := (query.run depth v.interpreter).2 }, Prod.ext heq rfl,
    hv.run depth query, rfl⟩

variable {draws : ℕ → ℕ → R} {depth fuel : ℕ}

/-- One draw. -/
theorem sampleSetpoint_succ (draws : ℕ → ℕ → R) (depth : ℕ) (pqProf : SetExpr R)
    (b : AlignedBox R) (fuel : ℕ) (hvalid : af.advValid = true) {v : AdvValidator R}
    (hv : Intact af v) : ∃ v', Intact af v' ∧ v'.drawn = v.drawn + 1 ∧
      sampleSetpoint draws depth pqProf b (fuel + 1) v
        = match trial af depth pqProf b (draws v.drawn) with
          | ok true => (ok (sample b (draws v.drawn)), v')
          | ok false => sampleSetpoint draws depth pqProf b fuel v'
          | .throw e => (.throw e, v')
          | outOfFuel => (outOfFuel, v') := by
  have hv₁ : Intact af { v with drawn := v.drawn + 1 } := hv
  obtain ⟨v', htest, hv', hdrawn⟩ := isMember_eq pqProf b hvalid hv₁ depth (draws v.drawn)
  refine ⟨v', hv', hdrawn, ?_⟩
  have hdraw : draw draws v = (ok (draws v.drawn), { v with drawn := v.drawn + 1 }) := rfl
  rw [sampleSetpoint, Run.bind_ok hdraw]
  rcases htrial : trial af depth pqProf b (draws v.drawn) with (- | -) | e | -
  all_goals rw [htrial] at htest
  · exact Run.bind_ok htest
  · exact Run.bind_ok htest
  · exact Run.bind_throw htest
  · exact Run.bind_outOfFuel htest

/-- **What is found is in the profile.** -/
theorem sampleSetpoint_returns (hvalid : af.advValid = true) {v : AdvValidator R}
    (hv : Intact af v) {r : List R}
    (h : (sampleSetpoint draws depth pqProf b fuel v).1 = ok r) :
    ∃ t, r = sample b (draws t) ∧ trial af depth pqProf b (draws t) = ok true := by
  induction fuel generalizing v with
  | zero => simp [sampleSetpoint] at h
  | succ fuel ih =>
    obtain ⟨v', hv', -, heq⟩ := sampleSetpoint_succ draws depth pqProf b fuel hvalid hv
    rw [heq] at h
    rcases htrial : trial af depth pqProf b (draws v.drawn) with (- | -) | e | -
    all_goals rw [htrial] at h
    · exact ih hv' h
    · exact ⟨v.drawn, (Outcome.ok.inj h).symm, htrial⟩
    · simp at h
    · simp at h

/-- **The search loops** while the test says no. -/
theorem search_loops (hvalid : af.advValid = true) {v : AdvValidator R} (hv : Intact af v)
    (h : ∀ t, trial af depth pqProf b (draws t) = ok false) :
    (sampleSetpoint draws depth pqProf b fuel v).1 = outOfFuel := by
  induction fuel generalizing v with
  | zero => rfl
  | succ fuel ih =>
    obtain ⟨v', hv', -, heq⟩ := sampleSetpoint_succ draws depth pqProf b fuel hvalid hv
    rw [heq, h v.drawn]
    exact ih hv'

/-- The search throws if the test of the first point does. -/
theorem search_throws (hvalid : af.advValid = true) {v : AdvValidator R} (hv : Intact af v)
    {e : Err} (h : trial af depth pqProf b (draws v.drawn) = .throw e) :
    (sampleSetpoint draws depth pqProf b (fuel + 1) v).1 = .throw e := by
  obtain ⟨v', -, -, heq⟩ := sampleSetpoint_succ draws depth pqProf b fuel hvalid hv
  rw [heq, h]

/-- If the same numbers are drawn again and again, the search throws only if their test does. -/
theorem of_search_throws (hvalid : af.advValid = true) {v : AdvValidator R} (hv : Intact af v)
    {u : ℕ → R} {e : Err}
    (h : (sampleSetpoint (fun _ => u) depth pqProf b fuel v).1 = .throw e) :
    trial af depth pqProf b u = .throw e := by
  induction fuel generalizing v with
  | zero => simp [sampleSetpoint] at h
  | succ fuel ih =>
    obtain ⟨v', hv', -, heq⟩ := sampleSetpoint_succ (fun _ => u) depth pqProf b fuel hvalid hv
    rw [heq] at h
    rcases htrial : trial af depth pqProf b u with (- | -) | e' | -
    all_goals rw [htrial] at h
    · exact htrial.symm.trans (ih hv' h)
    · simp at h
    · simpa using h
    · simp at h

/-! ### Profiles without points -/

/-- No point is in the profile. -/
def Unsatisfiable (af : AdvFunc R) (pqProf : SetExpr R) : Prop :=
  ∀ p, ¬ af.Accepts (fun _ => none) pqProf p

theorem Unsatisfiable.trial_ne (h : Unsatisfiable af pqProf) (u : ℕ → R) :
    trial af depth pqProf b u ≠ ok true := by
  intro htrial
  obtain ⟨p, -, htrial⟩ := bind_eq_ok.mp htrial
  obtain ⟨q, -, htrial⟩ := bind_eq_ok.mp htrial
  exact h [p, q] ⟨depth, htrial⟩

/-- The search finds nothing. -/
theorem Unsatisfiable.search_ne (h : Unsatisfiable af pqProf) (hvalid : af.advValid = true)
    {v : AdvValidator R} (hv : Intact af v) (draws : ℕ → ℕ → R) (b : AlignedBox R) (n : ℕ)
    (r : List R) : (sampleSetpoint draws n pqProf b n v).1 ≠ ok r := by
  intro hr
  obtain ⟨t, -, htrial⟩ := sampleSetpoint_returns hvalid hv hr
  exact h.trial_ne _ htrial

/-- The advertisement has all required fields, and `af` is its interpreter. -/
structure Complete (adv : Advertisement R) (pqProf : SetExpr R) (af : AdvFunc R) : Prop where
  pQProfile : adv.pQProfile = some pqProf
  costFunction : adv.costFunction.isSome
  beliefFunction : adv.beliefFunction.isSome
  implementedSetpoint : adv.implementedSetpoint.length = 2
  interpreter : AdvFunc.new adv = (ok (), af)

variable {adv : Advertisement R} {lp : LpSolver R}

/-- **The construction begins with a search**, and goes on if it returns. -/
theorem validator_searches (draws : ℕ → ℕ → R) (hadv : Complete adv pqProf af)
    (hhull : (AdvFunc.rectangularHull lp fuel pqProf (fun _ => none) af).1 = ok b) :
    ∃ v k, Intact af v ∧ v.drawn = 0 ∧ construct draws lp fuel adv
      = ((sampleSetpoint draws fuel pqProf b fuel >>= k) v).1 := by
  have hvalid := (AdvFunc.of_new hadv.interpreter).1
  let query : Query R := .rectangularHull lp pqProf fun _ => none
  let v : AdvValidator R := ⟨(query.run fuel af).2, 0⟩
  have hself : af.LooksLike af := ⟨hvalid, rfl, fun _ => rfl⟩
  have hset : ask (AdvFunc.setAdv adv) ⟨AdvFunc.blank, 0⟩ = (ok (), ⟨af, 0⟩) := by
    have hnew : AdvFunc.setAdv adv AdvFunc.blank = (ok (), af) := hadv.interpreter
    simp only [ask, hnew]
  have hcheck : checkDefinitions adv = ok () := checkDefinitions_eq_ok.mpr
    ⟨by rw [hadv.pQProfile]; rfl, hadv.costFunction, hadv.beliefFunction,
      hadv.implementedSetpoint⟩
  have hlift := Run.lift_apply (ok () : Outcome Err Unit) (⟨af, 0⟩ : AdvValidator R)
  have hbox : ask (AdvFunc.rectangularHull lp fuel pqProf fun _ => none) ⟨af, 0⟩ = (ok b, v) :=
    Prod.ext hhull rfl
  have hprof : adv.pQProfile.getD .default = pqProf := by
    rw [hadv.pQProfile]
    rfl
  rw [construct, new, Run.bind_ok hset, initAndValidate, hcheck, Run.bind_ok hlift, hprof,
    Run.bind_ok hbox]
  -- the first statement of the first turn of the first loop
  rw [show cfEvaluations = 99 + 1 from rfl, repeated]
  simp only [evalCostFuncOnRandomPoint, sampleValues, Run.bind_assoc]
  exact ⟨v, _, hself.run fuel query, rfl, rfl⟩

/-- The numbers are in the interval from 0 to 1. -/
def UnitNumbers (u : ℕ → R) : Prop := ∀ d, le 0 (u d) = true ∧ le (u d) 1 = true

/-- The construction ends by throwing an exception. -/
def EndsByThrowing (draws : ℕ → ℕ → R) (lp : LpSolver R) (adv : Advertisement R) : Prop :=
  ∃ e, IsException e ∧ ∃ n₀, ∀ n, n₀ ≤ n → construct draws lp n adv = .throw e

/-- At every point that can be drawn from the box, `testMembership` throws an exception. -/
def TestThrowsInBox (af : AdvFunc R) (pqProf : SetExpr R) (b : AlignedBox R) : Prop :=
  ∀ u, UnitNumbers u →
    ∃ e, IsException e ∧ ∃ n₀, ∀ n, n₀ ≤ n → trial af n pqProf b u = .throw e

/-- **Does validation end on a profile without points?**  For every sequence of draws, exactly
if the membership test throws all over the bounding box. -/
theorem validator_throws_iff (hadv : Complete adv pqProf af)
    (hhull : AdvFunc.Ends (fun n => AdvFunc.rectangularHull lp n pqProf fun _ => none) af (ok b))
    (hunsat : Unsatisfiable af pqProf) :
    (∀ draws : ℕ → ℕ → R, (∀ t, UnitNumbers (draws t)) → EndsByThrowing draws lp adv) ↔
      TestThrowsInBox af pqProf b := by
  have hvalid := (AdvFunc.of_new hadv.interpreter).1
  obtain ⟨n₁, hn₁⟩ := hhull
  constructor
  · intro h u hu
    obtain ⟨e, he, n₀, hn₀⟩ := h (fun _ => u) fun _ => hu
    refine ⟨e, he, max n₀ n₁, fun n hn => ?_⟩
    have hthrow := hn₀ n ((le_max_left _ _).trans hn)
    obtain ⟨v, k, hv, -, heq⟩ :=
      validator_searches (fun _ => u) hadv (hn₁ n ((le_max_right _ _).trans hn))
    have hnone := hunsat.search_ne hvalid hv (fun _ => u) b n
    rw [heq, Run.fst_bind_eq_throw hnone] at hthrow
    exact of_search_throws hvalid hv hthrow
  · intro h draws hdraws
    obtain ⟨e, he, n₀, hn₀⟩ := h (draws 0) (hdraws 0)
    refine ⟨e, he, max n₀ n₁ + 1, fun n hn => ?_⟩
    obtain ⟨n, rfl⟩ := Nat.exists_eq_add_of_le' ((Nat.succ_pos _).trans_le hn)
    obtain ⟨v, k, hv, hdrawn, heq⟩ := validator_searches draws hadv (hn₁ (n + 1) (by omega))
    rw [heq, Run.fst_bind_eq_throw (hunsat.search_ne hvalid hv draws b (n + 1))]
    exact search_throws hvalid hv (by rw [hdrawn]; exact hn₀ (n + 1) (by omega))

/-- On a profile without points, no number of draws is enough if the test always says no. -/
theorem validator_loops (hadv : Complete adv pqProf af)
    (hhull : (AdvFunc.rectangularHull lp fuel pqProf (fun _ => none) af).1 = ok b)
    (h : ∀ t, trial af fuel pqProf b (draws t) = ok false) :
    construct draws lp fuel adv = outOfFuel := by
  obtain ⟨v, k, hv, -, heq⟩ := validator_searches draws hadv hhull
  rw [heq]
  exact Run.fst_bind_outOfFuel (search_loops (AdvFunc.of_new hadv.interpreter).1 hv h)

end AdvValidator

/-! ### A disk and a square that do not meet -/

/-- The square from 4 to 6. -/
def cornerSquare : SetExpr ℝ :=
  .rectangle none [(.real none 4, .real none 6), (.real none 4, .real none 6)]

/-- The disk with radius 5 reaches into the square in each coordinate, but not in both. -/
noncomputable def missedSquare : SetExpr ℝ := .intersection none [disk 5, cornerSquare]

noncomputable def missedAdv : Advertisement ℝ where
  pQProfile := some missedSquare
  beliefFunction := some (.singleton none [.var none "P", .var none "Q"])
  costFunction := some (.real none 0)
  implementedSetpoint := [0, 0]

theorem collectable_missedAdv : missedAdv.Collectable := by
  refine ⟨?_, ?_, ?_⟩
  · show 10 ≤ 10000
    norm_num
  · show 3 ≤ 10000
    norm_num
  · show 1 ≤ 10000
    norm_num

theorem complete_missedAdv :
    ∃ af, AdvValidator.Complete missedAdv missedSquare af :=
  ⟨_, rfl, rfl, rfl, rfl, AdvFunc.setAdv_of_collectable collectable_missedAdv AdvFunc.blank⟩

section Missed

variable {af : AdvFunc ℝ} (hvalid : af.advValid = true)

include hvalid

/-- The box is not empty. -/
theorem hull_missedSquare (lp : LpSolver ℝ) (fuel : ℕ) :
    (AdvFunc.rectangularHull lp (fuel + 3) missedSquare (fun _ => none) af).1
      = ok ⟨[4, 4], [5, 5]⟩ := by
  have hbox : (AdvFunc.rectangularHull lp (fuel + 3) missedSquare (fun _ => none) af).1
      = ok ⟨[stdMax (0 - 5) (stdMin 4 6), stdMax (0 - 5) (stdMin 4 6)],
        [stdMin (0 + 5) (stdMax 4 6), stdMin (0 + 5) (stdMax 4 6)]⟩ := by
    rw [AdvFunc.rectangularHull, AdvFunc.query_fst hvalid]
    rfl
  rw [hbox]
  norm_num

theorem ends_hull_missedSquare (lp : LpSolver ℝ) :
    AdvFunc.Ends (fun n => AdvFunc.rectangularHull lp n missedSquare fun _ => none) af
      (ok ⟨[4, 4], [5, 5]⟩) := by
  refine ⟨3, fun n hn => ?_⟩
  obtain ⟨n, rfl⟩ := Nat.exists_eq_add_of_le' hn
  exact hull_missedSquare hvalid lp n

/-- The test says no, with the same fuel at every point. -/
theorem test_missedSquare (fuel : ℕ) (x y : ℝ) :
    (AdvFunc.testMembership (fuel + 3) missedSquare [x, y] (fun _ => none) af).1 = ok false := by
  have hreal (r : ℝ) : SpendsUpTo 1 r
      ((calls (methods (fun _ => none) af.realExprRefs) (fuel + 1)).eval (.real none r)) :=
    .of_spends (.of_metered (metered_real r)) le_rfl
  have hcorner : Tests 5 (Between [(4, 6), (4, 6)] [x, y])
      ((calls (methods (fun _ => none) af.realExprRefs) (fuel + 2)).membership cornerSquare
        [x, y]) :=
    tests_rectangle (N := 1) (.cons ⟨hreal 4, hreal 6⟩ (.cons ⟨hreal 4, hreal 6⟩ .nil)) rfl
  have hdisk := (tests_disk (fun _ => none) af.realExprRefs fuel 5 x y).mono
    (show 4 ≤ 5 by norm_num)
  obtain ⟨b, ⟨n, hn, hspends⟩, hb⟩ := tests_intersection (n := none)
    (.cons hdisk (.cons hcorner .nil))
  have hfalse : b = false := by
    rw [← Bool.not_eq_true, hb]
    rintro ⟨hle, hbetween⟩
    obtain ⟨⟨hx, -⟩, hy, -⟩ := between_pair.mp hbetween
    rw [min_eq_left (by norm_num)] at hx hy
    simp only [id] at hle
    nlinarith
  rw [← hfalse]
  exact hspends.query hvalid (hn.trans (by norm_num [MAX_NESTING_DEPTH]))

theorem unsatisfiable_missedSquare : AdvValidator.Unsatisfiable af missedSquare := by
  rintro p ⟨fuel, hp⟩
  have hdisk := (Env.memberSem_intersection_eq_true _ _ _).mp
    (AdvFunc.Accepts.memberSem hvalid ⟨fuel, hp⟩) (disk 5) (by simp)
  -- the disk checks the number of coordinates
  rw [disk, Env.memberSem_ball] at hdisk
  obtain ⟨u, hlen, -⟩ := bind_eq_ok.mp hdisk
  have hlen : p.length = 2 := by simpa using assert_eq_ok hlen
  obtain ⟨x, y, rfl⟩ := List.length_eq_two.mp hlen
  have hmono := AdvFunc.testMembership_mono hvalid (Nat.le_add_right fuel 3) hp
  rw [test_missedSquare hvalid] at hmono
  simp at hmono

end Missed

theorem validator_throws_iff_missed : ∃ af,
    (∀ draws : ℕ → ℕ → ℝ, (∀ t, AdvValidator.UnitNumbers (draws t)) →
      AdvValidator.EndsByThrowing draws echoLp missedAdv) ↔
    AdvValidator.TestThrowsInBox af missedSquare ⟨[4, 4], [5, 5]⟩ := by
  obtain ⟨af, hadv⟩ := complete_missedAdv
  have hvalid := (AdvFunc.of_new hadv.interpreter).1
  exact ⟨af, AdvValidator.validator_throws_iff hadv (ends_hull_missedSquare hvalid echoLp)
    (unsatisfiable_missedSquare hvalid)⟩

/-- **The validator hangs** on this advertisement: its profile has a box and no point, and
whatever is drawn, no number of draws is enough. -/
theorem missedAdv_loops : ∃ af, AdvValidator.Complete missedAdv missedSquare af ∧
    (∀ lp, AdvFunc.Ends (fun n => AdvFunc.rectangularHull lp n missedSquare fun _ => none) af
      (ok ⟨[4, 4], [5, 5]⟩)) ∧
    AdvValidator.Unsatisfiable af missedSquare ∧
    ∀ lp draws, (∀ n, 3 ≤ n → AdvValidator.construct draws lp n missedAdv = outOfFuel) ∧
      ¬ AdvValidator.EndsByThrowing draws lp missedAdv := by
  obtain ⟨af, hadv⟩ := complete_missedAdv
  have hvalid := (AdvFunc.of_new hadv.interpreter).1
  have hloops : ∀ lp draws n, 3 ≤ n →
      AdvValidator.construct draws lp n missedAdv = outOfFuel := by
    intro lp draws n hn
    obtain ⟨n, rfl⟩ := Nat.exists_eq_add_of_le' hn
    refine AdvValidator.validator_loops hadv (hull_missedSquare hvalid lp n) fun t => ?_
    exact test_missedSquare hvalid n _ _
  refine ⟨af, hadv, ends_hull_missedSquare hvalid, unsatisfiable_missedSquare hvalid,
    fun lp draws => ⟨hloops lp draws, ?_⟩⟩
  rintro ⟨e, -, n₀, hthrow⟩
  have h := hthrow (max n₀ 3) (le_max_left _ _)
  rw [hloops lp draws _ (le_max_right _ _)] at h
  simp at h

end Commelec
