/-
Commelec/DebugMode.lean

What the debug mode of the daemon is good for (`serializeAndAsyncSend` with `debug`, and the
constructor of `AdvValidator` that it calls before it sends).

* `new_passes` — an advertisement that the validator lets through is complete, and has a setpoint
  at which its cost function has a value, and one at which its belief function has a box;
* `debug_sends_passing` — **nothing else is sent in debug mode**: in every run of the daemon,
  whatever the resource agent says, and also when a coroutine has come to an end.
-/
import Commelec.AdvValidation
import Commelec.BoundingBox
import Commelec.Coroutines

namespace Commelec

open Effectful Outcome Double

variable {R : Type} [Double R]

namespace AdvValidator

/-- What the validator has found out: the advertisement is complete, its profile has a box, and
there are setpoints in the profile at which the two functions can be evaluated. -/
structure Passes (lp : LpSolver R) (fuel : ℕ) (adv : Advertisement R) (pqProf : SetExpr R)
    (af : AdvFunc R) : Prop extends Complete adv pqProf af where
  box : ∃ b, (AdvFunc.rectangularHull lp fuel pqProf (fun _ => none) af).1 = ok b
  cost : ∃ p q v, af.Accepts (fun _ => none) pqProf [p, q] ∧
    (AdvFunc.evaluate fuel (adv.costFunction.getD .default) (bindPQ p q) af).1 = ok v
  belief : ∃ p q b, af.Accepts (fun _ => none) pqProf [p, q] ∧
    (AdvFunc.rectangularHull lp fuel (adv.beliefFunction.getD .default) (bindPQ p q) af).1 = ok b ∧
      b.min.length = 2 ∧ b.max.length = 2

variable {af : AdvFunc R} {pqProf : SetExpr R} {b : AlignedBox R} {draws : ℕ → ℕ → R}
variable {depth fuel : ℕ} {lp : LpSolver R} {v v' : AdvValidator R}

/-- A query is answered as by a new interpreter. -/
theorem ask_ok (hvalid : af.advValid = true) (hv : Intact af v) (q : Query R) {x : q.Result}
    (h : ask (q.run fuel) v = (ok x, v')) : Intact af v' ∧ (q.run fuel af).1 = ok x := by
  obtain ⟨hfst, rfl⟩ := Prod.mk.inj h
  exact ⟨hv.run fuel q, (hv.run_eq hvalid fuel q).symm.trans hfst⟩

/-- A test that has said yes. -/
theorem accepts_of_trial {u : ℕ → R} (h : trial af depth pqProf b u = ok true) :
    ∃ p q, (sample b u)[0]? = some p ∧ (sample b u)[1]? = some q ∧
      af.Accepts (fun _ => none) pqProf [p, q] := by
  rw [trial] at h
  obtain ⟨p, hp, h⟩ := bind_eq_ok.mp h
  obtain ⟨q, hq, h⟩ := bind_eq_ok.mp h
  exact ⟨p, q, coefficient_cases hp, coefficient_cases hq, depth, h⟩

/-- **The search**: what it returns is in the profile. -/
theorem sampleSetpoint_ok (hvalid : af.advValid = true) (hv : Intact af v) {r : List R}
    (h : sampleSetpoint draws depth pqProf b fuel v = (ok r, v')) :
    Intact af v' ∧ ∃ p q, r[0]? = some p ∧ r[1]? = some q ∧
      af.Accepts (fun _ => none) pqProf [p, q] := by
  induction fuel generalizing v with
  | zero => cases h
  | succ fuel ih =>
    obtain ⟨v₁, hv₁, -, heq⟩ := sampleSetpoint_succ draws depth pqProf b fuel hvalid hv
    rw [heq] at h
    rcases htrial : trial af depth pqProf b (draws v.drawn) with (- | -) | e | -
    all_goals rw [htrial] at h
    · exact ih hv₁ h
    · obtain ⟨hr, rfl⟩ := Prod.mk.inj h
      obtain rfl := Outcome.ok.inj hr
      exact ⟨hv₁, accepts_of_trial htrial⟩
    · cases h
    · cases h

theorem sampleValues_ok (hvalid : af.advValid = true) (hv : Intact af v) {values : ValueMap R}
    (h : sampleValues draws fuel pqProf b v = (ok values, v')) :
    Intact af v' ∧ ∃ p q, values = bindPQ p q ∧ af.Accepts (fun _ => none) pqProf [p, q] := by
  rw [sampleValues] at h
  obtain ⟨r, v₁, hr, h⟩ := Run.bind_eq_ok.mp h
  obtain ⟨hv₁, p, q, hp, hq, haccepts⟩ := sampleSetpoint_ok hvalid hv hr
  simp only [coefficient, hp, hq] at h
  obtain ⟨hvalues, rfl⟩ := Prod.mk.inj h
  exact ⟨hv₁, p, q, (Outcome.ok.inj hvalues).symm, haccepts⟩

/-- A turn of the first loop. -/
theorem costTurn_ok (hvalid : af.advValid = true) {e : RealExpr R} (v v' : AdvValidator R)
    (hv : Intact af v)
    (h : (do
      let _ ← evalCostFuncOnRandomPoint draws fuel pqProf b e : Run (AdvValidator R) Err Unit) v
        = (ok (), v')) :
    Intact af v' ∧ ∃ p q x, af.Accepts (fun _ => none) pqProf [p, q] ∧
      (AdvFunc.evaluate fuel e (bindPQ p q) af).1 = ok x := by
  obtain ⟨x, v₁, hx, h⟩ := Run.bind_eq_ok.mp h
  obtain ⟨-, rfl⟩ := Prod.mk.inj h
  rw [evalCostFuncOnRandomPoint] at hx
  obtain ⟨values, v₂, hvalues, hx⟩ := Run.bind_eq_ok.mp hx
  obtain ⟨hv₂, p, q, rfl, haccepts⟩ := sampleValues_ok hvalid hv hvalues
  obtain ⟨hv', hvalue⟩ := ask_ok hvalid hv₂ (.evaluate e (bindPQ p q)) hx
  exact ⟨hv', p, q, x, haccepts, hvalue⟩

/-- A turn of the second loop. -/
theorem beliefTurn_ok (hvalid : af.advValid = true) {s : SetExpr R} (v v' : AdvValidator R)
    (hv : Intact af v)
    (h : (do
      let box ← evalBeliefBoxOnRandomPoint draws lp fuel pqProf b s
      assert (box.min.length = 2 && box.max.length = 2) : Run (AdvValidator R) Err Unit) v
        = (ok (), v')) :
    Intact af v' ∧ ∃ p q box, af.Accepts (fun _ => none) pqProf [p, q] ∧
      (AdvFunc.rectangularHull lp fuel s (bindPQ p q) af).1 = ok box ∧
        box.min.length = 2 ∧ box.max.length = 2 := by
  obtain ⟨box, v₁, hbox, h⟩ := Run.bind_eq_ok.mp h
  rw [evalBeliefBoxOnRandomPoint] at hbox
  obtain ⟨values, v₂, hvalues, hbox⟩ := Run.bind_eq_ok.mp hbox
  obtain ⟨hv₂, p, q, rfl, haccepts⟩ := sampleValues_ok hvalid hv hvalues
  obtain ⟨hv₁, hvalue⟩ := ask_ok hvalid hv₂ (.rectangularHull lp s (bindPQ p q)) hbox
  rw [assert] at h
  split at h
  · next hdim =>
    obtain ⟨-, rfl⟩ := Prod.mk.inj h
    rw [Bool.and_eq_true, decide_eq_true_iff, decide_eq_true_iff] at hdim
    exact ⟨hv₁, p, q, box, haccepts, hvalue, hdim.1, hdim.2⟩
  · cases h

omit [Double R] in
/-- **A loop** keeps what each turn keeps, and has found out what a turn finds out. -/
theorem repeated_ok {body : Run (AdvValidator R) Err Unit} {found : Prop}
    (hbody : ∀ v v', Intact af v → body v = (ok (), v') → Intact af v' ∧ found) {n : ℕ}
    (hv : Intact af v) (h : repeated n body v = (ok (), v')) :
    Intact af v' ∧ (n ≠ 0 → found) := by
  induction n generalizing v with
  | zero =>
    obtain ⟨-, rfl⟩ := Prod.mk.inj h
    exact ⟨hv, fun hn => absurd rfl hn⟩
  | succ n ih =>
    rw [repeated] at h
    obtain ⟨_, v₁, hfirst, h⟩ := Run.bind_eq_ok.mp h
    obtain ⟨hv₁, hfound⟩ := hbody v v₁ hv hfirst
    exact ⟨(ih hv₁ h).1, fun _ => hfound⟩

variable {adv : Advertisement R}

/-- **What is let through.** -/
theorem new_passes {n : ℕ} (h : (new draws lp fuel adv ⟨AdvFunc.blank, n⟩).1 = ok ()) :
    ∃ pqProf af, Passes lp fuel adv pqProf af := by
  obtain ⟨_, v₁, hset, h⟩ := Run.of_bind_ok h
  obtain ⟨hnew, rfl⟩ := Prod.mk.inj hset
  obtain ⟨_, v₂, hlift, h⟩ := Run.of_bind_ok h
  rw [Run.lift_apply] at hlift
  obtain ⟨hcheck, rfl⟩ := Prod.mk.inj hlift
  obtain ⟨hpq, hcf, hbf, hsetpoint⟩ := checkDefinitions_eq_ok.mp hcheck
  obtain ⟨pqProf, hpqProf⟩ := Option.isSome_iff_exists.mp hpq
  have hget : adv.pQProfile.getD .default = pqProf := by
    rw [hpqProf]
    rfl
  have hadv : Complete adv pqProf (AdvFunc.setAdv adv AdvFunc.blank).2 :=
    ⟨hpqProf, hcf, hbf, hsetpoint, Prod.ext hnew rfl⟩
  simp only [hget] at h
  generalize (AdvFunc.setAdv adv AdvFunc.blank).2 = af at hadv h
  have hvalid := (AdvFunc.of_new hadv.interpreter).1
  have hself : Intact af ⟨af, n⟩ := ⟨hvalid, rfl, fun _ => rfl⟩
  obtain ⟨b, v₃, hbox, h⟩ := Run.of_bind_ok h
  obtain ⟨hv₃, hbox⟩ := ask_ok hvalid hself (.rectangularHull lp pqProf fun _ => none) hbox
  obtain ⟨_, v₄, hcost, h⟩ := Run.of_bind_ok h
  obtain ⟨hv₄, hcost⟩ := repeated_ok (costTurn_ok hvalid) hv₃ hcost
  obtain ⟨-, hbelief⟩ := repeated_ok (beliefTurn_ok hvalid) hv₄ (Prod.ext h rfl)
  exact ⟨pqProf, af, hadv, ⟨b, hbox⟩, hcost (by decide), hbelief (by decide)⟩

end AdvValidator

/-! ### The daemon -/

section Daemon

variable {Endpoint : Type} {daemon : CommelecDaemon Endpoint} {lib : Libraries R}

/-- The packet holds an advertisement that the validator lets through. -/
def Validated (lib : Libraries R) (packet : List UInt8) : Prop :=
  ∃ agentId adv pqProf af,
    lib.reader.getMessage packet = ok ⟨agentId, .advertisement (some adv)⟩ ∧
      AdvValidator.Passes lib.lp lib.fuel adv pqProf af

theorem validate_eq {buf : List UInt8} {msg : Message R} {d : DaemonData}
    (hmsg : lib.reader.getMessage buf = ok msg) {x : Outcome Err Unit} {v : AdvValidator R}
    (h : AdvValidator.ofMessage lib.draws lib.lp lib.fuel msg ⟨AdvFunc.blank, d.drawn⟩ = (x, v)) :
    validate lib buf d = (x, { d with drawn := v.drawn }) := by
  have hlift := Run.lift_apply (ok msg : Outcome Err (Message R))
    (⟨AdvFunc.blank, d.drawn⟩ : AdvValidator R)
  rw [validate, hmsg]
  simp only [Run.bind_ok hlift, h]

theorem validate_ok {buf : List UInt8} {d d' : DaemonData}
    (h : validate lib buf d = (ok (), d')) : Validated lib buf := by
  obtain ⟨hvalidated, -⟩ := Prod.mk.inj h
  obtain ⟨⟨agentId, body⟩, v, hlift, hnew⟩ := Run.of_bind_ok hvalidated
  rw [Run.lift_apply] at hlift
  obtain ⟨hmsg, rfl⟩ := Prod.mk.inj hlift
  rcases body with req | (- | adv) | which
  · cases hnew
  · cases hnew
  · obtain ⟨pqProf, af, hpasses⟩ := AdvValidator.new_passes hnew
    exact ⟨agentId, adv, pqProf, af, hmsg, hpasses⟩
  · cases hnew

/-- **One datagram** in debug mode. -/
theorem forwardParameters_validated (hdebug : daemon.debug = true) {datagram packet : List UInt8}
    {d d' : DaemonData} (h : forwardParameters daemon lib datagram d = (ok packet, d')) :
    Validated lib packet := by
  have hvalidate (buf : List UInt8) : validateIfDebug daemon lib buf = validate lib buf :=
    if_pos hdebug
  obtain ⟨bytesReceived, d₁, -, h⟩ := Run.bind_eq_ok.mp h
  split at h
  · -- the bytes that have been received are checked, and sent
    obtain ⟨data, d₂, hdata, h⟩ := Run.bind_eq_ok.mp h
    rw [hvalidate] at h
    obtain ⟨_, d₃, hok, hpure⟩ := Run.bind_eq_ok.mp h
    obtain ⟨hpacket, -⟩ := Prod.mk.inj hpure
    rw [← Outcome.ok.inj hpacket]
    exact validate_ok hok
  · rw [packParameters] at h
    obtain ⟨_, d₂, -, h⟩ := Run.bind_eq_ok.mp h
    obtain ⟨data, d₃, -, h⟩ := Run.bind_eq_ok.mp h
    obtain ⟨msg, d₄, -, h⟩ := Run.bind_eq_ok.mp h
    rw [hvalidate] at h
    obtain ⟨_, d₅, hok, hpure⟩ := Run.bind_eq_ok.mp h
    obtain ⟨hpacket, -⟩ := Prod.mk.inj hpure
    rw [← Outcome.ok.inj hpacket]
    exact validate_ok hok

variable {onArm : Bool} {data : DaemonData} {s : DaemonState R Endpoint} {es : List DaemonEvent}
variable {os : List ((Forwarded R × Endpoint) ⊕ (List UInt8 × Endpoint))}

end Daemon

/-! ### A device on standby -/

/-- The point without power. -/
def standby : SetExpr ℝ := .singleton none [.real none 0, .real none 0]

def standbyAdv : Advertisement ℝ where
  pQProfile := some standby
  beliefFunction := some standby
  costFunction := some (.real none 1)
  implementedSetpoint := [0, 0]

/-- For this reader, one byte stands for the advertisement. -/
def standbyReader : CapnpReader ℝ := .ofInput [1] (ok ⟨1, .advertisement (some standbyAdv)⟩)

noncomputable def standbyLibraries : Libraries ℝ :=
  ⟨standbyReader, default, fun _ => none, fun _ _ => .outOfFuel, fun _ _ => 0, 0, 2⟩

/-- A daemon in debug mode that forwards advertisements as they are. -/
def debugDaemon : CommelecDaemon ℕ := ⟨true, 1, .custom, [], [5]⟩

namespace AdvValidator

/-- All turns of a loop. -/
theorem exists_repeated {body : Run (AdvValidator ℝ) Err Unit} {P : AdvValidator ℝ → Prop}
    (hbody : ∀ v, P v → ∃ v', body v = (ok (), v') ∧ P v') (n : ℕ) {v : AdvValidator ℝ}
    (hv : P v) : ∃ v', repeated n body v = (ok (), v') ∧ P v' := by
  induction n generalizing v with
  | zero => exact ⟨v, rfl, hv⟩
  | succ n ih =>
    obtain ⟨v₁, hfirst, hv₁⟩ := hbody v hv
    rw [repeated, Run.bind_ok hfirst]
    exact ih hv₁

variable {v : AdvValidator ℝ} (hv : v.interpreter.advValid = true)

include hv

theorem hull_standby (bv : ValueMap ℝ) : ∃ v',
    ask (AdvFunc.rectangularHull (fun _ _ => .outOfFuel) 2 standby bv) v
      = (ok ⟨[0, 0], [0, 0]⟩, v') ∧ v'.interpreter.advValid = true := by
  rw [ask, AdvFunc.rectangularHull, AdvFunc.query, if_pos hv]
  exact ⟨_, rfl, hv⟩

/-- The first point that is drawn is the right one. -/
theorem values_standby : ∃ v', sampleValues (fun _ _ => 0) 2 standby ⟨[0, 0], [0, 0]⟩ v
    = (ok (bindPQ 0 0), v') ∧ v'.interpreter.advValid = true := by
  have hsample : sample ⟨[0, 0], [0, 0]⟩ (fun _ => (0 : ℝ)) = [0, 0] := by simp [sample]
  obtain ⟨v', htest, hv'⟩ : ∃ v', isMember 2 standby [0, 0] { v with drawn := v.drawn + 1 }
      = (ok true, v') ∧ v'.interpreter.advValid = true := by
    have hself : isApprox [0, 0] [(0 : ℝ), 0] = true := isApprox_self _
    show ∃ v', ask (AdvFunc.testMembership 2 standby [0, 0] fun _ => none) _ = (ok true, v') ∧ _
    rw [ask, AdvFunc.testMembership, AdvFunc.query, if_pos hv]
    exact ⟨_, Prod.ext (congrArg ok hself) rfl, hv⟩
  have hpoint : sampleSetpoint (fun _ _ => 0) 2 standby ⟨[0, 0], [0, 0]⟩ 2 v = (ok [0, 0], v') := by
    have hdraw : draw (fun _ _ => (0 : ℝ)) v
        = (ok fun _ => 0, { v with drawn := v.drawn + 1 }) := rfl
    rw [sampleSetpoint, Run.bind_ok hdraw, hsample]
    exact Run.bind_ok htest
  rw [sampleValues, Run.bind_ok hpoint]
  exact ⟨v', rfl, hv'⟩

theorem costTurn_standby : ∃ v',
    (do let _ ← evalCostFuncOnRandomPoint (fun _ _ => 0) 2 standby ⟨[0, 0], [0, 0]⟩ (.real none 1) :
      Run (AdvValidator ℝ) Err Unit) v = (ok (), v') ∧ v'.interpreter.advValid = true := by
  obtain ⟨v₁, hvalues, hv₁⟩ := values_standby hv
  obtain ⟨v₂, hvalue, hv₂⟩ : ∃ v₂, ask (AdvFunc.evaluate 2 (.real none 1) (bindPQ 0 0)) v₁
      = (ok 1, v₂) ∧ v₂.interpreter.advValid = true := by
    rw [ask, AdvFunc.evaluate, AdvFunc.query, if_pos hv₁]
    exact ⟨_, rfl, hv₁⟩
  refine ⟨v₂, ?_, hv₂⟩
  rw [evalCostFuncOnRandomPoint, Run.bind_assoc, Run.bind_ok hvalues, Run.bind_ok hvalue]
  rfl

theorem beliefTurn_standby : ∃ v',
    (do
      let box ← evalBeliefBoxOnRandomPoint (fun _ _ => 0) (fun _ _ => .outOfFuel) 2 standby
        ⟨[0, 0], [0, 0]⟩ standby
      assert (box.min.length = 2 && box.max.length = 2) : Run (AdvValidator ℝ) Err Unit) v
        = (ok (), v') ∧ v'.interpreter.advValid = true := by
  obtain ⟨v₁, hvalues, hv₁⟩ := values_standby hv
  obtain ⟨v₂, hbox, hv₂⟩ := hull_standby hv₁ (bindPQ 0 0)
  refine ⟨v₂, ?_, hv₂⟩
  rw [evalBeliefBoxOnRandomPoint, Run.bind_assoc, Run.bind_ok hvalues, Run.bind_ok hbox]
  rfl

omit hv in
/-- **The validator lets it through.** -/
theorem new_standby (n : ℕ) : ∃ v', new (fun _ _ => 0) (fun _ _ => .outOfFuel) 2 standbyAdv
    ⟨AdvFunc.blank, n⟩ = (ok (), v') := by
  have hcollectable : standbyAdv.Collectable :=
    ⟨Nat.le_of_ble_eq_true rfl, Nat.le_of_ble_eq_true rfl, Nat.le_of_ble_eq_true rfl⟩
  obtain ⟨v₁, hset, hv₁⟩ : ∃ v₁, ask (AdvFunc.setAdv standbyAdv) ⟨AdvFunc.blank, n⟩
      = (ok (), v₁) ∧ v₁.interpreter.advValid = true := by
    rw [ask, AdvFunc.setAdv_of_collectable hcollectable]
    exact ⟨_, rfl, rfl⟩
  obtain ⟨v₂, hbox, hv₂⟩ := hull_standby hv₁ fun _ => none
  obtain ⟨v₃, hcost, hv₃⟩ := exists_repeated (fun _ => costTurn_standby) cfEvaluations hv₂
  obtain ⟨v₄, hbelief, -⟩ := exists_repeated (fun _ => beliefTurn_standby) bfEvaluations hv₃
  rw [new, Run.bind_ok hset]
  show ∃ v', ((ask (AdvFunc.rectangularHull (fun _ _ => .outOfFuel) 2 standby fun _ => none)
    >>= _) : Run (AdvValidator ℝ) Err Unit) v₁ = (ok (), v')
  rw [Run.bind_ok hbox]
  exact ⟨v₄, (Run.bind_ok hcost).trans hbelief⟩

end AdvValidator

/-- The byte is forwarded after it has been checked. -/
theorem forwardParameters_standby : ∃ d',
    forwardParameters debugDaemon standbyLibraries [1] noData = (ok [1], d') := by
  let d : DaemonData := { noData with local_data := noData.local_data.overwrite [1] }
  obtain ⟨v', hnew⟩ := AdvValidator.new_standby d.drawn
  have hmsg : standbyReader.getMessage [1] = ok ⟨1, .advertisement (some standbyAdv)⟩ :=
    StreamReader.read_ofInput _ _ _
  have hof : AdvValidator.ofMessage standbyLibraries.draws standbyLibraries.lp
      standbyLibraries.fuel ⟨1, .advertisement (some standbyAdv)⟩ ⟨AdvFunc.blank, d.drawn⟩
        = (ok (), v') := by
    rw [AdvValidator.ofMessage]
    exact hnew
  have hvalidate : validate standbyLibraries [1] d = (ok (), { d with drawn := v'.drawn }) :=
    validate_eq hmsg hof
  have hreceive : receiveLocal [1] noData = (ok 1, d) := rfl
  have hlocal : localBytes d = (ok d.local_data.data, d) := rfl
  have hdata : d.local_data.data.take 1 = [1] := rfl
  have hcustom : debugDaemon.resourceType = .custom := rfl
  have hdebug : validateIfDebug debugDaemon standbyLibraries [1] = validate standbyLibraries [1] :=
    if_pos rfl
  rw [forwardParameters, Run.bind_ok hreceive, if_pos hcustom, Run.bind_ok hlocal, hdata, hdebug]
  exact ⟨_, Run.bind_ok hvalidate⟩

end Commelec
