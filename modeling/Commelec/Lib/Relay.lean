/-
Commelec/Lib/Relay.lean

Loops that receive inputs and send packets, while other loops run in between.  The library
names nothing of the program it is used for.

A `Relay` waits for an input, works on it, and makes a number of sends, one after the other.
While it waits, and while a send is under way, it is suspended.  What a send hands out is read
from the state of the relay only when the send is over, so it might have changed by then.

* `Relay.round` — the work on an input, and all its sends at once;
* `run_delivers` — **suspension makes no difference**: what has been sent, followed by what is
  still to be sent, is what the rounds for the inputs send, one after the other;
* `run_ends` — a relay that has come to an end has sent nothing else;
* `run_emits` — what is sent has been accepted, in any run;
* `fanOut` — a relay that sends one packet for each input, to several destinations.
-/
import Commelec.Lib.Effects
import Commelec.Lib.Machine

namespace Effectful

open Outcome

/-- A loop that receives inputs and makes sends `τ`; a send hands out a packet `ο`, and is told
`α` when it is over. -/
structure Relay (σ ι τ α ο ε : Type) where
  /-- the work on an input, up to its first send -/
  accept : ι → Run σ ε (List τ)
  emit : τ → σ → ο
  /-- the exception that is raised after a send, if any -/
  check : τ → α → Option ε

namespace Relay

variable {σ ι τ α ο ε : Type}

inductive Mode (τ ε : Type) where
  | waiting
  | sending (send : τ) (rest : List τ)
  | ended (e : ε)
  /-- the work on an input goes on forever -/
  | hung

structure State (σ τ ε : Type) where
  data : σ
  mode : Mode τ ε

/-- What a suspended relay is told. -/
inductive Event (ι α ε : Type) where
  | input (i : ι)
  /-- the send under way is over -/
  | answer (a : α)
  /-- it could not be made, or nothing could be received -/
  | fault (e : ε)

/-- Up to the next suspension. -/
def Mode.resume : List τ → Mode τ ε
  | [] => .waiting
  | send :: rest => .sending send rest

def Mode.ofOutcome : Outcome ε (List τ) → Mode τ ε
  | .ok sends => .resume sends
  | .throw e => .ended e
  | .outOfFuel => .hung

def Mode.todo : Mode τ ε → List τ
  | .sending send rest => send :: rest
  | _ => []

/-- The relay has not come to an end. -/
def Mode.Live : Mode τ ε → Prop
  | .waiting | .sending _ _ => True
  | .ended _ | .hung => False

theorem Mode.todo_resume (sends : List τ) : (Mode.resume sends : Mode τ ε).todo = sends := by
  cases sends <;> rfl

theorem Mode.live_resume (sends : List τ) : (Mode.resume sends : Mode τ ε).Live := by
  cases sends <;> exact trivial

def step (r : Relay σ ι τ α ο ε) : Machine (State σ τ ε) (Event ι α ε) ο
  | .input i, ⟨data, .waiting⟩ =>
    let x := r.accept i data
    some (⟨x.2, .ofOutcome x.1⟩, [])
  | .answer a, ⟨data, .sending send rest⟩ =>
    some (⟨data, (r.check send a).elim (.resume rest) .ended⟩, [r.emit send data])
  | .fault e, ⟨data, .waiting⟩ => some (⟨data, .ended e⟩, [])
  | .fault e, ⟨data, .sending _ _⟩ => some (⟨data, .ended e⟩, [])
  | _, _ => none

def sendAll (r : Relay σ ι τ α ο ε) (sends : List τ) : Run σ ε (List ο) := fun data =>
  (ok (sends.map (r.emit · data)), data)

/-- The work on an input and its sends, without suspension. -/
def round (r : Relay σ ι τ α ο ε) (i : ι) : Run σ ε (List ο) := do
  let sends ← r.accept i
  r.sendAll sends

def inputs : List (Event ι α ε) → List ι :=
  List.filterMap fun
    | .input i => some i
    | _ => none

/-- What is still to be sent. -/
def pending (r : Relay σ ι τ α ο ε) (s : State σ τ ε) : List ο := s.mode.todo.map (r.emit · s.data)

variable {r : Relay σ ι τ α ο ε} {s s' : State σ τ ε} {es : List (Event ι α ε)} {os : List ο}

/-- A relay that has come to an end does not react. -/
theorem step_eq_none (e : Event ι α ε) (h : ¬ s.mode.Live) : r.step e s = none := by
  obtain ⟨data, mode⟩ := s
  cases mode with
  | waiting => exact absurd trivial h
  | sending send rest => exact absurd trivial h
  | ended e' => cases e <;> rfl
  | hung => cases e <;> rfl

theorem live_of_run (h : r.step.run es s = some (s', os)) (hlive : s'.mode.Live) : s.mode.Live := by
  cases es with
  | nil =>
    obtain ⟨rfl, -⟩ : s = s' ∧ [] = os := by simpa [Machine.run] using h
    exact hlive
  | cons e es =>
    obtain ⟨s₁, os₁, os₂, he, -, -⟩ := Machine.run_cons.mp h
    by_contra hdead
    rw [step_eq_none e hdead] at he
    cases he

/-- **What a step can be**: the work on an input, the end of a send, or a wait in vain. -/
theorem step_cases {e : Event ι α ε} {s₁ : State σ τ ε} {os₁ : List ο}
    (h : r.step e s = some (s₁, os₁)) :
    (∃ i x, e = .input i ∧ r.pending s = [] ∧ os₁ = [] ∧ r.accept i s.data = (x, s₁.data) ∧
        s₁.mode = .ofOutcome x) ∨
      (∃ a send rest, e = .answer a ∧ os₁ = [r.emit send s.data] ∧
        r.pending s = r.emit send s.data :: rest.map (r.emit · s.data) ∧
        s₁ = ⟨s.data, (r.check send a).elim (.resume rest) .ended⟩) ∨
      ∃ e', e = .fault e' ∧ os₁ = [] ∧ s₁ = ⟨s.data, .ended e'⟩ := by
  obtain ⟨data, mode⟩ := s
  cases e with
  | input i =>
    cases mode with
    | waiting =>
      obtain ⟨rfl, rfl⟩ := Prod.mk.inj (Option.some.inj h)
      -- only a waiting relay takes an input
      exact .inl ⟨i, (r.accept i data).1, rfl, rfl, rfl, rfl, rfl⟩
    | sending send rest => cases h
    | ended e => cases h
    | hung => cases h
  | answer a =>
    cases mode with
    | waiting => cases h
    | sending send rest =>
      obtain ⟨rfl, rfl⟩ := Prod.mk.inj (Option.some.inj h)
      exact .inr (.inl ⟨a, send, rest, rfl, rfl, rfl, rfl⟩)
    | ended e => cases h
    | hung => cases h
  | fault e =>
    cases mode with
    | waiting =>
      obtain ⟨rfl, rfl⟩ := Prod.mk.inj (Option.some.inj h)
      exact .inr (.inr ⟨e, rfl, rfl, rfl⟩)
    | sending send rest =>
      obtain ⟨rfl, rfl⟩ := Prod.mk.inj (Option.some.inj h)
      exact .inr (.inr ⟨e, rfl, rfl, rfl⟩)
    | ended e' => cases h
    | hung => cases h

theorem round_ok {i : ι} {data data' : σ} {sends : List τ}
    (h : r.accept i data = (ok sends, data')) :
    r.round i data = (ok (sends.map (r.emit · data')), data') := by
  rw [round, Run.bind_ok h, sendAll]

theorem inputs_append (es es' : List (Event ι α ε)) :
    inputs (es ++ es') = inputs es ++ inputs es' :=
  List.filterMap_append

/-- **A step of a relay that goes on**: the work on an input, or a send. -/
theorem step_live {e : Event ι α ε} {s₁ : State σ τ ε} {os₁ : List ο}
    (h : r.step e s = some (s₁, os₁)) (hlive : s₁.mode.Live) :
    (∃ i sent, inputs [e] = [i] ∧ r.round i s.data = (ok sent, s₁.data) ∧
        r.pending s = [] ∧ os₁ = [] ∧ r.pending s₁ = sent) ∨
      (inputs [e] = [] ∧ s₁.data = s.data ∧ os₁ ++ r.pending s₁ = r.pending s) := by
  rcases step_cases h with ⟨i, x, rfl, hpending, rfl, haccept, hmode⟩ |
    ⟨a, send, rest, rfl, rfl, hpending, rfl⟩ | ⟨e', rfl, -, rfl⟩
  · cases x with
    | ok sends =>
      refine .inl ⟨i, _, rfl, round_ok haccept, hpending, rfl, ?_⟩
      rw [pending, hmode, Mode.ofOutcome, Mode.todo_resume]
    | throw e =>
      rw [hmode] at hlive
      exact hlive.elim
    | outOfFuel =>
      rw [hmode] at hlive
      exact hlive.elim
  · rcases hcheck : r.check send a with - | e
    · refine .inr ⟨rfl, rfl, ?_⟩
      rw [hpending, pending]
      show [_] ++ (Mode.resume rest : Mode τ ε).todo.map _ = _
      rw [Mode.todo_resume]
      rfl
    · rw [hcheck] at hlive
      exact hlive.elim
  · exact hlive.elim

/-- **Suspension makes no difference.**  What has been sent, followed by what is still to be
sent, is what the rounds for the inputs send; what is still to be sent is left of the last
round. -/
theorem run_delivers (h : r.step.run es s = some (s', os)) (hlive : s'.mode.Live) :
    ∃ sent, collect ((inputs es).map r.round) s.data = (ok sent, s'.data) ∧
      os ++ r.pending s' = r.pending s ++ sent.flatten ∧
      r.pending s' <:+ sent.getLast?.getD (r.pending s) := by
  induction es generalizing s os with
  | nil =>
    obtain ⟨rfl, rfl⟩ : s = s' ∧ [] = os := by simpa [Machine.run] using h
    exact ⟨[], rfl, by simp, List.suffix_refl _⟩
  | cons e es ih =>
    obtain ⟨s₁, os₁, os₂, he, hes, rfl⟩ := Machine.run_cons.mp h
    obtain ⟨sent, hcollect, hsent, hlast⟩ := ih hes
    -- the rest of the run starts in `s₁`, which is live since a dead relay makes no step
    have hinputs : inputs (e :: es) = inputs [e] ++ inputs es := inputs_append [e] es
    rw [hinputs, List.map_append]
    rcases step_live he (live_of_run hes hlive) with
      ⟨i, burst, hinput, hround, hpending, rfl, hpending₁⟩ | ⟨hinput, hdata, hpending⟩
    · refine ⟨burst :: sent, ?_, ?_, ?_⟩
      · rw [hinput, List.map_singleton, List.singleton_append, collect_cons, Run.bind_ok hround,
          Run.bind_ok hcollect]
        rfl
      · rw [hpending, List.nil_append, hsent, hpending₁, List.nil_append, List.flatten_cons]
      · -- if nothing is received later, this is the last round
        rwa [List.getLast?_cons, Option.getD_some, ← hpending₁]
    · -- a send: no round begins, one packet moves from pending to sent
      refine ⟨sent, ?_, ?_, ?_⟩
      · rw [hinput, List.map_nil, List.nil_append, ← hdata, hcollect]
      · rw [List.append_assoc, hsent, ← List.append_assoc, hpending]
      · rcases hs : sent.getLast? with - | burst
        · rw [hs] at hlast
          exact hlast.trans ⟨os₁, hpending⟩
        · rwa [hs] at hlast

/-! ### How a relay comes to an end -/

/-- The work on an input did not return, and the relay has stopped for that reason. -/
def Mode.StopsWith {γ : Type} : Mode τ ε → Outcome ε γ → Prop
  | .ended e, .throw e' => e = e'
  | .hung, .outOfFuel => True
  | _, _ => False

/-- A wait was in vain: nothing could be received, a packet could not be sent, or what is told
about it afterwards is an exception. -/
def Fails (r : Relay σ ι τ α ο ε) (os : List ο) (s' : State σ τ ε) : Event ι α ε → Prop
  | .input _ => False
  | .answer a =>
    ∃ send e, os = [r.emit send s'.data] ∧ r.check send a = some e ∧ s'.mode = .ended e
  | .fault e => s'.mode = .ended e

/-- **The last step**: the work on an input does not return, or a wait is in vain. -/
theorem step_end {e : Event ι α ε} {s₁ : State σ τ ε} {os₁ : List ο}
    (h : r.step e s = some (s₁, os₁)) (hend : ¬ s₁.mode.Live) :
    (∃ i x, e = .input i ∧ r.round i s.data = (x, s₁.data) ∧ s₁.mode.StopsWith x ∧
        r.pending s = [] ∧ os₁ = []) ∨
      (r.Fails os₁ s₁ e ∧ s₁.data = s.data ∧ os₁ <+: r.pending s) := by
  rcases step_cases h with ⟨i, x, rfl, hpending, rfl, haccept, hmode⟩ |
    ⟨a, send, rest, rfl, rfl, hpending, rfl⟩ | ⟨e', rfl, rfl, rfl⟩
  · cases x with
    | ok sends =>
      rw [hmode] at hend
      exact absurd (Mode.live_resume sends) hend
    | throw e =>
      have hround : r.round i s.data = (.throw e, s₁.data) := by rw [round, Run.bind_throw haccept]
      exact .inl ⟨i, _, rfl, hround, by rw [hmode]; rfl, hpending, rfl⟩
    | outOfFuel =>
      have hround : r.round i s.data = (.outOfFuel, s₁.data) := by
        rw [round, Run.bind_outOfFuel haccept]
      exact .inl ⟨i, _, rfl, hround, by rw [hmode]; trivial, hpending, rfl⟩
  · -- the send is over: the check decides whether the relay goes on
    rcases hcheck : r.check send a with - | e
    · rw [hcheck] at hend
      exact absurd (Mode.live_resume rest) hend
    · refine .inr ⟨⟨send, e, rfl, hcheck, rfl⟩, rfl, ?_⟩
      rw [hpending]
      exact List.prefix_append [_] _
  · exact .inr ⟨rfl, rfl, List.nil_prefix⟩

/-- A run up to an end has a last step. -/
theorem exists_last_step (h : r.step.run es s = some (s', os)) (hlive : s.mode.Live)
    (hend : ¬ s'.mode.Live) :
    ∃ es' e s₁ os₁ os₂, es = es' ++ [e] ∧ r.step.run es' s = some (s₁, os₁) ∧ s₁.mode.Live ∧
      r.step e s₁ = some (s', os₂) ∧ os = os₁ ++ os₂ := by
  induction es generalizing s os with
  | nil =>
    obtain ⟨rfl, -⟩ : s = s' ∧ [] = os := by simpa [Machine.run] using h
    exact absurd hlive hend
  | cons e es ih =>
    obtain ⟨s₁, os₁, os₂, he, hes, rfl⟩ := Machine.run_cons.mp h
    by_cases hlive₁ : s₁.mode.Live
    · obtain ⟨es', e', s₂, os₃, os₄, rfl, hrun, hlive₂, hlast, rfl⟩ := ih hes hlive₁
      exact ⟨e :: es', e', s₂, os₁ ++ os₃, os₄, rfl, Machine.run_cons.mpr ⟨_, _, _, he, hrun, rfl⟩,
        hlive₂, hlast, (List.append_assoc _ _ _).symm⟩
    · -- nothing can follow
      cases es with
      | nil =>
        obtain ⟨rfl, rfl⟩ : s₁ = s' ∧ [] = os₂ := by simpa [Machine.run] using hes
        exact ⟨[], e, s, [], os₁, rfl, rfl, hlive, he, by simp⟩
      | cons e' es =>
        obtain ⟨s₂, os₃, os₄, he', -, -⟩ := Machine.run_cons.mp hes
        rw [step_eq_none e' hlive₁] at he'
        cases he'

/-- **A relay that has come to an end has sent nothing else.**  Either the last event is an input
whose round fails, and all has been sent for the inputs before; or the last wait was in vain, and
of what the rounds send only a part of the last one is missing. -/
theorem run_ends (h : r.step.run es s = some (s', os)) (hlive : s.mode.Live)
    (hend : ¬ s'.mode.Live) :
    ∃ es' e sent rest data, es = es' ++ [e] ∧
      (collect ((inputs es').map r.round) : Run σ ε _) s.data = (ok sent, data) ∧
      os ++ rest = r.pending s ++ sent.flatten ∧ rest <:+ sent.getLast?.getD (r.pending s) ∧
      ((∃ i x, e = .input i ∧ r.round i data = (x, s'.data) ∧ s'.mode.StopsWith x ∧ rest = []) ∨
        (∃ os', os' <:+ os ∧ r.Fails os' s' e) ∧ s'.data = data) := by
  obtain ⟨es', e, s₁, os₁, os₂, rfl, hrun, hlive₁, hlast, rfl⟩ := exists_last_step h hlive hend
  obtain ⟨sent, hcollect, hsent, hsuffix⟩ := run_delivers hrun hlive₁
  rcases step_end hlast hend with
    ⟨i, x, rfl, hround, hstops, hpending, rfl⟩ | ⟨hfails, hdata, ⟨rest, hrest⟩⟩
  · -- an input is only taken when nothing is pending, so all has been sent
    refine ⟨es', _, sent, [], s₁.data, rfl, hcollect, ?_, List.nil_suffix,
      .inl ⟨i, x, rfl, hround, hstops, rfl⟩⟩
    rw [hpending] at hsent
    rw [List.append_nil, hsent]
  · refine ⟨es', e, sent, rest, s₁.data, rfl, hcollect, ?_, ?_,
      .inr ⟨⟨os₂, List.suffix_append _ _, hfails⟩, hdata⟩⟩
    · rw [List.append_assoc, hrest, hsent]
    · exact (List.suffix_append os₂ rest).trans (hrest ▸ hsuffix)

/-! ### What is sent at all -/

section Emits

variable {P : ο → Prop} (haccept : ∀ i data sends data', r.accept i data = (ok sends, data') →
  ∀ send ∈ sends, P (r.emit send data'))

include haccept

theorem step_emits {e : Event ι α ε} {s₁ : State σ τ ε} {os₁ : List ο}
    (h : r.step e s = some (s₁, os₁)) (hs : ∀ o ∈ r.pending s, P o) :
    (∀ o ∈ os₁, P o) ∧ ∀ o ∈ r.pending s₁, P o := by
  rcases step_cases h with ⟨i, x, rfl, -, rfl, hx, hmode⟩ |
    ⟨a, send, rest, rfl, rfl, hpending, rfl⟩ | ⟨e', rfl, rfl, rfl⟩
  · refine ⟨fun o ho => absurd ho List.not_mem_nil, ?_⟩
    rw [pending, hmode]
    cases x with
    | ok sends =>
      rw [Mode.ofOutcome, Mode.todo_resume]
      exact List.forall_mem_map.mpr (haccept _ _ _ _ hx)
    | throw e => exact fun o ho => absurd ho List.not_mem_nil
    | outOfFuel => exact fun o ho => absurd ho List.not_mem_nil
  · rw [hpending, List.forall_mem_cons] at hs
    refine ⟨List.forall_mem_singleton.mpr hs.1, ?_⟩
    rcases r.check send a with - | e
    · show ∀ o ∈ (Mode.resume rest : Mode τ ε).todo.map _, P o
      rw [Mode.todo_resume]
      exact hs.2
    · exact fun o ho => absurd ho List.not_mem_nil
  · exact ⟨fun o ho => absurd ho List.not_mem_nil, fun o ho => absurd ho List.not_mem_nil⟩

/-- **Only what has been accepted is sent**, whether or not the relay comes to an end. -/
theorem run_emits (h : r.step.run es s = some (s', os)) (hs : ∀ o ∈ r.pending s, P o) :
    ∀ o ∈ os, P o := by
  induction es generalizing s os with
  | nil =>
    obtain ⟨-, rfl⟩ : s = s' ∧ [] = os := by simpa [Machine.run] using h
    exact fun o ho => absurd ho List.not_mem_nil
  | cons e es ih =>
    obtain ⟨s₁, os₁, os₂, he, hes, rfl⟩ := Machine.run_cons.mp h
    obtain ⟨hfirst, hs₁⟩ := step_emits haccept he hs
    exact List.forall_mem_append.mpr ⟨hfirst, ih hes hs₁⟩

end Emits

/-! ### Relays that send to several destinations -/

section FanOut

variable {π κ : Type}

/-- A relay that makes one packet of an input, and sends it to all destinations. -/
def fanOut (destinations : List κ) (accept : ι → Run σ ε π) (packet : π → σ → ο)
    (check : π → α → Option ε) : Relay σ ι (π × κ) α (ο × κ) ε where
  accept i := do
    let p ← accept i
    pure (destinations.map fun k => (p, k))
  emit send data := (packet send.1 data, send.2)
  check send a := check send.1 a

/-- The packet as it is when it is read. -/
def readPacket (packet : π → σ → ο) (p : π) : Run σ ε ο := fun data => (ok (packet p data), data)

/-- The packet for an input. -/
def packetFor (accept : ι → Run σ ε π) (packet : π → σ → ο) (i : ι) : Run σ ε ο := do
  let p ← accept i
  readPacket packet p

/-- What one of the destinations has been sent. -/
def receivedBy [DecidableEq κ] (k : κ) (os : List (ο × κ)) : List ο :=
  (os.filter fun o => o.2 = k).map Prod.fst

variable {destinations : List κ} {accept : ι → Run σ ε π} {packet : π → σ → ο}
  {check : π → α → Option ε} {packets : List ο}

/-- All packets to all destinations. -/
def toAll (destinations : List κ) (packets : List ο) : List (ο × κ) :=
  packets.flatMap fun p => destinations.map fun k => (p, k)

/-- An input for which one packet is sent, without fault. -/
theorem run_fanOut_singleton {i : ι} {a : α} {data data' : σ} {p : ο} {k : κ}
    (h : packetFor accept packet i data = (ok p, data'))
    (hcheck : ∀ x, packet x data' = p → check x a = none) :
    (fanOut [k] accept packet check).step.run [.input i, .answer a] ⟨data, .waiting⟩
      = some (⟨data', .waiting⟩, [(p, k)]) := by
  obtain ⟨x, s, haccept, hread⟩ := Run.bind_eq_ok.mp h
  obtain ⟨rfl, rfl⟩ : packet x s = p ∧ s = data' := by simpa [readPacket] using hread
  have haccept' : (fanOut [k] accept packet check).accept i data = (ok [(x, k)], s) :=
    Run.bind_ok haccept
  have hinput : (fanOut [k] accept packet check).step (.input i) ⟨data, .waiting⟩
      = some (⟨s, .sending (x, k) []⟩, []) := by
    rw [step, haccept']
    rfl
  have hanswer : (fanOut [k] accept packet check).step (.answer a) ⟨s, .sending (x, k) []⟩
      = some (⟨s, .waiting⟩, [(packet x s, k)]) := by
    show some (State.mk s ((check x a).elim (.resume []) .ended), _) = _
    rw [hcheck x rfl]
    rfl
  exact Machine.run_cons.mpr ⟨_, _, _, hinput,
    Machine.run_cons.mpr ⟨_, _, _, hanswer, rfl, rfl⟩, rfl⟩

theorem round_fanOut (i : ι) (data : σ) :
    (fanOut destinations accept packet check).round i data
      = (packetFor accept packet i >>= fun p => pure (destinations.map fun k => (p, k))) data := by
  rcases haccept : accept i data with ⟨p | e | -, data'⟩
  · have haccept' : (fanOut destinations accept packet check).accept i data
        = (ok (destinations.map fun k => (p, k)), data') := Run.bind_ok haccept
    have hpacket : packetFor accept packet i data = (ok (packet p data'), data') :=
      Run.bind_ok haccept
    rw [round_ok haccept', Run.bind_ok hpacket, List.map_map]
    rfl
  · have haccept' : (fanOut destinations accept packet check).accept i data = (.throw e, data') :=
      Run.bind_throw haccept
    have hpacket : packetFor accept packet i data = (.throw e, data') := Run.bind_throw haccept
    rw [round, Run.bind_throw haccept', Run.bind_throw hpacket]
  · have haccept' : (fanOut destinations accept packet check).accept i data
        = (.outOfFuel, data') := Run.bind_outOfFuel haccept
    have hpacket : packetFor accept packet i data = (.outOfFuel, data') :=
      Run.bind_outOfFuel haccept
    rw [round, Run.bind_outOfFuel haccept', Run.bind_outOfFuel hpacket]

/-- The rounds return what the packets are, for each destination. -/
theorem collect_round_fanOut {is : List ι} {data data' : σ} {sent : List (List (ο × κ))}
    (h : collect (is.map (fanOut destinations accept packet check).round) data
      = (ok sent, data')) :
    ∃ packets, collect (is.map (packetFor accept packet)) data = (ok packets, data') ∧
      sent = packets.map fun p => destinations.map fun k => (p, k) := by
  induction is generalizing data sent with
  | nil =>
    obtain ⟨rfl, rfl⟩ : [] = sent ∧ data = data' := by simpa using h
    exact ⟨[], rfl, rfl⟩
  | cons i is ih =>
    rw [List.map_cons, collect_cons] at h
    obtain ⟨burst, data₁, hburst, h⟩ := Run.bind_eq_ok.mp h
    obtain ⟨rest, data₂, hrest, h⟩ := Run.bind_eq_ok.mp h
    obtain ⟨rfl, rfl⟩ : burst :: rest = sent ∧ data₂ = data' := by simpa using h
    rw [round_fanOut] at hburst
    obtain ⟨p, data₃, hp, hburst⟩ := Run.bind_eq_ok.mp hburst
    obtain ⟨rfl, rfl⟩ : destinations.map (fun k => (p, k)) = burst ∧ data₃ = data₁ := by
      simpa using hburst
    obtain ⟨packets, hpackets, rfl⟩ := ih hrest
    refine ⟨p :: packets, ?_, rfl⟩
    rw [List.map_cons, collect_cons, Run.bind_ok hp, Run.bind_ok hpackets]
    rfl

/-- The last packet to all destinations. -/
def lastToAll (destinations : List κ) (packets : List ο) : List (ο × κ) :=
  packets.getLast?.elim [] fun p => destinations.map fun k => (p, k)

theorem flatten_map_toAll (packets : List ο) :
    (packets.map fun p => destinations.map fun k => (p, k)).flatten
      = toAll destinations packets := by
  rw [toAll, List.flatMap_def]

theorem suffix_lastToAll {packets : List ο} {rest : List (ο × κ)}
    (h : rest <:+ (packets.map fun p => destinations.map fun k => (p, k)).getLast?.getD []) :
    rest <:+ lastToAll destinations packets := by
  rw [List.getLast?_map] at h
  rw [lastToAll]
  rcases hp : packets.getLast? with - | p
  · rw [hp] at h
    exact h
  · rw [hp] at h
    exact h

/-- **What a relay that goes on has sent**, from a start at which it waits: with what is still to
be sent, all packets to all destinations. -/
theorem fanOut_delivers {data : σ} {s' : State σ (π × κ) ε} {es : List (Event ι α ε)}
    {os : List (ο × κ)}
    (h : (fanOut destinations accept packet check).step.run es ⟨data, .waiting⟩ = some (s', os))
    (hlive : s'.mode.Live) :
    ∃ packets, collect ((inputs es).map (packetFor accept packet)) data = (ok packets, s'.data) ∧
      os ++ (fanOut destinations accept packet check).pending s' = toAll destinations packets ∧
      (fanOut destinations accept packet check).pending s' <:+ lastToAll destinations packets := by
  obtain ⟨sent, hcollect, hsent, hlast⟩ := run_delivers h hlive
  obtain ⟨packets, hpackets, rfl⟩ := collect_round_fanOut hcollect
  refine ⟨packets, hpackets, ?_, suffix_lastToAll hlast⟩
  rw [hsent, flatten_map_toAll]
  rfl

/-- A failed round is that of a packet that could not be made. -/
theorem packetFor_of_stops {i : ι} {data data' : σ} {mode : Mode (π × κ) ε}
    {x : Outcome ε (List (ο × κ))}
    (h : (fanOut destinations accept packet check).round i data = (x, data'))
    (hstops : mode.StopsWith x) :
    ∃ y, packetFor accept packet i data = (y, data') ∧ mode.StopsWith y := by
  rw [round_fanOut] at h
  rcases hp : packetFor accept packet i data with ⟨p | e | -, data₁⟩
  · rw [Run.bind_ok hp] at h
    obtain ⟨rfl, -⟩ := Prod.mk.inj h
    cases mode <;> exact hstops.elim
  · rw [Run.bind_throw hp] at h
    obtain ⟨rfl, rfl⟩ := Prod.mk.inj h
    refine ⟨.throw e, rfl, ?_⟩
    cases mode <;> exact hstops
  · rw [Run.bind_outOfFuel hp] at h
    obtain ⟨rfl, rfl⟩ := Prod.mk.inj h
    refine ⟨.outOfFuel, rfl, ?_⟩
    cases mode <;> exact hstops

/-- **What a relay that has come to an end has sent**: all packets to all destinations, until the
packet for the last input could not be made; or all but some of the last one, until a wait was in
vain. -/
theorem fanOut_ends {data : σ} {s' : State σ (π × κ) ε} {es : List (Event ι α ε)}
    {os : List (ο × κ)}
    (h : (fanOut destinations accept packet check).step.run es ⟨data, .waiting⟩ = some (s', os))
    (hend : ¬ s'.mode.Live) :
    ∃ es' e packets data', es = es' ++ [e] ∧
      (collect ((inputs es').map (packetFor accept packet)) : Run σ ε _) data
        = (ok packets, data') ∧
      ((∃ i x, e = .input i ∧ packetFor accept packet i data' = (x, s'.data) ∧
          s'.mode.StopsWith x ∧ os = toAll destinations packets) ∨
        (∃ os', os' <:+ os ∧ (fanOut destinations accept packet check).Fails os' s' e) ∧
          s'.data = data' ∧
          ∃ rest, os ++ rest = toAll destinations packets ∧
            rest <:+ lastToAll destinations packets) := by
  obtain ⟨es', e, sent, rest, data', rfl, hcollect, hsent, hlast, hcases⟩ := run_ends h trivial hend
  obtain ⟨packets, hpackets, rfl⟩ := collect_round_fanOut hcollect
  rw [flatten_map_toAll] at hsent
  refine ⟨es', e, packets, data', rfl, hpackets, ?_⟩
  rcases hcases with ⟨i, x, rfl, hround, hstops, rfl⟩ | ⟨hfails, hdata⟩
  · obtain ⟨y, hy, hstops'⟩ := packetFor_of_stops hround hstops
    refine .inl ⟨i, y, rfl, hy, hstops', ?_⟩
    rw [List.append_nil] at hsent
    exact hsent
  · exact .inr ⟨hfails, hdata, rest, hsent, suffix_lastToAll hlast⟩

/-- Only packets that have been made of an input are sent. -/
theorem fanOut_emits {P : ο → Prop} {es : List (Event ι α ε)} {data : σ}
    {s : State σ (π × κ) ε} {os : List (ο × κ)}
    (hpacket : ∀ i data p data', packetFor accept packet i data = (ok p, data') → P p)
    (h : (fanOut destinations accept packet check).step.run es ⟨data, .waiting⟩ = some (s, os)) :
    ∀ o ∈ os, P o.1 := by
  apply run_emits (P := fun o => P o.1) _ h
  · exact fun o ho => absurd ho List.not_mem_nil
  · intro i data sends data' haccept send hsend
    obtain ⟨x, t, hx, hpure⟩ := Run.bind_eq_ok.mp haccept
    obtain ⟨hsends, rfl⟩ := Prod.mk.inj hpure
    obtain rfl := Outcome.ok.inj hsends
    obtain ⟨k, -, rfl⟩ := List.mem_map.mp hsend
    exact hpacket i data _ t (Run.bind_ok hx)

section Received

variable [DecidableEq κ] {k : κ}

theorem receivedBy_append (os os' : List (ο × κ)) :
    receivedBy k (os ++ os') = receivedBy k os ++ receivedBy k os' := by
  rw [receivedBy, List.filter_append, List.map_append]
  rfl

theorem receivedBy_map (hnodup : destinations.Nodup) (p : ο) :
    receivedBy k (destinations.map fun k => (p, k)) = if k ∈ destinations then [p] else [] := by
  rw [receivedBy, List.filter_map, List.map_map]
  show (destinations.filter fun k' => k' = k).map _ = _
  have hfilter : (destinations.filter fun k' => k' = k) = if k ∈ destinations then [k] else [] := by
    rw [List.filter_eq, hnodup.count]
    split <;> rfl
  rw [hfilter]
  split <;> rfl

theorem receivedBy_toAll (hnodup : destinations.Nodup) (hk : k ∈ destinations)
    (packets : List ο) : receivedBy k (toAll destinations packets) = packets := by
  induction packets with
  | nil => rfl
  | cons p packets ih =>
    have hcons : toAll destinations (p :: packets)
        = destinations.map (fun k => (p, k)) ++ toAll destinations packets := rfl
    rw [hcons, receivedBy_append, ih, receivedBy_map hnodup, if_pos hk]
    rfl

/-- **Each destination receives each packet once, in order**: at most the last one is still to
come. -/
theorem receivedBy_of_delivers (hnodup : destinations.Nodup) (hk : k ∈ destinations)
    {os rest : List (ο × κ)} (h : os ++ rest = toAll destinations packets)
    (hlast : rest <:+ lastToAll destinations packets) :
    receivedBy k os = packets ∨ ∃ p, receivedBy k os ++ [p] = packets := by
  have hall : receivedBy k os ++ receivedBy k rest = packets := by
    rw [← receivedBy_append, h, receivedBy_toAll hnodup hk]
  -- what is still to be sent is left of one packet for all destinations
  have hlength : (receivedBy k rest).length ≤ 1 := by
    have hle : (receivedBy k rest).length
        ≤ (receivedBy k (lastToAll destinations packets)).length := by
      apply List.Sublist.length_le
      exact (hlast.sublist.filter _).map _
    refine Nat.le_trans hle ?_
    rw [lastToAll]
    rcases packets.getLast? with - | p
    · exact Nat.zero_le 1
    · show (receivedBy k (destinations.map fun k => (p, k))).length ≤ 1
      rw [receivedBy_map hnodup, if_pos hk]
      exact Nat.le_refl 1
  rcases hrest : receivedBy k rest with - | ⟨p, ps⟩
  · rw [hrest, List.append_nil] at hall
    exact .inl hall
  · rw [hrest] at hall hlength
    obtain rfl : ps = [] := by
      apply List.eq_nil_of_length_eq_zero
      rw [List.length_cons] at hlength
      omega
    exact .inr ⟨p, hall⟩

end Received

end FanOut

end Relay

end Effectful
