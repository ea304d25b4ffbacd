/-
Commelec/BareThrow.lean

Can a message abort the process?

A query that does not return should throw an object that a handler can catch.  It does not where
it comes to a task that is lost (`Env.Fatal`): with assertions one of them may fail; `throw;`
without an exception being handled calls `std::terminate`; and beyond sizes that do not fit, and
at operations that the schema does not know, C++ leaves the behaviour undefined.  So a query in a
build with or without assertions is safe exactly if it comes to no such task, or is ended by the
visit counter before (`queries_catchable`, `Release.queries_catchable`).

The receive loop ends with an exception, or goes on, unless it comes to a datagram that is read
as something else than a request (`bare_throw_iff`).
-/
import Commelec.Daemon
import Commelec.FatalTasks

namespace Commelec

open Effectful Outcome

variable {R : Type} [Double R]

/-! ### Queries -/

/-- The query returns or throws an exception, if it ends. -/
def AdvFunc.Catches {α : Type} (q : ℕ → Run (AdvFunc R) Err α) (af : AdvFunc R) : Prop :=
  ∀ n, Catchable (q n af).1

omit [Double R] in
theorem catchable_iff_spares {α : Type} {x : Outcome Err α} :
    Catchable x ↔ ∀ e, ¬ IsException e → Spares e x :=
  forall_congr' fun _ => not_imp_not.symm

/-- **When a query is safe**: its traced run is caught, or it is safe where Eigen does its worst. -/
theorem catchable_of_respects {af : AdvFunc R} {bv : ValueMap R} {α : Type}
    {method : ∀ {m : Type → Type} [Effects Err m], UncheckedEigen R → ℕ → Self R m → m α}
    (h : Respects method) :
    (∀ E, AdvFunc.Catches (fun n => Release.query bv (method E n)) af) ↔
      Overflows (fun n => method .worst n (af.env bv).tracing) ∨
        ∀ n, Catchable (method .worst n (af.env bv).self) := by
  have hmax : ¬ ¬ IsException maxNesting := by decide
  have hspares := spares_all_of_respects (fun e => ¬ IsException e) af bv not_isException_outside
    hmax h
  have hquery : (∀ E, AdvFunc.Catches (fun n => Release.query bv (method E n)) af) ↔
      AdvFunc.SparesAll (fun e => ¬ IsException e)
        (fun E n => Release.query bv (method E n)) af := by
    constructor
    · exact fun hcatches e he E n => catchable_iff_spares.mp (hcatches E n) e he
    · exact fun hspares E n => catchable_iff_spares.mpr fun e he => hspares e he E n
  -- an overflow throws, and throws the same whatever Eigen does
  rw [hquery, hspares]
  refine or_congr_right ⟨fun hspares n => ?_, fun hcatches e he n => ?_⟩
  · exact catchable_iff_spares.mpr fun e he => hspares e he n
  · exact catchable_iff_spares.mp (hcatches n) e he

/-- In the build with assertions, Eigen does nothing that is not in the method. -/
theorem catches_query_iff {af : AdvFunc R} (hv : af.advValid = true) {bv : ValueMap R} {α : Type}
    {method : ∀ {m : Type → Type} [Effects Err m], ℕ → Self R m → m α}
    (h : Respects fun {m} [Effects Err m] (_ : UncheckedEigen R) n (self : Self R m) =>
      method n self) :
    AdvFunc.Catches (fun n => AdvFunc.query bv (method n)) af ↔
      Overflows (fun n => method n (af.env bv).tracing) ∨
        ∀ n, Catchable (method n (af.env bv).self) := by
  have hquery : AdvFunc.Catches (fun n => AdvFunc.query bv (method n)) af ↔
      AdvFunc.Catches (fun n => Release.query bv (method n)) af :=
    forall_congr' fun n => by
      rw [AdvFunc.query_fst hv]
      rfl
  rw [hquery, ← catchable_of_respects h]
  exact ⟨fun hcatches _ => hcatches, fun hcatches => hcatches .worst⟩

/-! ### The methods with assertions -/

section Checked

variable (env : Env R)

theorem respects_eval (e : RealExpr R) :
    Respects fun {m} [Effects Err m] _ n (self : Self R m) => (calls self n).eval e where
  rel _ _ _ _ _ _ hstop hself n := (rel_calls .all hself hstop n).eval trivial
  rel_succ _ _ _ _ _ _ hbot hself n := (rel_calls_succ .all hself hbot n).eval trivial

theorem respects_deriv (x : String) (e : RealExpr R) :
    Respects fun {m} [Effects Err m] _ n (self : Self R m) => evalPartialDerivative self x n e where
  rel _ _ _ _ _ _ hstop hself n := rel_evalPartialDerivative .all hself hstop x n trivial
  rel_succ _ _ _ _ _ _ hbot hself n := rel_evalPartialDerivative_succ .all hself hbot x n trivial

theorem respects_membership (s : SetExpr R) (pt : List R) :
    Respects fun {m} [Effects Err m] _ n (self : Self R m) => (calls self n).membership s pt where
  rel _ _ _ _ _ _ hstop hself n := (rel_calls .all hself hstop n).membership pt trivial
  rel_succ _ _ _ _ _ _ hbot hself n := (rel_calls_succ .all hself hbot n).membership pt trivial

theorem respects_proj (s : SetExpr R) (pt : List R) :
    Respects fun {m} [Effects Err m] _ n (self : Self R m) => projPoint self n s pt where
  rel _ _ _ _ _ _ hstop hself n := rel_projPoint .all hself hstop n trivial pt
  rel_succ _ _ _ _ _ _ hbot hself n := rel_projPoint_succ .all hself hbot n trivial pt

theorem respects_rectHull (lp : LpSolver R) (s : SetExpr R) :
    Respects fun {m} [Effects Err m] _ n (self : Self R m) => rectHull self lp n s where
  rel _ _ _ _ _ _ hstop hself n := rel_rectHull .all hself hstop lp n trivial
  rel_succ _ _ _ _ _ _ hbot hself n := rel_rectHull_succ .all hself hbot lp n trivial

end Checked

/-! ### Safe tasks -/

section Tasks

variable (env : Env R) {t : Task R} (ht : t.SolvesBy LpSolver.Catches)

include ht

/-- A method with assertions is safe if its task is. -/
theorem Env.catchable_methodAt_iff :
    (∀ n, Catchable (env.methodAt n t)) ↔ env.Safe true t := by
  rw [← env.catchable_run_iff ht]
  exact forall_congr' fun n =>
    catchable_iff_of_faulty (env.methodAt_faulty (ht.mono fun _ hlp => hlp.toSound) n)

theorem Env.catchable_release_iff :
    (∀ n, Catchable (env.release.run n t : Outcome Err t.Result)) ↔ env.Safe false t := by
  rw [← env.build_false, env.catchable_run_iff ht]

end Tasks

/-- When each query in the build with assertions is safe. -/
structure QueriesCatchable (af : AdvFunc R) (bv : ValueMap R) (lp : LpSolver R) : Prop where
  evaluate (e : RealExpr R) :
    AdvFunc.Catches (fun n => AdvFunc.evaluate n e bv) af ↔
      Overflows (fun n => (calls (af.env bv).tracing n).eval e) ∨
        (af.env bv).Safe true (.eval e)
  evalPartialDerivative (e : RealExpr R) (x : String) :
    AdvFunc.Catches (fun n => AdvFunc.evalPartialDerivative n e x bv) af ↔
      Overflows (fun n => Commelec.evalPartialDerivative (af.env bv).tracing x n e) ∨
        (af.env bv).Safe true (.evalPartialDerivative x e)
  testMembership (s : SetExpr R) (pt : List R) :
    AdvFunc.Catches (fun n => AdvFunc.testMembership n s pt bv) af ↔
      Overflows (fun n => (calls (af.env bv).tracing n).membership s pt) ∨
        (af.env bv).Safe true (.membership s pt)
  project (s : SetExpr R) (pt : List R) :
    AdvFunc.Catches (fun n => AdvFunc.project n s pt bv) af ↔
      Overflows (fun n => projPoint (af.env bv).tracing n s pt) ∨
        (af.env bv).Safe true (.proj s pt)
  rectangularHull (s : SetExpr R) :
    AdvFunc.Catches (fun n => AdvFunc.rectangularHull lp n s bv) af ↔
      Overflows (fun n => rectHull (af.env bv).tracing lp n s) ∨
        (af.env bv).Safe true (.rectHull lp s)

/-- When each query in the build without checks is safe, whatever Eigen does with operands that do
not fit. -/
structure Release.QueriesCatchable (af : AdvFunc R) (bv : ValueMap R) (lp : LpSolver R) :
    Prop where
  evaluate (e : RealExpr R) :
    (∀ E, AdvFunc.Catches (fun n => Release.evaluate E n e bv) af) ↔
      Overflows (fun n => (Release.calls .worst (af.env bv).tracing n).eval e) ∨
        (af.env bv).Safe false (.eval e)
  evalPartialDerivative (e : RealExpr R) (x : String) :
    (∀ E, AdvFunc.Catches (fun n => Release.evalPartialDerivative E n e x bv) af) ↔
      Overflows (fun n => Release.evalDerivative .worst (af.env bv).tracing x n e) ∨
        (af.env bv).Safe false (.evalPartialDerivative x e)
  testMembership (s : SetExpr R) (pt : List R) :
    (∀ E, AdvFunc.Catches (fun n => Release.testMembership E n s pt bv) af) ↔
      Overflows (fun n => (Release.calls .worst (af.env bv).tracing n).membership s pt) ∨
        (af.env bv).Safe false (.membership s pt)
  project (s : SetExpr R) (pt : List R) :
    (∀ E, AdvFunc.Catches (fun n => Release.project E n s pt bv) af) ↔
      Overflows (fun n => Release.projPoint .worst (af.env bv).tracing n s pt) ∨
        (af.env bv).Safe false (.proj s pt)
  rectangularHull (s : SetExpr R) :
    (∀ E, AdvFunc.Catches (fun n => Release.rectangularHull E lp n s bv) af) ↔
      Overflows (fun n => Release.rectHull .worst (af.env bv).tracing lp n s) ∨
        (af.env bv).Safe false (.rectHull lp s)

section Query

variable {af : AdvFunc R} (bv : ValueMap R) {lp : LpSolver R} (hlp : lp.Catches)

include hlp

/-- **Queries in the build with assertions.** -/
theorem queries_catchable (hv : af.advValid = true) : QueriesCatchable af bv lp := by
  let env := af.env bv
  refine ⟨fun e => ?_, fun e x => ?_, fun s pt => ?_, fun s pt => ?_, fun s => ?_⟩
  · refine (catches_query_iff hv (respects_eval e)).trans (or_congr_right ?_)
    exact env.catchable_methodAt_iff (t := .eval e) trivial
  · refine (catches_query_iff hv (respects_deriv x e)).trans (or_congr_right ?_)
    exact env.catchable_methodAt_iff (t := .evalPartialDerivative x e) trivial
  · refine (catches_query_iff hv (respects_membership s pt)).trans (or_congr_right ?_)
    exact env.catchable_methodAt_iff (t := .membership s pt) trivial
  · refine (catches_query_iff hv (respects_proj s pt)).trans (or_congr_right ?_)
    exact env.catchable_methodAt_iff (t := .proj s pt) trivial
  · refine (catches_query_iff hv (respects_rectHull lp s)).trans (or_congr_right ?_)
    exact env.catchable_methodAt_iff (t := .rectHull lp s) hlp

/-- **Queries in the build without checks.** -/
theorem Release.queries_catchable : Release.QueriesCatchable af bv lp := by
  let env := af.env bv
  refine ⟨fun e => ?_, fun e x => ?_, fun s pt => ?_, fun s pt => ?_, fun s => ?_⟩
  · refine (catchable_of_respects (Release.respects_eval e)).trans (or_congr_right ?_)
    rw [← env.catchable_release_iff (t := .eval e) trivial]
    exact forall_congr' fun n => by rw [← env.run_release_eval n e]; rfl
  · refine (catchable_of_respects (Release.respects_deriv x e)).trans (or_congr_right ?_)
    rw [← env.catchable_release_iff (t := .evalPartialDerivative x e) trivial]
    exact forall_congr' fun n => by rw [← env.run_release_deriv x n e]; rfl
  · refine (catchable_of_respects (Release.respects_membership s pt)).trans (or_congr_right ?_)
    rw [← env.catchable_release_iff (t := .membership s pt) trivial]
    exact forall_congr' fun n => by rw [← env.run_release_membership n s pt]; rfl
  · refine (catchable_of_respects (Release.respects_proj s pt)).trans (or_congr_right ?_)
    rw [← env.catchable_release_iff (t := .proj s pt) trivial]
    exact forall_congr' fun n => by rw [← env.run_release_proj n s pt]; rfl
  · refine (catchable_of_respects (Release.respects_rectHull lp s)).trans (or_congr_right ?_)
    rw [← env.catchable_release_iff (t := .rectHull lp s) hlp]
    exact forall_congr' fun n => by rw [← env.run_release_rectHull lp n s]; rfl

end Query

/-! ### Datagrams -/

omit [Double R] in
/-- The message is a request. -/
def Message.IsRequest (msg : Message R) : Prop := ∃ req, msg.body = .request (some req)

/-- The loop reads no message that is not a request, as far as it gets. -/
def OnlyRequests (reader : CapnpReader R) : List (List UInt8) → NetworkBuffer → Prop
  | [], _ => True
  | datagram :: datagrams, buffer =>
    (∀ msg, reader.getMessage (buffer.overwrite datagram).data = ok msg → msg.IsRequest) ∧
      ∀ sent, translate reader (buffer.overwrite datagram).data = ok sent →
        OnlyRequests reader datagrams (buffer.overwrite datagram)

/-- The reader fails by exceptions only. -/
def CapnpReader.Catches (reader : CapnpReader R) : Prop :=
  ∀ input, Catchable (reader.getMessage input)

theorem catchable_requestJson_iff (msg : Message R) :
    Catchable (requestJson msg) ↔ msg.IsRequest := by
  rw [requestJson, Message.IsRequest]
  split
  · next req hbody =>
    refine iff_of_true ?_ ⟨req, hbody⟩
    split
    · exact catchable_ok _
    · -- an incomplete setpoint: the checked read throws an exception object
      exact catchable_throw_iff.mpr (by decide)
    · exact catchable_ok _
  · next hbody =>
    -- `throw;` with no exception to rethrow
    refine iff_of_false (not_catchable_throw fun h => h.1 rfl) ?_
    rintro ⟨req, hreq⟩
    exact hbody req hreq

theorem catchable_translate_iff {reader : CapnpReader R} (hreader : reader.Catches)
    (input : List UInt8) : Catchable (translate reader input) ↔
      ∀ msg, reader.getMessage input = ok msg → msg.IsRequest := by
  rw [translate]
  have hinput := hreader input
  generalize reader.getMessage input = message at hinput ⊢
  rcases message with msg | e | -
  · have hobject : Catchable (requestJson msg >>= fun object => pure (Forwarded.json object)) ↔
        Catchable (requestJson msg) := by
      rcases requestJson msg with object | e | - <;> simp
    rw [ok_bind, hobject, catchable_requestJson_iff]
    exact ⟨fun h msg' heq => Outcome.ok.inj heq ▸ h, fun h => h msg rfl⟩
  · exact iff_of_true (by simpa using hinput) fun msg h => absurd h (by simp)
  · exact iff_of_true (by simp) fun msg h => absurd h (by simp)

section Loop

variable {resourceType : Resource} {reader : CapnpReader R}

/-- The loop, one round at a time. -/
theorem listenGAside_cons (hres : resourceType ≠ .custom) (datagram : List UInt8)
    (datagrams : List (List UInt8)) (buffer : NetworkBuffer) :
    Catchable (listenGAside resourceType reader (datagram :: datagrams) buffer).1 ↔
      Catchable (translate reader (buffer.overwrite datagram).data) ∧
        ∀ sent, translate reader (buffer.overwrite datagram).data = ok sent →
          Catchable (listenGAside resourceType reader datagrams (buffer.overwrite datagram)).1 := by
  have hround : forwardRequest resourceType reader datagram buffer = _ :=
    forwardRequest_eq hres buffer
  rw [listenGAside, List.map_cons, collect_cons]
  rcases htr : translate reader (buffer.overwrite datagram).data with sent | e | -
  · rw [htr] at hround
    rw [Run.bind_ok hround, listenGAside]
    -- the loop goes on with the buffer that this datagram has left
    rcases hrest : collect (datagrams.map (forwardRequest resourceType reader))
      (buffer.overwrite datagram) with ⟨fs | e | -, buffer'⟩
    · rw [Run.bind_ok hrest]
      simp
    · rw [Run.bind_throw hrest]
      simp
    · rw [Run.bind_outOfFuel hrest]
      simp
  · rw [htr] at hround
    rw [Run.bind_throw hround]
    simp
  · rw [htr] at hround
    rw [Run.bind_outOfFuel hround]
    simp

/-- **The receive loop**: it ends with an exception or goes on, exactly if it comes to no message
that is not a request. -/
theorem catchable_listenGAside_iff (hres : resourceType ≠ .custom) (hreader : reader.Catches)
    (datagrams : List (List UInt8)) (buffer : NetworkBuffer) :
    Catchable (listenGAside resourceType reader datagrams buffer).1 ↔
      OnlyRequests reader datagrams buffer := by
  induction datagrams generalizing buffer with
  | nil => exact iff_of_true (catchable_ok _) trivial
  | cons datagram datagrams ih =>
    rw [listenGAside_cons hres, catchable_translate_iff hreader, OnlyRequests, ih]

/-- For a custom resource the loop reads no messages. -/
theorem listenGAside_custom (reader : CapnpReader R) (datagrams : List (List UInt8))
    (buffer : NetworkBuffer) :
    ∃ sent buffer', listenGAside .custom reader datagrams buffer = (ok sent, buffer') := by
  induction datagrams generalizing buffer with
  | nil => exact ⟨[], buffer, rfl⟩
  | cons datagram datagrams ih =>
    obtain ⟨sent, buffer', hsent⟩ := ih (buffer.overwrite datagram)
    have hround : forwardRequest .custom reader datagram buffer
        = (ok (.payload ((buffer.overwrite datagram).data.take
          (min datagram.length networkBufLen))), buffer.overwrite datagram) := rfl
    rw [listenGAside] at hsent
    rw [listenGAside, List.map_cons, collect_cons, Run.bind_ok hround, Run.bind_ok hsent]
    exact ⟨_, _, rfl⟩

end Loop

omit [Double R] in
/-- A reader that decodes what it can, and otherwise runs into the end of its input. -/
theorem catches_of_decided {reader : CapnpReader R}
    (h : ∀ input r, reader.decided input = some r → ∃ msg, r = ok msg) : reader.Catches := by
  intro input
  rw [CapnpReader.getMessage, StreamReader.read]
  rcases hr : reader.decided input with - | r
  · exact catchable_throw_iff.mpr (by decide)
  · obtain ⟨msg, rfl⟩ := h input r hr
    exact catchable_ok msg

theorem catches_requestReader : requestReader.Catches := by
  refine catches_of_decided fun input r hr => ?_
  have hr : (if requestBytes (input.getD 6 0) <+: input then
    some (ok (requestOf (input.getD 6 0))) else none) = some r := hr
  split at hr
  · exact ⟨_, (Option.some.inj hr).symm⟩
  · exact absurd hr (by simp)

/-- `solve_lp2` loses the process nowhere, if there is a half-space. -/
theorem catches_solve_lp2 (rand : ℕ → ℕ) (linprog : Linprog R) :
    (solve_lp2 rand linprog).Catches where
  toSound := solve_lp2_sound rand linprog
  catches {halves} h c := by
    rcases solve_lp2_cases rand linprog halves c with
      ⟨x, y, heq⟩ | ⟨msg, heq⟩ | ⟨hlt, -⟩
    · rw [heq]
      exact catchable_ok _
    · rw [heq]
      exact catchable_throw_iff.mpr (by simp [IsException])
    · exact absurd h (not_le.mpr hlt)

/-- A polytope in the plane, without rows. -/
def noRows : SetExpr ℝ := .convexPolytope none [] []

/-- An advertisement with that polytope as PQ profile. -/
def noRowsAdv : Advertisement ℝ := ⟨some noRows, none, none, []⟩

/-- An advertisement without contents from agent 1, packed. -/
def advertisementBytes : List UInt8 := [0x10, 0x03, 0x50, 0x01, 0x01, 0x11, 0x01, 0x01, 0x00, 0x00]

/-- Cap'n Proto's packed reader on it. -/
def advertisementReader : CapnpReader ℝ :=
  .ofInput advertisementBytes (ok ⟨1, .advertisement none⟩)

theorem catches_advertisementReader : advertisementReader.Catches := by
  refine catches_of_decided fun input r hr => ?_
  have hr : (if advertisementBytes.isPrefixOf input then some (ok _) else none) = some r := hr
  split at hr
  · exact ⟨_, (Option.some.inj hr).symm⟩
  · exact absurd hr (by simp)

end Commelec
