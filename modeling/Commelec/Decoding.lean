/-
Commelec/Decoding.lean

The decoders of the high-level API: `parseRequest` and `getImplSetpointFromAdv`.

Both unpack a message, assign their output parameters one after the other and turn every
exception into the return value `hlapi_unknown_error`.  They leave two checks to Cap'n Proto:
that the member of the union that they read is the active one (`parseRequest` only), and that
the list has two elements.  A debug build makes these checks, and throws; a release build reads
on.  So the outcome of a decoder depends on the build:

* in a release build a list that is too short is read beyond its end, with return value 1;
* in a debug build a list of one element is noticed after `*P` is assigned.

In all other cases a decoder does what `hlapi.h` says, and those are all
(`decodes_iff`).
-/
import Commelec.Daemon

namespace Commelec

open Effectful Outcome

variable {R : Type}

def hlapi_unknown_error : ℤ := -1

def hlapi_malformed_advertisement : ℤ := -5

/-! ### Cap'n Proto's accessors -/

/-- What the pointer of a list field refers to; following a malformed one throws. -/
inductive ListPointer (R : Type) where
  | null
  | list (elems : List R)
  | malformed

/-- The pointer of the field `setpoint`. -/
def Request.pointer (req : Request R) : ListPointer R :=
  match req.setpoint with
  | none => .null
  | some list => .list list

/-- What unchecked accesses find: the word `i` behind a list, and the pointer to the setpoint
in a message whose union does not hold a request. -/
structure Unchecked (R : Type) where
  element : List R → ℕ → R
  setpoint : MessageBody R → ListPointer R

/-- A debug build checks the preconditions of accessors, and throws; a release build does
not. -/
inductive Build (R : Type) where
  | debug
  | release (memory : Unchecked R)

namespace Build

variable (build : Build R) {m : Type → Type} [Effects Err m]

/-- `list[i]` -/
def element (list : List R) (i : ℕ) : m R :=
  match list[i]? with
  | some x => pure x
  | none =>
    match build with
    | debug => raise .kjException
    | release memory => pure (memory.element list i)

/-- `msg.getRequest()`, of which only the setpoint is used; a request that was never set reads
as one without setpoint. -/
def getRequest (msg : Message R) : m (ListPointer R) :=
  match msg.body with
  | .request none => pure .null
  | .request (some req) => pure req.pointer
  | body =>
    match build with
    | debug => raise .kjException
    | release memory => pure (memory.setpoint body)

end Build

namespace ListPointer

def hasSetpoint : ListPointer R → Bool
  | null => false
  | _ => true

def getSetpoint {m : Type → Type} [Effects Err m] : ListPointer R → m (List R)
  | null => pure []
  | list elems => pure elems
  | malformed => raise .kjException

end ListPointer

/-! ### The decoders -/

/-- The output parameters. -/
structure OutParams (R : Type) where
  P : R
  Q : R
  senderId : UInt32

def assignSenderId (senderId : UInt32) : Run (OutParams R) Err Unit := fun out =>
  (ok (), { out with senderId := senderId })

def assignP (P : R) : Run (OutParams R) Err Unit := fun out => (ok (), { out with P := P })

def assignQ (Q : R) : Run (OutParams R) Err Unit := fun out => (ok (), { out with Q := Q })

/-- `*P = sp[0]; *Q = sp[1]; return 1;` -/
def assignSetpoint (build : Build R) (sp : List R) : Run (OutParams R) Err ℤ := do
  let P ← build.element sp 0
  assignP P
  let Q ← build.element sp 1
  assignQ Q
  pure 1

def parseRequest (build : Build R) (reader : CapnpReader R) (inBuffer : List UInt8) :
    Run (OutParams R) Err ℤ :=
  Run.catchAll hlapi_unknown_error do
    let msg ← (reader.getMessage inBuffer).lift
    assignSenderId msg.agentId
    let req ← build.getRequest msg
    if !req.hasSetpoint then
      pure 0
    else do
      let sp ← req.getSetpoint
      assignSetpoint build sp

def getImplSetpointFromAdv (build : Build R) (reader : CapnpReader R)
    (inBuffer : List UInt8) : Run (OutParams R) Err ℤ :=
  Run.catchAll hlapi_unknown_error do
    let msg ← (reader.getMessage inBuffer).lift
    assignSenderId msg.agentId
    match msg.body with
    | .advertisement (some adv) => assignSetpoint build adv.implementedSetpoint
    -- `!msg.hasAdvertisement()`
    | _ => pure hlapi_malformed_advertisement

/-- A buffer that is not a message changes nothing. -/
theorem decoders_of_throw {build : Build R} {reader : CapnpReader R} {inBuffer : List UInt8}
    {e : Err} (h : reader.getMessage inBuffer = .throw e) (out : OutParams R) :
    parseRequest build reader inBuffer out = (ok hlapi_unknown_error, out) ∧
      getImplSetpointFromAdv build reader inBuffer out = (ok hlapi_unknown_error, out) := by
  rw [parseRequest, getImplSetpointFromAdv, h]
  exact ⟨rfl, rfl⟩

/-- A release build always reads on. -/
theorem element_release (memory : Unchecked R) (list : List R) (i : ℕ) :
    ∃ x, ((Build.release memory).element list i : Run (OutParams R) Err R) = pure x := by
  rw [Build.element]
  cases list[i]? with
  | none => exact ⟨_, rfl⟩
  | some x => exact ⟨x, rfl⟩

theorem assignSetpoint_release (memory : Unchecked R) (sp : List R) (out : OutParams R) :
    ∃ out', assignSetpoint (.release memory) sp out = (ok 1, out') := by
  obtain ⟨P, hP⟩ := element_release memory sp 0
  obtain ⟨Q, hQ⟩ := element_release memory sp 1
  refine ⟨{ out with P := P, Q := Q }, ?_⟩
  rw [assignSetpoint, hP, hQ]
  rfl

/-! ### What they are documented to do -/

namespace Message

variable (msg : Message R)

/-- A request to implement `(P, Q)`. -/
def RequestsSetpoint (P Q : R) : Prop :=
  ∃ rest, msg.body = .request (some ⟨some (P :: Q :: rest)⟩)

/-- A request without setpoint. -/
def RequestsAdvertisement : Prop :=
  msg.body = .request none ∨ msg.body = .request (some ⟨none⟩)

/-- An advertisement of an agent that has implemented `(P, Q)`. -/
def Implements (P Q : R) : Prop :=
  ∃ adv rest, msg.body = .advertisement (some adv) ∧ adv.implementedSetpoint = P :: Q :: rest

end Message

/-- The code is 1 and the parameters are assigned for the setpoints in `found`, it is 0 if
`absent`, and negative, with both parameters as they were, otherwise. -/
def Decodes (found : R → R → Prop) (absent : Prop) (out : OutParams R)
    (result : Outcome Err ℤ × OutParams R) : Prop :=
  ∃ code out', result = (ok code, out') ∧
    (code = 1 ↔ ∃ P Q, found P Q) ∧ (∀ P Q, found P Q → out'.P = P ∧ out'.Q = Q) ∧
    (code = 0 ↔ absent) ∧
    ((¬ ∃ P Q, found P Q) → ¬ absent → code < 0 ∧ out'.P = out.P ∧ out'.Q = out.Q)

/-! ### When they do that -/

/-- The list has two elements, or the build checks this before `*P` changes. -/
def Build.ReadsTwo (build : Build R) (sp : List R) (P : R) : Prop :=
  2 ≤ sp.length ∨ (build = .debug ∧ ∀ p ∈ sp.head?, p = P)

/-- The condition for `parseRequest`: a setpoint can be read, and a message that is not a
request is noticed. -/
def Build.DecodesRequest (build : Build R) (msg : Message R) (P : R) : Prop :=
  match msg.body with
  | .request (some ⟨some sp⟩) => build.ReadsTwo sp P
  | .request _ => True
  | body => ∀ memory, build = .release memory → memory.setpoint body = .malformed

/-- The condition for `getImplSetpointFromAdv`. -/
def Build.DecodesImplSetpoint (build : Build R) (msg : Message R) (P : R) : Prop :=
  match msg.body with
  | .advertisement (some adv) => build.ReadsTwo adv.implementedSetpoint P
  | _ => True

section Outcomes

variable {found : R → R → Prop} {absent : Prop} {out out' : OutParams R} {code : ℤ}

/-- A code other than 0 and 1 is returned: it is an error, and nothing changes. -/
theorem decodes_error_iff (hfound : ¬ ∃ P Q, found P Q) (habsent : ¬ absent) (hcode : code < 0) :
    Decodes found absent out (ok code, out') ↔ out'.P = out.P ∧ out'.Q = out.Q := by
  constructor
  · rintro ⟨_, _, heq, -, -, -, h⟩
    obtain rfl : out' = _ := congrArg Prod.snd heq
    exact (h hfound habsent).2
  · rintro ⟨hP, hQ⟩
    refine ⟨code, out', rfl, iff_of_false ?_ hfound, ?_, iff_of_false ?_ habsent, ?_⟩
    · omega
    · intro P Q h
      exact absurd ⟨P, Q, h⟩ hfound
    · omega
    · intro _ _
      exact ⟨hcode, hP, hQ⟩

/-- A code of success is wrong for a message that has nothing to return. -/
theorem not_decodes (hfound : ¬ ∃ P Q, found P Q) (habsent : ¬ absent) (hcode : 0 ≤ code) :
    ¬ Decodes found absent out (ok code, out') := by
  rintro ⟨_, _, heq, -, -, -, h⟩
  obtain rfl : code = _ := Outcome.ok.inj (congrArg Prod.fst heq)
  exact absurd (h hfound habsent).1 (not_lt.mpr hcode)

/-- **Reading the setpoint**, in either build. -/
theorem decodes_assignSetpoint_iff {build : Build R} {sp : List R} {id : UInt32}
    (hfound : ∀ P Q, found P Q ↔ ∃ rest, sp = P :: Q :: rest) (habsent : ¬ absent) :
    Decodes found absent out (Run.catchAll hlapi_unknown_error (assignSetpoint build sp)
      { out with senderId := id }) ↔ build.ReadsTwo sp out.P := by
  have hshort : sp.length < 2 → ¬ ∃ P Q, found P Q := by
    rintro hlen ⟨P, Q, h⟩
    obtain ⟨rest, rfl⟩ := (hfound P Q).mp h
    simp at hlen
  obtain - | ⟨p, - | ⟨q, rest⟩⟩ := sp
  · have hnone := hshort (by simp)
    cases build with
    | debug =>
      -- the first access throws
      refine (decodes_error_iff hnone habsent (by decide)).trans (iff_of_true ⟨rfl, rfl⟩ ?_)
      exact Or.inr ⟨rfl, by simp⟩
    | release memory =>
      -- both accesses are beyond the end of the list
      refine iff_of_false (not_decodes hnone habsent (show (0 : ℤ) ≤ 1 by norm_num)) ?_
      simp [Build.ReadsTwo]
  · have hnone := hshort (by simp)
    cases build with
    | debug =>
      -- `*P` is assigned when the second access throws
      refine (decodes_error_iff hnone habsent (by decide)).trans ?_
      show p = out.P ∧ out.Q = out.Q ↔ _
      simp [Build.ReadsTwo]
    | release memory =>
      refine iff_of_false (not_decodes hnone habsent (show (0 : ℤ) ≤ 1 by norm_num)) ?_
      simp [Build.ReadsTwo]
  · refine iff_of_true ⟨1, ⟨p, q, id⟩, ?_, ?_, ?_, ?_, ?_⟩ (Or.inl (by simp))
    · cases build <;> rfl
    · exact iff_of_true rfl ⟨p, q, (hfound p q).mpr ⟨rest, rfl⟩⟩
    · intro P Q h
      obtain ⟨rest', heq⟩ := (hfound P Q).mp h
      obtain ⟨rfl, rfl, -⟩ : p = P ∧ q = Q ∧ rest = rest' := by simpa using heq
      exact ⟨rfl, rfl⟩
    · exact iff_of_false (by norm_num) habsent
    · intro hnone
      exact absurd ⟨p, q, (hfound p q).mpr ⟨rest, rfl⟩⟩ hnone

end Outcomes

section Messages

variable {build : Build R} {reader : CapnpReader R} {inBuffer : List UInt8} {msg : Message R}
  {out : OutParams R}

theorem parseRequest_eq (hmsg : reader.getMessage inBuffer = ok msg) :
    parseRequest build reader inBuffer out
      = Run.catchAll hlapi_unknown_error (do
          let req ← build.getRequest msg
          if !req.hasSetpoint then
            pure 0
          else do
            let sp ← req.getSetpoint
            assignSetpoint build sp) { out with senderId := msg.agentId } := by
  rw [parseRequest, hmsg]
  rfl

/-- A request without setpoint has nothing to assign. -/
theorem decodes_absent {id : UInt32} (habsent : msg.RequestsAdvertisement) :
    Decodes msg.RequestsSetpoint msg.RequestsAdvertisement out
      (ok 0, { out with senderId := id }) := by
  have hfound : ¬ ∃ P Q, msg.RequestsSetpoint P Q := by
    rintro ⟨P, Q, rest, h⟩
    rcases habsent with h' | h'
    · rw [h] at h'
      simp at h'
    · rw [h] at h'
      simp at h'
  refine ⟨0, _, rfl, iff_of_false (by norm_num) hfound, ?_, iff_of_true rfl habsent, ?_⟩
  · intro P Q h
    exact absurd ⟨P, Q, h⟩ hfound
  · intro _ h
    exact absurd habsent h

/-- What is read when the union does not hold a request. -/
theorem getRequest_other (hbody : ∀ req, msg.body ≠ .request req) :
    (build.getRequest msg : Run (OutParams R) Err (ListPointer R)) =
      match build with
      | .debug => raise .kjException
      | .release memory => pure (memory.setpoint msg.body) := by
  rw [Build.getRequest]
  split
  · next h => exact absurd h (hbody _)
  · next h => exact absurd h (hbody _)
  · rfl

/-- A message that is not a request. -/
theorem decodes_parseRequest_other (hmsg : reader.getMessage inBuffer = ok msg)
    (hbody : ∀ req, msg.body ≠ .request req) :
    Decodes msg.RequestsSetpoint msg.RequestsAdvertisement out
        (parseRequest build reader inBuffer out)
      ↔ ∀ memory, build = .release memory → memory.setpoint msg.body = .malformed := by
  have hfound : ¬ ∃ P Q, msg.RequestsSetpoint P Q := by
    rintro ⟨P, Q, rest, h⟩
    exact hbody _ h
  have habsent : ¬ msg.RequestsAdvertisement := by
    rintro (h | h)
    · exact hbody _ h
    · exact hbody _ h
  rw [parseRequest_eq hmsg, getRequest_other hbody]
  cases build with
  | debug =>
    exact (decodes_error_iff hfound habsent (by decide)).trans
      (iff_of_true ⟨rfl, rfl⟩ (by simp))
  | release memory =>
    dsimp only
    rw [Run.pure_bind]
    -- what the memory holds where the setpoint of a request would be
    cases hsp : memory.setpoint msg.body with
    | null =>
      refine iff_of_false (not_decodes hfound habsent (show (0 : ℤ) ≤ 0 by norm_num)) ?_
      intro h
      rw [h memory rfl] at hsp
      simp at hsp
    | list elems =>
      obtain ⟨out', hassign⟩ := assignSetpoint_release memory elems
        { out with senderId := msg.agentId }
      have hcode : (0 : ℤ) ≤ 1 := by norm_num
      have hresult := Run.catchAll_ok (a := hlapi_unknown_error) hassign
      show Decodes _ _ out (Run.catchAll _ (assignSetpoint _ elems) _) ↔ _
      rw [hresult]
      refine iff_of_false (not_decodes hfound habsent hcode) ?_
      intro h
      rw [h memory rfl] at hsp
      simp at hsp
    | malformed =>
      refine (decodes_error_iff hfound habsent (by decide)).trans (iff_of_true ⟨rfl, rfl⟩ ?_)
      intro _ heq
      obtain rfl := Build.release.inj heq
      exact hsp

/-- A request. -/
theorem decodes_parseRequest_request (hmsg : reader.getMessage inBuffer = ok msg)
    {req : Option (Request R)} (hbody : msg.body = .request req) :
    Decodes msg.RequestsSetpoint msg.RequestsAdvertisement out
        (parseRequest build reader inBuffer out)
      ↔ ∀ sp, req = some ⟨some sp⟩ → build.ReadsTwo sp out.P := by
  rw [parseRequest_eq hmsg, Build.getRequest, hbody]
  obtain - | ⟨- | sp⟩ := req
  · refine iff_of_true ?_ (by simp)
    exact decodes_absent (Or.inl hbody)
  · refine iff_of_true ?_ (by simp)
    exact decodes_absent (Or.inr hbody)
  · refine (decodes_assignSetpoint_iff (fun P Q => ?_) ?_).trans ?_
    · simp [Message.RequestsSetpoint, hbody]
    · simp [Message.RequestsAdvertisement, hbody]
    · simp

/-- An advertisement. -/
theorem decodes_getImplSetpoint_advertisement (hmsg : reader.getMessage inBuffer = ok msg)
    {adv : Advertisement R} (hbody : msg.body = .advertisement (some adv)) :
    Decodes msg.Implements False out (getImplSetpointFromAdv build reader inBuffer out)
      ↔ build.ReadsTwo adv.implementedSetpoint out.P := by
  have heq : getImplSetpointFromAdv build reader inBuffer out
      = Run.catchAll hlapi_unknown_error (assignSetpoint build adv.implementedSetpoint)
        { out with senderId := msg.agentId } := by
    rw [getImplSetpointFromAdv, hmsg]
    show Run.catchAll _ (match msg.body with | .advertisement (some adv) => _ | _ => _) _ = _
    rw [hbody]
  rw [heq]
  refine decodes_assignSetpoint_iff (fun P Q => ?_) not_false
  simp [Message.Implements, hbody]

/-- A message that is not an advertisement. -/
theorem decodes_getImplSetpoint_other (hmsg : reader.getMessage inBuffer = ok msg)
    (hbody : ∀ adv, msg.body ≠ .advertisement (some adv)) :
    Decodes msg.Implements False out (getImplSetpointFromAdv build reader inBuffer out) := by
  have hfound : ¬ ∃ P Q, msg.Implements P Q := by
    rintro ⟨P, Q, adv, rest, h, -⟩
    exact hbody _ h
  have heq : getImplSetpointFromAdv build reader inBuffer out
      = (ok hlapi_malformed_advertisement, { out with senderId := msg.agentId }) := by
    rw [getImplSetpointFromAdv, hmsg]
    show Run.catchAll _ (match msg.body with | .advertisement (some adv) => _ | _ => _) _ = _
    split
    · next h => exact absurd h (hbody _)
    · rfl
  rw [heq]
  exact (decodes_error_iff hfound not_false (by decide)).mpr ⟨rfl, rfl⟩

end Messages

/-- **A decoder does what it is documented to do** exactly when the message is of the expected
kind, or is seen not to be, and its list is long enough, or is seen to be too short before
`*P` changes. -/
theorem decodes_iff {build : Build R} {reader : CapnpReader R} {inBuffer : List UInt8}
    {msg : Message R} (hmsg : reader.getMessage inBuffer = ok msg) (out : OutParams R) :
    (Decodes msg.RequestsSetpoint msg.RequestsAdvertisement out
        (parseRequest build reader inBuffer out) ↔ build.DecodesRequest msg out.P) ∧
      (Decodes msg.Implements False out (getImplSetpointFromAdv build reader inBuffer out)
        ↔ build.DecodesImplSetpoint msg out.P) := by
  constructor
  · rw [Build.DecodesRequest]
    split
    · next h => simpa using decodes_parseRequest_request hmsg h
    · next req hnone h =>
      refine (decodes_parseRequest_request hmsg h).trans (iff_of_true ?_ trivial)
      rintro sp rfl
      exact absurd rfl (hnone sp)
    · next hbody => exact decodes_parseRequest_other hmsg hbody
  · rw [Build.DecodesImplSetpoint]
    split
    · next h => exact decodes_getImplSetpoint_advertisement hmsg h
    · next hbody => exact iff_of_true (decodes_getImplSetpoint_other hmsg hbody) trivial

/-- A request of agent 7 for the setpoint `(1, 2)`, packed. -/
def setpointBytes : List UInt8 :=
  [0x10, 0x06, 0x50, 0x01, 0x01, 0x01, 0x07, 0x40, 0x01, 0x11, 0x01, 0x15, 0xC0, 0xF0, 0x3F,
    0x80, 0x40]

/-- What these bytes are read as. -/
noncomputable def setpointMessage : Message ℝ := ⟨7, .request (some ⟨some [1, 2]⟩)⟩

theorem decodes_iff_sample :
    Decodes setpointMessage.RequestsSetpoint setpointMessage.RequestsAdvertisement ⟨0, 0, 0⟩
      (parseRequest .debug (.ofInput setpointBytes (ok setpointMessage)) setpointBytes
        ⟨0, 0, 0⟩) := by
  have hmsg : CapnpReader.getMessage (.ofInput setpointBytes (ok setpointMessage)) setpointBytes
      = ok setpointMessage := StreamReader.read_ofInput _ _ _
  exact (decodes_iff hmsg ⟨0, 0, 0⟩).1.mpr (Or.inl le_rfl)

/-- A request of agent 7 whose setpoint is the list `[1]`, packed. -/
def halfSetpointBytes : List UInt8 :=
  [0x10, 0x05, 0x50, 0x01, 0x01, 0x01, 0x07, 0x40, 0x01, 0x11, 0x01, 0x0D, 0xC0, 0xF0, 0x3F]

/-- What these bytes are read as. -/
noncomputable def halfSetpoint : Message ℝ := ⟨7, .request (some ⟨some [1]⟩)⟩

/-- The list `[1]` is an error in a debug build, but `*P` is changed; a release build returns 1
for it. -/
theorem half_setpoint_assigned :
    parseRequest .debug (.ofInput halfSetpointBytes (ok halfSetpoint)) halfSetpointBytes ⟨0, 0, 0⟩
        = (ok hlapi_unknown_error, ⟨1, 0, 7⟩) ∧
      (∀ memory, (parseRequest (.release memory) (.ofInput halfSetpointBytes (ok halfSetpoint))
        halfSetpointBytes ⟨0, 0, 0⟩).1 = ok 1) ∧
      ¬ Decodes halfSetpoint.RequestsSetpoint halfSetpoint.RequestsAdvertisement ⟨0, 0, 0⟩
        (parseRequest .debug (.ofInput halfSetpointBytes (ok halfSetpoint)) halfSetpointBytes
          ⟨0, 0, 0⟩) := by
  have hmsg : CapnpReader.getMessage (.ofInput halfSetpointBytes (ok halfSetpoint))
      halfSetpointBytes = ok halfSetpoint := StreamReader.read_ofInput _ _ _
  refine ⟨?_, fun memory => ?_, fun h => ?_⟩
  · rw [parseRequest_eq hmsg]
    rfl
  · rw [parseRequest_eq hmsg]
    rfl
  · have hsafe := (decodes_parseRequest_request hmsg rfl).mp h [1] rfl
    simp [Build.ReadsTwo] at hsafe

end Commelec
