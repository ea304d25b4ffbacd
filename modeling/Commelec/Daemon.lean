/-
Commelec/Daemon.lean

`CommelecDaemon::listenGAside`: receive a datagram, decode the request in it and forward
it as a JSON object.

The receive buffer `_network_data` is a field of the daemon.  A datagram overwrites its
first bytes only, and the decoder is given the whole buffer, not the bytes that were
received.  So a datagram that ends before its message does is completed with bytes of
earlier datagrams.

Cap'n Proto's packed reader is a parameter: any `StreamReader`.  Its lists check their index in a
build with assertions only; the daemon here is that of such a build.
-/
import Commelec.Lib.Stream
import Commelec.Eval

namespace Commelec

open Effectful Outcome

inductive Resource where
  | battery | pv | fuelcell | uncontrollableLoad | uncontrollableGenerator | discrete
  | discreteUnif | zenone | custom
  deriving DecidableEq, Repr

/-- Length of the data buffer for incoming requests. -/
def networkBufLen : ℕ := 2048

abbrev NetworkBuffer : Type := Buffer UInt8 networkBufLen

/-- The JSON object that is sent to the resource agent. -/
structure RequestJson (R : Type) where
  setpointValid : Bool
  senderId : UInt32
  P : R
  Q : R
  deriving DecidableEq

/-- What is sent to each client. -/
inductive Forwarded (R : Type) where
  | payload (bytes : List UInt8)
  | json (object : RequestJson R)
  deriving DecidableEq

/-- Cap'n Proto's packed reader and `getRoot<msg::Message>`. -/
abbrev CapnpReader (R : Type) : Type := StreamReader UInt8 (Outcome Err (Message R))

variable {R : Type} [Double R]

/-- `CapnpReader(buffer).getMessage()`; the reader fails when the buffer ends early. -/
def CapnpReader.getMessage (reader : CapnpReader R) (buffer : List UInt8) :
    Outcome Err (Message R) :=
  reader.read (.throw .kjException) buffer

/-- The JSON object for a message; one that is not a request ends in `throw;`, and a setpoint
with fewer than two elements in an exception of Cap'n Proto. -/
def requestJson (msg : Message R) : Outcome Err (RequestJson R) :=
  match msg.body with
  | .request (some req) =>
    match req.setpoint with
    | some (P :: Q :: _) => pure ⟨true, msg.agentId, P, Q⟩
    | some _ => raise .kjException
    | none => pure ⟨false, msg.agentId, 0, 0⟩
  | _ => raise .terminate

/-- What the bytes of a buffer are translated to. -/
def translate (reader : CapnpReader R) (buffer : List UInt8) : Outcome Err (Forwarded R) := do
  let msg ← reader.getMessage buffer
  let object ← requestJson msg
  pure (.json object)

/-- `async_receive_from`: the number of bytes received. -/
def receiveFrom (datagram : List UInt8) : Run NetworkBuffer Err ℕ := fun buffer =>
  (ok (min datagram.length networkBufLen), buffer.overwrite datagram)

/-- `_network_data` -/
def networkData : Run NetworkBuffer Err (List UInt8) := fun buffer => (ok buffer.data, buffer)

/-- One round of `listenGAside`. -/
def forwardRequest (resourceType : Resource) (reader : CapnpReader R)
    (datagram : List UInt8) : Run NetworkBuffer Err (Forwarded R) := do
  let bytesReceived ← receiveFrom datagram
  let data ← networkData
  if resourceType = .custom then
    pure (.payload (data.take bytesReceived))
  else
    -- the reader gets all of `asio_buffer`
    (translate reader data).lift

/-- `listenGAside`, for the datagrams that arrive; an exception ends the loop. -/
def listenGAside (resourceType : Resource) (reader : CapnpReader R)
    (datagrams : List (List UInt8)) : Run NetworkBuffer Err (List (Forwarded R)) :=
  collect (datagrams.map (forwardRequest resourceType reader))

/-- With some history, the outcome for the datagram is `o`. -/
def Forwards (resourceType : Resource) (reader : CapnpReader R) (datagram : List UInt8)
    (o : Outcome Err (Forwarded R)) : Prop :=
  ∃ (start : NetworkBuffer) (history : List (List UInt8)) (sent : List (Forwarded R))
    (buffer : NetworkBuffer),
    listenGAside resourceType reader history start = (ok sent, buffer) ∧
      (forwardRequest resourceType reader datagram buffer).1 = o

/-- The message ends within the datagram, or the datagram fills the buffer. -/
def SelfContained (reader : CapnpReader R) (datagram : List UInt8) : Prop :=
  (reader.decided datagram).isSome ∨ datagram.length = networkBufLen

/-- What follows the datagram in the buffer makes no difference. -/
def Determined (reader : CapnpReader R) (datagram : List UInt8) : Prop :=
  ∀ rest rest' : List UInt8, datagram.length + rest.length = networkBufLen →
    datagram.length + rest'.length = networkBufLen →
      translate reader (datagram ++ rest) = translate reader (datagram ++ rest')

variable {resourceType : Resource} {reader : CapnpReader R} {datagram : List UInt8}

/-- **One round**, on a buffer. -/
theorem forwardRequest_eq (hres : resourceType ≠ .custom) (buffer : NetworkBuffer) :
    forwardRequest resourceType reader datagram buffer
      = (translate reader (buffer.overwrite datagram).data, buffer.overwrite datagram) := by
  have hreceive : receiveFrom datagram buffer
      = (ok (min datagram.length networkBufLen), buffer.overwrite datagram) := rfl
  have hdata : networkData (buffer.overwrite datagram)
      = (ok (buffer.overwrite datagram).data, buffer.overwrite datagram) := rfl
  rw [forwardRequest, Run.bind_ok hreceive, Run.bind_ok hdata, if_neg hres, Run.lift_apply]

/-- **Is a request translated from its own bytes only?**  Yes if the message ends within
the datagram or the datagram fills the buffer, whatever came before; and the outcome is
the same after all histories exactly when what follows the datagram in the buffer makes
no difference. -/
theorem forwards_own_bytes (hres : resourceType ≠ .custom)
    (hlen : datagram.length ≤ networkBufLen) :
    (SelfContained reader datagram →
      ∀ o, Forwards resourceType reader datagram o → o = translate reader datagram) ∧
    ((∀ o o', Forwards resourceType reader datagram o → Forwards resourceType reader datagram o' →
        o = o') ↔ Determined reader datagram) := by
  refine ⟨fun hself o hout => ?_, fun hsame rest rest' hrest hrest' => ?_,
    fun hdet o o' hout hout' => ?_⟩
  · obtain ⟨-, -, -, buffer, -, rfl⟩ := hout
    rw [forwardRequest_eq hres]
    show translate reader _ = _
    rw [translate, CapnpReader.getMessage,
      Buffer.read_overwrite reader (.throw .kjException) buffer hlen hself]
    rfl
  · -- no history: the bytes behind the datagram are what the array happened to hold
    obtain ⟨b, hb⟩ := Buffer.exists_data_overwrite hrest
    obtain ⟨b', hb'⟩ := Buffer.exists_data_overwrite hrest'
    have h := hsame _ _ ⟨b, [], [], b, rfl, rfl⟩ ⟨b', [], [], b', rfl, rfl⟩
    rwa [forwardRequest_eq hres, forwardRequest_eq hres, hb, hb'] at h
  · obtain ⟨-, -, -, b, -, rfl⟩ := hout
    obtain ⟨-, -, -, b', -, rfl⟩ := hout'
    rw [forwardRequest_eq hres, forwardRequest_eq hres]
    show translate reader _ = translate reader _
    rw [b.data_overwrite hlen, b'.data_overwrite hlen]
    refine hdet _ _ ?_ ?_
    · rw [List.length_drop, b.length_data]
      omega
    · rw [List.length_drop, b'.length_data]
      omega

/-! ### An empty datagram -/

/-- A request without setpoint from the agent `agentId` (not 0), packed. -/
def requestBytes (agentId : UInt8) : List UInt8 :=
  [0x10, 0x04, 0x50, 0x01, 0x01, 0x01, agentId, 0x40, 0x01, 0x00, 0x00]

/-- What these bytes are read as, and what is forwarded. -/
def requestOf (agentId : UInt8) : Message ℝ :=
  ⟨agentId.toUInt32, .request (some ⟨none⟩)⟩

noncomputable def jsonOf (agentId : UInt8) : Forwarded ℝ :=
  .json ⟨false, agentId.toUInt32, 0, 0⟩

/-- Cap'n Proto's packed reader on inputs that start with such a request. -/
def requestReader : CapnpReader ℝ where
  decided input :=
    if requestBytes (input.getD 6 0) <+: input then some (ok (requestOf (input.getD 6 0)))
    else none
  stable := by
    intro input rest r h
    split at h
    · next hpre =>
      obtain ⟨tail, htail⟩ := hpre
      have hsix : (input ++ rest).getD 6 0 = input.getD 6 0 := by
        rw [← htail]
        rfl
      have hpre' : requestBytes (input.getD 6 0) <+: input ++ rest := by
        rw [← htail, List.append_assoc]
        exact List.prefix_append _ _
      rw [hsix, if_pos hpre']
      exact h
    · exact absurd h (by simp)

theorem requestReader_decided (agentId : UInt8) (rest : List UInt8) :
    requestReader.decided (requestBytes agentId ++ rest) = some (ok (requestOf agentId)) := by
  have hsix : (requestBytes agentId ++ rest).getD 6 0 = agentId := rfl
  show (if _ then _ else _) = _
  rw [hsix, if_pos (List.prefix_append _ _)]

theorem translate_requestBytes (agentId : UInt8) (rest : List UInt8) :
    translate requestReader (requestBytes agentId ++ rest) = ok (jsonOf agentId) := by
  rw [translate, CapnpReader.getMessage, StreamReader.read, requestReader_decided]
  rfl

theorem length_requestBytes (agentId : UInt8) :
    (requestBytes agentId).length ≤ networkBufLen := by
  show 11 ≤ 2048
  norm_num

theorem forwardRequest_requestBytes (agentId : UInt8) (start : NetworkBuffer) :
    forwardRequest .battery requestReader (requestBytes agentId) start
      = (ok (jsonOf agentId), start.overwrite (requestBytes agentId)) := by
  rw [forwardRequest_eq (by decide), start.data_overwrite (length_requestBytes agentId),
    translate_requestBytes]

/-- After the request of agent 2, that of agent 1 is translated from its own bytes. -/
theorem forwards_own_bytes_sample :
    ok (jsonOf 1) = translate requestReader (requestBytes 1) := by
  have hself : SelfContained requestReader (requestBytes 1) := by
    have h := requestReader_decided 1 []
    rw [List.append_nil] at h
    exact Or.inl (by rw [h]; rfl)
  let start : NetworkBuffer := ⟨List.replicate networkBufLen 0, List.length_replicate⟩
  have hhistory : listenGAside .battery requestReader [requestBytes 2] start
      = (ok [jsonOf 2], start.overwrite (requestBytes 2)) := by
    rw [listenGAside, List.map_singleton, collect_cons,
      Run.bind_ok (forwardRequest_requestBytes 2 start)]
    rfl
  have hres : Resource.battery ≠ .custom := by decide
  exact (forwards_own_bytes hres (length_requestBytes 1)).1 hself _
    ⟨start, _, _, _, hhistory, by rw [forwardRequest_requestBytes]⟩

/-- After a request, an empty datagram is taken for the same request. -/
theorem listenGAside_nil (agentId : UInt8) (start : NetworkBuffer) :
    (listenGAside .battery requestReader [requestBytes agentId, []] start).1
      = ok [jsonOf agentId, jsonOf agentId] := by
  have hagain : forwardRequest .battery requestReader []
      (start.overwrite (requestBytes agentId))
      = (ok (jsonOf agentId), (start.overwrite (requestBytes agentId)).overwrite []) := by
    rw [forwardRequest_eq (by decide), Buffer.data_overwrite _ (Nat.zero_le _),
      start.data_overwrite (length_requestBytes agentId)]
    exact congrArg (·, _) (translate_requestBytes agentId _)
  rw [listenGAside, List.map_cons, List.map_singleton, collect_cons,
    Run.bind_ok (forwardRequest_requestBytes agentId start), collect_cons]
  have hrest : (forwardRequest .battery requestReader [] >>= fun f =>
      collect [] >>= fun fs => pure (f :: fs) : Run NetworkBuffer Err (List (Forwarded ℝ)))
        (start.overwrite (requestBytes agentId))
      = (ok [jsonOf agentId], (start.overwrite (requestBytes agentId)).overwrite []) := by
    rw [Run.bind_ok hagain]
    rfl
  rw [Run.bind_ok hrest]
  rfl

/-- The empty datagram is translated to the request of agent 1 or of agent 2, whichever
came before. -/
theorem empty_datagram_differs :
    ∃ start : NetworkBuffer,
      (listenGAside .battery requestReader [requestBytes 1, []] start).1
        = ok [jsonOf 1, jsonOf 1] ∧
      (listenGAside .battery requestReader [requestBytes 2, []] start).1
        = ok [jsonOf 2, jsonOf 2] ∧
      jsonOf 1 ≠ jsonOf 2 := by
  refine ⟨⟨List.replicate networkBufLen 0, List.length_replicate⟩, listenGAside_nil 1 _,
    listenGAside_nil 2 _, fun h => ?_⟩
  simp [jsonOf] at h

end Commelec
