/-
Commelec/VizSession.lean

A session of the visualization server with a client (`TCPSession` of `visualization_server.cpp`
and `viz-user.py`).

A client sends a header with two lengths, a request in JSON and an advertisement; the server
replies with a length and a JSON object, and waits for the next request.  TCP delivers the bytes
in pieces of any size.

* `fromNetwork_toNetwork`, `advance_clientRequest` — the framing of requests round-trips;
* `session_replies` — **every request gets its reply**: whatever the pieces and however long the
  writes take, the server writes the replies to the requests, in their order, and closes the
  connection at the first request that it cannot reply to;
* `client_reads_iff` — the client reads the reply to its request if and only if none of its calls
  of `recv` returns less than it asks for.

The libraries are parameters (`VizLibraries`): Cap'n Proto, the JSON parser and writer, and the
solver of linear programs.
-/
import Commelec.Coroutines
import Commelec.Lib.Framing
import Commelec.Rasterization

namespace Commelec

open Effectful Outcome Double

/-! ### Network byte order -/

/-- The bytes of `host_to_network_long(n)`, and `struct.pack('!I', n)`. -/
def toNetwork (n : UInt32) : List UInt8 :=
  [.ofNat (n.toNat / 2 ^ 24), .ofNat (n.toNat / 2 ^ 16), .ofNat (n.toNat / 2 ^ 8), .ofNat n.toNat]

/-- `network_to_host_long` of four bytes, and `struct.unpack('!I', bytes)`. -/
def fromNetwork (bytes : List UInt8) : UInt32 :=
  .ofNat (bytes.foldl (fun n byte => 2 ^ 8 * n + byte.toNat) 0)

theorem fromNetwork_toNetwork (n : UInt32) : fromNetwork (toNetwork n) = n := by
  have hn : n.toNat < 2 ^ 32 := n.toNat_lt
  apply UInt32.toNat_inj.mp
  rw [fromNetwork, toNetwork]
  simp only [List.foldl_cons, List.foldl_nil, UInt8.toNat_ofNat', UInt32.toNat_ofNat']
  omega

theorem length_toNetwork (n : UInt32) : (toNetwork n).length = 4 := rfl

/-! ### Requests -/

/-- What the server reads: `sizeof(header_t)` bytes, and as many as the header says. -/
def readRequest : Reads UInt8 (List UInt8 × List UInt8) :=
  .read 8 fun header =>
    .read (fromNetwork (header.take 4)).toNat fun jsonData =>
      .read (fromNetwork (header.drop 4)).toNat fun capnpData => .done (jsonData, capnpData)

/-- `makeHeader(jsonsize, capnpsize)`; `struct.pack` fails for numbers that are too large. -/
def makeHeader (jsonsize capnpsize : ℕ) : Option (List UInt8) :=
  if jsonsize < 2 ^ 32 ∧ capnpsize < 2 ^ 32 then
    some (toNetwork (.ofNat jsonsize) ++ toNetwork (.ofNat capnpsize))
  else none

/-- What the client sends: the header, the request and the advertisement. -/
def clientRequest (jsnReq data : List UInt8) : Option (List UInt8) :=
  (makeHeader jsnReq.length data.length).map (· ++ jsnReq ++ data)

/-- **The framing of requests.** -/
theorem advance_clientRequest {jsnReq data frame : List UInt8}
    (h : clientRequest jsnReq data = some frame) (rest : List UInt8) :
    readRequest.advance (frame ++ rest) = (.done (jsnReq, data), rest) := by
  rw [clientRequest, makeHeader, Option.map_eq_some_iff] at h
  obtain ⟨header, hheader, rfl⟩ := h
  split at hheader
  · next hsize =>
    obtain rfl := Option.some.inj hheader
    have hjson : (UInt32.ofNat jsnReq.length).toNat = jsnReq.length :=
      UInt32.toNat_ofNat_of_lt' hsize.1
    have hcapnp : (UInt32.ofNat data.length).toNat = data.length :=
      UInt32.toNat_ofNat_of_lt' hsize.2
    have htake : List.take 4 (toNetwork (.ofNat jsnReq.length) ++ toNetwork (.ofNat data.length))
        = toNetwork (.ofNat jsnReq.length) := List.take_left' (length_toNetwork _)
    have hdrop : List.drop 4 (toNetwork (.ofNat jsnReq.length) ++ toNetwork (.ofNat data.length))
        = toNetwork (.ofNat data.length) := List.drop_left' (length_toNetwork _)
    rw [readRequest, List.append_assoc, List.append_assoc, Reads.advance_read (by rfl), htake,
      hdrop, fromNetwork_toNetwork, fromNetwork_toNetwork, Reads.advance_read hjson.symm,
      Reads.advance_read hcapnp.symm]
    rfl
  · cases hheader

/-- A request is never read without any bytes. -/
theorem progress_readRequest {input rest : List UInt8} {r : List UInt8 × List UInt8}
    (h : readRequest.advance input = (.done r, rest)) : rest.length < input.length :=
  Reads.advance_lt (by norm_num) h

/-! ### Replies -/

section Session

variable {R : Type} [Double R] [ToIndex R]

inductive ErrorCode where
  | capnproto_payload_invalid | not_an_advertisement
  deriving DecidableEq, Repr

def ErrorCode.toInt : ErrorCode → ℤ
  | capnproto_payload_invalid => 1
  | not_an_advertisement => 2

/-- An element of the array `errors`. -/
structure ErrorReport where
  code : ℤ
  msg : String
  deriving DecidableEq, Repr

/-- `addError(errors, allocator, code, msg)` -/
def addError (errors : List ErrorReport) (code : ErrorCode) (msg : String) : List ErrorReport :=
  errors ++ [⟨code.toInt, msg⟩]

/-- The members of `jsonReply`; `errors` is left out if it is empty. -/
structure JsonReply (R : Type) where
  cf : Option (CostImage R)
  errors : List ErrorReport

structure VizLibraries (R : Type) where
  reader : CapnpReader R
  /-- `e.what()` -/
  what : Err → String
  /-- the members of the object that a text is, if it is one -/
  parse : List UInt8 → Option (RenderRequest R)
  /-- the text of a reply -/
  payload : JsonReply R → List UInt8
  lp : LpSolver R
  nan : R
  fuel : ℕ

variable (lib : VizLibraries R)

/-- The reply to a request; an exception ends the session. -/
def jsonReply (jsonData capnpData : List UInt8) : Outcome Err (JsonReply R) :=
  match lib.reader.getMessage capnpData with
  | .throw e =>
    pure ⟨none,
      addError [] .capnproto_payload_invalid ("capnproto payload invalid: " ++ lib.what e)⟩
  | .outOfFuel => .outOfFuel
  | .ok msg =>
    match msg.body with
    | .advertisement (some adv) =>
      match lib.parse (cString jsonData) with
      | none => raise .assertion
      | some request => do
        let cf ← (renderCostFunction lib.nan lib.lp lib.fuel request adv AdvFunc.blank).1
        pure ⟨cf, []⟩
    | _ =>
      pure ⟨none, addError [] .not_an_advertisement "capnproto payload is not an advertisement"⟩

/-- `lenHeader + payload` -/
def serverReply (payload : List UInt8) : List UInt8 :=
  toNetwork (.ofNat payload.length) ++ payload

/-- What is written for a request, if the session does not end. -/
def replyTo (r : List UInt8 × List UInt8) : Option (List UInt8) :=
  match jsonReply lib r.1 r.2 with
  | .ok reply => some (serverReply (lib.payload reply))
  | _ => none

/-- `sessionLoop` -/
def TCPSession : Server UInt8 (List UInt8 × List UInt8) (List UInt8) where
  request := readRequest
  reply := replyTo lib
  progress := progress_readRequest

variable {lib}

/-- The elements up to the first `none`, and that. -/
def untilNone {α : Type} : List (Option α) → List (Option α)
  | [] => []
  | none :: _ => [none]
  | some a :: l => some a :: untilNone l

theorem untilNone_eq {α : Type} {l : List (Option α)} (h : none ∉ untilNone l) :
    untilNone l = l := by
  induction l with
  | nil => rfl
  | cons a l ih =>
    cases a with
    | none => exact absurd List.mem_cons_self h
    | some a => exact congrArg (some a :: ·) (ih fun hmem => h (List.mem_cons_of_mem _ hmem))

/-- **The replies to a sequence of requests** end with the first one that has none. -/
theorem serve_requests {requests : List (List UInt8 × List UInt8)} {frames : List (List UInt8)}
    (h : List.Forall₂ (fun r frame => clientRequest r.1 r.2 = some frame) requests frames) :
    (TCPSession lib).serve frames.flatten = untilNone (requests.map (replyTo lib)) := by
  induction h with
  | nil => exact Server.serve_nil
  | @cons r frame requests frames hframe _ ih =>
    have hadvance : (TCPSession lib).request.advance (frame :: frames).flatten
        = (.done r, frames.flatten) := advance_clientRequest hframe _
    have hreply : (TCPSession lib).reply r = replyTo lib r := rfl
    rw [Server.serve_done hadvance, hreply, List.map_cons]
    cases replyTo lib r with
    | none => rfl
    | some w => exact congrArg (some w :: ·) ih

variable {requests : List (List UInt8 × List UInt8)} {frames : List (List UInt8)}
variable {es : List (Server.Event UInt8)} {os : List (Option (List UInt8))}
variable {s' : Server.State UInt8 (List UInt8 × List UInt8) (List UInt8)}

/-- **Every request gets its reply.**  The server writes the replies in the order of the requests,
however the bytes arrive and the writes are delayed; it closes the connection at the first request
that it cannot reply to.  When it waits for more, it has replied to all requests, and as long as
the connection is open, only the ends of writes are missing. -/
theorem session_replies
    (h : (TCPSession lib).step.run es (TCPSession lib).start = some (s', os))
    (hframes : List.Forall₂ (fun r frame => clientRequest r.1 r.2 = some frame) requests frames)
    (hreceived : Server.received es = frames.flatten) :
    os <+: untilNone (requests.map (replyTo lib)) ∧
      (∀ p, s'.mode = .reading p → os = requests.map (replyTo lib) ∧ none ∉ os) ∧
      (s'.mode ≠ .closed → ∃ n s'' os',
        (TCPSession lib).step.run (List.replicate n .written) s' = some (s'', os') ∧
          os ++ os' = untilNone (requests.map (replyTo lib)) ∧ ∀ w, s''.mode ≠ .writing w) := by
  obtain ⟨hfirst, hall⟩ := Server.run_serves h
  have hcompletes := Server.run_completes h
  rw [hreceived, serve_requests hframes] at hfirst hall hcompletes
  refine ⟨hfirst, fun p hp => ?_, hcompletes⟩
  obtain ⟨rfl, hnone⟩ := hall p hp
  exact ⟨untilNone_eq hnone, hnone⟩

/-! ### Two requests in three pieces -/

/-- The text of an object with errors. -/
def errorText (errors : List ErrorReport) : String :=
  "\x7b\"errors\":[" ++ ",".intercalate (errors.map fun e =>
    "\x7b\"code\":" ++ toString e.code ++ ",\"msg\":\"" ++ e.msg ++ "\"\x7d") ++ "]\x7d"

noncomputable def requestLibraries : VizLibraries ℝ where
  reader := requestReader
  what _ := "premature end of input"
  parse _ := none
  payload reply := (errorText reply.errors).toList.map fun c => UInt8.ofNat c.toNat
  lp _ _ := .outOfFuel
  nan := 0
  fuel := 0

/-- The reply to an empty payload. -/
def emptyReply : JsonReply ℝ :=
  ⟨none, [⟨1, "capnproto payload invalid: premature end of input"⟩]⟩

theorem jsonReply_empty : jsonReply requestLibraries [] [] = ok emptyReply := rfl

theorem length_emptyReply : (requestLibraries.payload emptyReply).length < 2 ^ 32 := by
  have hcode : (Int.repr 1).toList.length = 1 := rfl
  simp [requestLibraries, emptyReply, errorText, hcode]

/-- The second piece ends within the header of the second request. -/
def threePieces : List (Server.Event UInt8) :=
  [.receive [0, 0, 0], .receive [0, 0, 0, 0, 0, 0, 0], .written,
    .receive ([0, 0, 0, 0, 0, 11] ++ requestBytes 1), .written]

theorem run_threePieces : ∃ s',
    (TCPSession requestLibraries).step.run threePieces (TCPSession requestLibraries).start
      = some (s', [replyTo requestLibraries ([], []),
          replyTo requestLibraries ([], requestBytes 1)]) ∧
      ∃ p, s'.mode = .reading p := 
  ⟨_, rfl, _, rfl⟩

theorem session_replies_threePieces : ∃ s' os,
    (TCPSession requestLibraries).step.run threePieces (TCPSession requestLibraries).start
        = some (s', os) ∧
      (∃ p, s'.mode = .reading p) ∧
      os = [([], []), ([], requestBytes 1)].map (replyTo requestLibraries) ∧ none ∉ os := by
  obtain ⟨s', hrun, p, hp⟩ := run_threePieces
  have hframes : List.Forall₂ (fun r frame => clientRequest r.1 r.2 = some frame)
      [([], []), ([], requestBytes 1)]
      [[0, 0, 0, 0, 0, 0, 0, 0], [0, 0, 0, 0, 0, 0, 0, 11] ++ requestBytes 1] :=
    .cons rfl (.cons rfl .nil)
  obtain ⟨-, hreplies, -⟩ := session_replies hrun hframes rfl
  exact ⟨s', _, hrun, ⟨p, hp⟩, hreplies p hp⟩

/-! ### The client -/

/-- The sizes of the chunks that `readbytes` asks for. -/
def chunks (length : ℕ) : List ℕ :=
  List.replicate (length / 4096) 4096 ++ [length % 4096]

/-- One `recv` after the other; `arrived` tells how many bytes there are for each, and no call
returns more than that. -/
def recvAll (arrived : ℕ → ℕ) : List ℕ → List UInt8 → List UInt8
  | [], _ => []
  | n :: asked, stream =>
    stream.take (min n (arrived 0))
      ++ recvAll (fun i => arrived (i + 1)) asked (stream.drop (min n (arrived 0)))

/-- `readbytes(sock, length)`; after a chunk that is too short, it goes on. -/
def readbytes (arrived : ℕ → ℕ) (length : ℕ) (stream : List UInt8) : List UInt8 :=
  recvAll arrived (chunks length) stream

/-- What the client reads: `struct.unpack` fails unless there are four bytes. -/
def readReply (arrived : ℕ → ℕ) (stream : List UInt8) : Option (List UInt8) :=
  if (stream.take (min 4 (arrived 0))).length = 4 then
    some (readbytes (fun i => arrived (i + 1)) (fromNetwork (stream.take 4)).toNat (stream.drop 4))
  else none

theorem sum_chunks (length : ℕ) : (chunks length).sum = length := by
  rw [chunks, List.sum_append, List.sum_replicate, List.sum_singleton, smul_eq_mul]
  exact Nat.div_add_mod' length 4096

/-- How many bytes the calls return. -/
def returned (arrived : ℕ → ℕ) : List ℕ → ℕ
  | [] => 0
  | n :: asked => min n (arrived 0) + returned (fun i => arrived (i + 1)) asked

theorem recvAll_eq (arrived : ℕ → ℕ) (asked : List ℕ) (stream : List UInt8) :
    recvAll arrived asked stream = stream.take (returned arrived asked) := by
  induction asked generalizing arrived stream with
  | nil => rfl
  | cons n asked ih => rw [recvAll, returned, ih, List.take_add]

/-- No `recv` comes back with less than it was asked for. -/
def Complete (arrived : ℕ → ℕ) (asked : List ℕ) : Prop :=
  ∀ i n, asked[i]? = some n → n ≤ arrived i

theorem complete_cons {arrived : ℕ → ℕ} {n : ℕ} {asked : List ℕ} :
    Complete arrived (n :: asked) ↔ n ≤ arrived 0 ∧ Complete (fun i => arrived (i + 1)) asked := by
  constructor
  · intro h
    exact ⟨h 0 n rfl, fun i => h (i + 1)⟩
  · rintro ⟨hn, h⟩ (- | i) m hm
    · obtain rfl := Option.some.inj hm
      exact hn
    · exact h i m hm

theorem returned_le (arrived : ℕ → ℕ) (asked : List ℕ) : returned arrived asked ≤ asked.sum := by
  induction asked generalizing arrived with
  | nil => exact Nat.le_refl _
  | cons n asked ih =>
    rw [returned, List.sum_cons]
    exact Nat.add_le_add (Nat.min_le_left _ _) (ih _)

/-- One short call is enough for bytes to be missing. -/
theorem returned_eq_iff (arrived : ℕ → ℕ) (asked : List ℕ) :
    returned arrived asked = asked.sum ↔ Complete arrived asked := by
  induction asked generalizing arrived with
  | nil => exact iff_of_true rfl fun i n h => nomatch h
  | cons n asked ih =>
    have hle := returned_le (fun i => arrived (i + 1)) asked
    rw [complete_cons, ← ih, returned, List.sum_cons]
    omega

/-- **The client's reads**: it has the reply if and only if no call was short. -/
theorem readReply_eq_iff {arrived : ℕ → ℕ} {payload : List UInt8} (h : payload.length < 2 ^ 32) :
    readReply arrived (serverReply payload) = some payload
      ↔ Complete arrived (4 :: chunks payload.length) := by
  have hlen : (UInt32.ofNat payload.length).toNat = payload.length :=
    UInt32.toNat_ofNat_of_lt' h
  have htake : (serverReply payload).take 4 = toNetwork (.ofNat payload.length) :=
    List.take_left' (length_toNetwork _)
  have hdrop : (serverReply payload).drop 4 = payload := List.drop_left' (length_toNetwork _)
  have hheader : ((serverReply payload).take (min 4 (arrived 0))).length = min 4 (arrived 0) := by
    rw [List.length_take, serverReply, List.length_append, length_toNetwork]
    omega
  rw [complete_cons, ← returned_eq_iff, sum_chunks, readReply, hheader, htake, hdrop,
    fromNetwork_toNetwork, hlen, readbytes, recvAll_eq]
  split
  · next hfour =>
    have hle := returned_le (fun i => arrived (i + 1)) (chunks payload.length)
    rw [sum_chunks] at hle
    rw [Option.some.injEq, List.take_eq_self_iff]
    exact ⟨fun hge => ⟨min_eq_left_iff.mp hfour, hle.antisymm hge⟩, fun heq => heq.2.ge⟩
  · next hfour => exact iff_of_false nofun fun heq => hfour (min_eq_left heq.1)

/-- **A request of the client and its reply.**  However the bytes of the request arrive at the
server, and whatever the server makes of it: when the server waits for the next request, the client
reads the reply, if and only if none of its calls of `recv` comes back short. -/
theorem client_reads_iff {jsnReq data frame : List UInt8} {reply : JsonReply R}
    {p : Reads UInt8 (List UInt8 × List UInt8)} {arrived : ℕ → ℕ}
    (h : (TCPSession lib).step.run es (TCPSession lib).start = some (s', os))
    (hframe : clientRequest jsnReq data = some frame) (hreceived : Server.received es = frame)
    (hreading : s'.mode = .reading p) (hreply : jsonReply lib jsnReq data = ok reply)
    (hlen : (lib.payload reply).length < 2 ^ 32) :
    readReply arrived os.reduceOption.flatten = some (lib.payload reply)
      ↔ Complete arrived (4 :: chunks (lib.payload reply).length) := by
  have hframes : List.Forall₂ (fun r frame => clientRequest r.1 r.2 = some frame)
      [(jsnReq, data)] [frame] := .cons hframe .nil
  have hserve : (TCPSession lib).serve [frame].flatten
      = untilNone ([(jsnReq, data)].map (replyTo lib)) := serve_requests hframes
  rw [List.flatten_singleton] at hserve
  have hos : os = [some (serverReply (lib.payload reply))] := by
    obtain ⟨-, hall⟩ := Server.run_serves h
    rw [(hall p hreading).1, hreceived, hserve, List.map_singleton, replyTo, hreply]
    rfl
  have hbytes : os.reduceOption.flatten = serverReply (lib.payload reply) := by
    rw [hos]
    exact List.append_nil _
  rw [hbytes]
  exact readReply_eq_iff hlen

/-- A request without payload, in two pieces. -/
def emptyRequest : List (Server.Event UInt8) :=
  [.receive [0, 0, 0], .receive [0, 0, 0, 0, 0], .written]

theorem client_reads_empty : ∃ s' os,
    (TCPSession requestLibraries).step.run emptyRequest (TCPSession requestLibraries).start
        = some (s', os) ∧
      readReply (fun _ => 4096) os.reduceOption.flatten
        = some (requestLibraries.payload emptyReply) := by
  have hcomplete (length : ℕ) : Complete (fun _ => 4096) (4 :: chunks length) := by
    intro i n hn
    have hmem := List.mem_of_getElem? hn
    simp only [chunks, List.mem_cons, List.mem_append, List.mem_replicate, List.not_mem_nil,
      or_false] at hmem
    show n ≤ 4096
    omega
  obtain ⟨s', os, hrun, p, hp⟩ : ∃ s' os,
      (TCPSession requestLibraries).step.run emptyRequest (TCPSession requestLibraries).start
        = some (s', os) ∧ ∃ p, s'.mode = .reading p :=
    ⟨_, _, rfl, _, rfl⟩
  exact ⟨s', os, hrun,
    (client_reads_iff hrun rfl rfl hp jsonReply_empty length_emptyReply).mpr (hcomplete _)⟩

end Session

end Commelec
