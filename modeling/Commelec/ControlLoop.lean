/-
Commelec/ControlLoop.lean

A setpoint on its way from the grid agent to a resource agent, and back.

The grid agent sends a request, the daemon forwards it to the resource agent, which implements
the setpoint and replies with the parameters of an advertisement; the daemon builds the
advertisement, and the grid agent decodes it.

* `translateParameters_announces` — the daemon announces the setpoint in the parameters, and
  `device_announces` — so do the functions of the C interface;
* `announces_packed` — `getImplSetpointFromAdv` gives that setpoint back;
* `parseRequest_agrees` — a request means the same to the daemon and to `parseRequest`;
* `implemented_as_requested` — **the loop**, for the resource agent of
  `demo-resource-agent.py`: in every run of the daemon, the setpoints announced are those that
  were requested, in the same order.

The reader of the grid agent is any that gives back what was packed (`Inverts`).
-/
import Commelec.Coroutines
import Commelec.Decoding

namespace Commelec

open Effectful Outcome Double

variable {R : Type}

/-! ### What is announced -/

/-- The reader gives back what was packed. -/
def Inverts (reader : CapnpReader R) (capnp : CapnpPacker R) (packet : List UInt8) : Prop :=
  ∀ msg, packet = capnp.packed msg → reader.getMessage packet = ok msg

/-- The bytes are a packed advertisement of an agent that has implemented `(P, Q)`, and
`getImplSetpointFromAdv` finds that in them. -/
structure Announces (capnp : CapnpPacker R) (agentId : UInt32) (P Q : R) (packet : List UInt8) :
    Prop where
  packed : ∃ adv, packet = capnp.packed ⟨agentId, .advertisement (some adv)⟩ ∧
    adv.implementedSetpoint = [P, Q]
  decoded (reader : CapnpReader R) (build : Build R) (out : OutParams R) :
    Inverts reader capnp packet →
      getImplSetpointFromAdv build reader packet out = (ok 1, ⟨P, Q, agentId⟩)

/-- **Decoding** an advertisement gives its setpoint, in either build. -/
theorem announces_packed (capnp : CapnpPacker R) (agentId : UInt32) {P Q : R}
    {adv : Advertisement R} (h : adv.implementedSetpoint = [P, Q]) :
    Announces capnp agentId P Q (capnp.packed ⟨agentId, .advertisement (some adv)⟩) := by
  refine ⟨⟨adv, rfl, h⟩, fun reader build out hreader => ?_⟩
  rw [getImplSetpointFromAdv, hreader _ rfl]
  show Run.catchAll _ (assignSetpoint build adv.implementedSetpoint) _ = _
  rw [h]
  cases build <;> rfl

/-! ### The builders -/

/-- The advertisement announces the setpoint of the object. -/
def Advertisement.Implements (d : JsonObject R) (adv : Advertisement R) : Prop :=
  ∃ P Q, d.getDouble "Pimp" = ok P ∧ d.getDouble "Qimp" = ok Q ∧ adv.implementedSetpoint = [P, Q]

section Builders

variable [Double R] (d : JsonObject R)

theorem batteryAdvertisement_yields (Pmin Pmax Srated coeffP coeffPsquared Pimp Qimp : R) :
    OnlyYields (fun adv => adv.implementedSetpoint = [Pimp, Qimp])
      (batteryAdvertisement Pmin Pmax Srated coeffP coeffPsquared Pimp Qimp) := by
  rw [batteryAdvertisement]
  exact .bind fun _ _ => .bind fun _ _ => .pure rfl

theorem pVAdvertisement_yields (Srated Pmax Pdelta tanPhi a_pv b_pv Pimp Qimp : R) :
    OnlyYields (fun adv => adv.implementedSetpoint = [Pimp, Qimp])
      (pVAdvertisement Srated Pmax Pdelta tanPhi a_pv b_pv Pimp Qimp) := by
  rw [pVAdvertisement]
  iterate 6 refine .bind fun _ _ => ?_
  exact .pure rfl

theorem uncontrollableResource_yields (Pexp Qexp Srated dPup dPdown dQup dQdown Pimp Qimp : R)
    (resType : ResourceType) (Pgap : R) :
    OnlyYields (fun adv => adv.implementedSetpoint = [Pimp, Qimp])
      (uncontrollableResource Pexp Qexp Srated dPup dPdown dQup dQdown Pimp Qimp resType Pgap) := by
  rw [uncontrollableResource]
  iterate 4 refine .bind fun _ _ => ?_
  dsimp only
  -- with or without a halfplane
  split
  · exact .bind fun _ _ => .bind fun _ _ => .pure rfl
  · exact .bind fun _ _ => .pure rfl

theorem makeAdvertisement_yields (makeBelief : Outcome Err (SetExpr R))
    (Pmin Pmax alpha beta Pimp Qimp : R) :
    OnlyYields (fun adv => adv.implementedSetpoint = [Pimp, Qimp])
      (makeAdvertisement makeBelief Pmin Pmax alpha beta Pimp Qimp) := by
  rw [makeAdvertisement]
  exact .bind fun _ _ => .bind fun _ _ => .pure rfl

omit [Double R] in
variable {d} in
/-- The last steps: the two fields are read, and the advertisement is built. -/
theorem implements_of_yields {P Q : R} (hP : d.getDouble "Pimp" = ok P)
    (hQ : d.getDouble "Qimp" = ok Q) {x : Outcome Err (Advertisement R)}
    (h : OnlyYields (fun adv => adv.implementedSetpoint = [P, Q]) x) :
    OnlyYields (Advertisement.Implements d) x :=
  h.mono fun _ hadv => ⟨P, Q, hP, hQ, hadv⟩

theorem createBattAdv_implements : OnlyYields (Advertisement.Implements d) (createBattAdv d) := by
  rw [createBattAdv]
  iterate 5 refine .bind fun _ _ => ?_
  refine .bind fun P hP => .bind fun Q hQ => ?_
  exact implements_of_yields hP hQ (batteryAdvertisement_yields _ _ _ _ _ P Q)

theorem createUncontrLoadAdv_implements :
    OnlyYields (Advertisement.Implements d) (createUncontrLoadAdv d) := by
  rw [createUncontrLoadAdv]
  iterate 7 refine .bind fun _ _ => ?_
  refine .bind fun P hP => .bind fun Q hQ => ?_
  exact implements_of_yields hP hQ (uncontrollableResource_yields _ _ _ _ _ _ _ P Q .load 0)

theorem createUncontrGenAdv_implements :
    OnlyYields (Advertisement.Implements d) (createUncontrGenAdv d) := by
  rw [createUncontrGenAdv]
  iterate 7 refine .bind fun _ _ => ?_
  refine .bind fun P hP => .bind fun Q hQ => .bind fun gap _ => ?_
  exact implements_of_yields hP hQ
    (uncontrollableResource_yields _ _ _ _ _ _ _ P Q .generator gap)

theorem createDiscreteAdv_implements (inf : R) :
    OnlyYields (Advertisement.Implements d) (createDiscreteAdv d inf) := by
  rw [createDiscreteAdv]
  iterate 7 refine .bind fun _ _ => ?_
  refine .bind fun P hP => .bind fun Q hQ => ?_
  exact implements_of_yields hP hQ (makeAdvertisement_yields _ _ _ _ _ P Q)

omit [Double R] in
theorem createRoundedAdv_implements
    {build : R → R → R → R → R → R → R → R → Outcome Err (Advertisement R)}
    (h : ∀ Pmin Pmax stepsize error alpha beta P Q,
      OnlyYields (fun adv => adv.implementedSetpoint = [P, Q])
        (build Pmin Pmax stepsize error alpha beta P Q)) :
    OnlyYields (Advertisement.Implements d) (createRoundedAdv d build) := by
  rw [createRoundedAdv]
  iterate 6 refine .bind fun _ _ => ?_
  exact .bind fun P hP => .bind fun Q hQ => implements_of_yields hP hQ (h _ _ _ _ _ _ P Q)

theorem createPVAdv_implements : OnlyYields (Advertisement.Implements d) (createPVAdv d) := by
  rw [createPVAdv]
  iterate 6 refine .bind fun _ _ => ?_
  refine .bind fun P hP => .bind fun Q hQ => ?_
  exact implements_of_yields hP hQ (pVAdvertisement_yields _ _ _ _ _ _ P Q)

/-- **Whatever the resource is**, it announces the setpoint of the object. -/
theorem createAdv_implements (inf : R) {resourceType : Resource} (hres : resourceType ≠ .custom) :
    OnlyYields (fun built => ∃ adv, built = some adv ∧ adv.Implements d)
      (createAdv d inf resourceType) := by
  have hsome {x : Outcome Err (Advertisement R)} (h : OnlyYields (Advertisement.Implements d) x) :
      OnlyYields (fun built => ∃ adv, built = some adv ∧ Advertisement.Implements d adv)
        (do pure (some (← x))) :=
    .bind fun adv hadv => .pure ⟨adv, rfl, h adv hadv⟩
  cases resourceType with
  | custom => exact absurd rfl hres
  | pv => exact hsome (createPVAdv_implements d)
  | fuelcell => exact hsome (createBattAdv_implements d)
  | battery => exact hsome (createBattAdv_implements d)
  | uncontrollableLoad => exact hsome (createUncontrLoadAdv_implements d)
  | uncontrollableGenerator => exact hsome (createUncontrGenAdv_implements d)
  | discrete => exact hsome (createDiscreteAdv_implements d inf)
  | discreteUnif =>
    exact hsome (createRoundedAdv_implements d fun _ _ _ _ _ _ P Q =>
      makeAdvertisement_yields _ _ _ _ _ P Q)
  | zenone =>
    exact hsome (createRoundedAdv_implements d fun _ _ _ _ _ _ P Q =>
      makeAdvertisement_yields _ _ _ _ _ P Q)

end Builders

/-! ### The daemon and the C interface -/

section Announcements

variable [Double R] {Endpoint : Type} {daemon : CommelecDaemon Endpoint} {lib : Libraries R}

/-- **What the daemon sends** for the parameters in a datagram announces the setpoint in them. -/
theorem translateParameters_announces {datagram packet : List UInt8}
    (hres : daemon.resourceType ≠ .custom)
    (h : translateParameters daemon lib datagram = ok packet) :
    ∃ d P Q, lib.parse (cString datagram) = some d ∧ d.getDouble "Pimp" = ok P ∧
      d.getDouble "Qimp" = ok Q ∧ Announces lib.capnp daemon.agentId P Q packet := by
  rw [translateParameters, if_neg hres] at h
  obtain ⟨msg, hmsg, h⟩ := bind_eq_ok.mp h
  obtain rfl := Outcome.ok.inj h
  rw [advertisementMessage] at hmsg
  split at hmsg
  · simp at hmsg
  next d hparse =>
  obtain ⟨built, hbuilt, hmsg⟩ := bind_eq_ok.mp hmsg
  obtain ⟨adv, rfl, P, Q, hP, hQ, hadv⟩ := createAdv_implements d lib.inf hres built hbuilt
  obtain rfl := Outcome.ok.inj hmsg
  exact ⟨d, P, Q, hparse, hP, hQ, announces_packed lib.capnp daemon.agentId hadv⟩

/-- The parameters of a panel that implements 1 kW. -/
noncomputable def panel : PVParameters ℝ where
  Pmax := lit 10000
  Srated := lit 12000
  cosPhi := lit (4 / 5)
  Pdelta := lit 8000
  a_pv := 1
  b_pv := 1
  Pimp := lit 1000
  Qimp := 0

def panelJson : String :=
  "\x7b\"Pmax\": 10000.0, \"Srated\": 12000.0, \"cosPhi\": 0.8, \"Pdelta\": 8000.0, \"a_pv\": 1.0, \"b_pv\": 1.0, \"Pimp\": 1000.0, \"Qimp\": 0\x7d"

def panelText : List UInt8 := panelJson.toList.map fun c => UInt8.ofNat c.toNat

/-- The message that announces it, and the bytes that stand for the message. -/
def panelMessage (adv : Advertisement ℝ) : Message ℝ := ⟨7, .advertisement (some adv)⟩

def panelBytes : List UInt8 := [1, 2, 3]

/-- Libraries that know the text and the message. -/
noncomputable def panelLibraries (adv : Advertisement ℝ) : Libraries ℝ where
  reader := requestReader
  capnp := .ofMessage (panelMessage adv) panelBytes
  parse text := if text = cString panelText then some (Device.pv panel).toJson else none
  lp _ _ := .outOfFuel
  draws _ _ := 0
  inf := 0
  fuel := 0

/-- The reader of the grid agent. -/
def panelReader (adv : Advertisement ℝ) : CapnpReader ℝ :=
  .ofInput panelBytes (ok (panelMessage adv))

theorem packed_panelMessage (adv : Advertisement ℝ) :
    (panelLibraries adv).capnp.packed (panelMessage adv) = panelBytes :=
  CapnpPacker.packed_ofMessage _ _

theorem inverts_panelReader (adv : Advertisement ℝ) :
    Inverts (panelReader adv) (panelLibraries adv).capnp panelBytes := by
  intro msg hmsg
  -- nothing else is packed to these bytes
  obtain rfl : msg = panelMessage adv := by
    by_contra hne
    have hpacked : (panelLibraries adv).capnp.packed msg = [] :=
      CapnpPacker.packed_ofMessage_of_ne hne panelBytes
    rw [hpacked] at hmsg
    cases hmsg
  exact StreamReader.read_ofInput _ _ _

def panelDaemon : CommelecDaemon ℕ := ⟨false, 7, .pv, [0], [1]⟩

theorem parse_panelText (adv : Advertisement ℝ) : (panelLibraries adv).parse (cString panelText)
    = some (Device.pv panel).toJson := by
  generalize htext : cString panelText = text
  simp only [panelLibraries, htext, if_pos]

theorem translateParameters_panel {adv : Advertisement ℝ}
    (hadv : (Device.pv panel).advertisement = ok adv) :
    translateParameters panelDaemon (panelLibraries adv) panelText = ok panelBytes := by
  have hcreate : createAdv (Device.pv panel).toJson (panelLibraries adv).inf .pv
      = ok (some adv) := by
    show createAdv _ _ (Device.pv panel).resource = _
    rw [createAdv_eq _ (Device.pv panel).carries_toJson, hadv]
    rfl
  have hmsg : advertisementMessage panelDaemon (panelLibraries adv) (cString panelText)
      = ok (panelMessage adv) := by
    rw [advertisementMessage, parse_panelText]
    exact Outcome.bind_eq_ok.mpr ⟨_, hcreate, rfl⟩
  rw [translateParameters, if_neg (by decide), hmsg]
  exact congrArg ok (packed_panelMessage adv)

/-- The panel announces 1 kW, and the grid agent finds it. -/
theorem translateParameters_announces_panel : ∃ adv d P Q,
    (panelLibraries adv).parse (cString panelText) = some d ∧ d.getDouble "Pimp" = ok P ∧
      d.getDouble "Qimp" = ok Q ∧ Announces (panelLibraries adv).capnp 7 P Q panelBytes ∧
      ∀ build out, getImplSetpointFromAdv build (panelReader adv) panelBytes out
        = (ok 1, ⟨P, Q, 7⟩) := by
  obtain ⟨adv, hadv⟩ := (Device.pv panel).advertisement_ok
  obtain ⟨d, P, Q, hparse, hP, hQ, hannounces⟩ :=
    translateParameters_announces (by decide) (translateParameters_panel hadv)
  exact ⟨adv, d, P, Q, hparse, hP, hQ, hannounces, fun build out =>
    hannounces.decoded (panelReader adv) build out (inverts_panelReader adv)⟩

/-- The setpoint that the device says it has implemented. -/
def Device.Pimp : Device R → R
  | battery p | fuelcell p => p.Pimp
  | pv p => p.Pimp

def Device.Qimp : Device R → R
  | battery p | fuelcell p => p.Qimp
  | pv p => p.Qimp

theorem Device.advertisement_yields (device : Device R) :
    OnlyYields (fun adv => adv.implementedSetpoint = [device.Pimp, device.Qimp])
      device.advertisement := by
  rcases device with p | p | p
  · exact batteryAdvertisement_yields _ _ _ _ _ _ _
  · exact batteryAdvertisement_yields _ _ _ _ _ _ _
  · exact pVAdvertisement_yields _ _ _ _ _ _ _ _

/-- **What the C interface hands over** announces the setpoint of the device. -/
theorem device_announces {capnp : CapnpPacker R} {device : Device R} {maxBufSize p : Int32}
    {agentId : UInt32} {out : PackedOut}
    (h : device.make capnp maxBufSize agentId ⟨[], p⟩ = (ok 0, out)) :
    ∃ packet, Announces capnp agentId device.Pimp device.Qimp packet ∧
      (packet.length < 2 ^ 31 →
        out.outBuffer = packet ∧ out.packedBytesize.toInt = packet.length) := by
  obtain ⟨adv, hadv⟩ := device.advertisement_ok
  have hannounces := announces_packed capnp agentId (device.advertisement_yields adv hadv)
  refine ⟨_, hannounces, fun hlen => ?_⟩
  have hlegal : device.legal = true := by
    by_contra hlegal
    rw [device.make_illegal capnp maxBufSize agentId (Bool.eq_false_of_not_eq_true hlegal)] at h
    exact absurd (Outcome.ok.inj (congrArg Prod.fst h)) (by decide)
  rw [device.make_legal capnp maxBufSize agentId hlegal, hadv,
    packAdvertisement_eq capnp maxBufSize agentId rfl] at h
  split at h
  · obtain ⟨-, rfl⟩ := Prod.mk.inj h
    refine ⟨?_, asInt32_ofNat hlen⟩
    show List.take _ _ = _
    rw [UInt64.toNat_ofNat_of_lt' (hlen.trans (by decide)), List.take_length]
  · exact absurd (Outcome.ok.inj (congrArg Prod.fst h)) (by decide)

/-- The panel, with room for 100 bytes: the grid agent finds 1 kW in what has been written. -/
theorem device_announces_panel : ∃ adv packet out,
    (Device.pv panel).make (panelLibraries adv).capnp 100 7 ⟨[], 0⟩ = (ok 0, out) ∧
      Announces (panelLibraries adv).capnp 7 panel.Pimp panel.Qimp packet ∧
      out.outBuffer = packet ∧ out.packedBytesize.toInt = packet.length ∧
      ∀ build found, getImplSetpointFromAdv build (panelReader adv) out.outBuffer found
        = (ok 1, ⟨lit 1000, 0, 7⟩) := by
  obtain ⟨adv, hadv⟩ := (Device.pv panel).advertisement_ok
  have hlegal : (Device.pv panel).legal = true := by
    show (!(decide ((1 : ℝ) ≤ 0) || decide ((1 : ℝ) ≤ 0))) = true
    norm_num
  have hmake : (Device.pv panel).make (panelLibraries adv).capnp 100 7 ⟨[], 0⟩
      = (ok 0, ⟨panelBytes, 3⟩) := by
    rw [Device.make_legal _ 100 7 hlegal, hadv,
      packAdvertisement_eq _ 100 7 (packed_panelMessage adv)]
    rfl
  obtain ⟨packet, hannounces, hout⟩ := device_announces hmake
  have hlen : packet.length < 2 ^ 31 := by
    obtain ⟨adv', rfl, -⟩ := hannounces.packed
    by_cases hadv' : (⟨7, .advertisement (some adv')⟩ : Message ℝ) = panelMessage adv
    · rw [hadv', packed_panelMessage]
      decide
    · have hpacked : (panelLibraries adv).capnp.packed ⟨7, .advertisement (some adv')⟩ = [] :=
        CapnpPacker.packed_ofMessage_of_ne hadv' panelBytes
      rw [hpacked]
      decide
  obtain ⟨hbuffer, hsize⟩ := hout hlen
  refine ⟨adv, packet, _, hmake, hannounces, hbuffer, hsize, fun build found => ?_⟩
  obtain rfl : panelBytes = packet := hbuffer
  exact hannounces.decoded (panelReader adv) build found (inverts_panelReader adv)

end Announcements

/-! ### Requests -/

section Requests

variable [Double R] {reader : CapnpReader R}

/-- What is accepted as a request. -/
theorem requestJson_cases {msg : Message R} {object : RequestJson R}
    (h : requestJson msg = ok object) :
    (msg.body = .request (some ⟨none⟩) ∧ object = ⟨false, msg.agentId, 0, 0⟩) ∨
      ∃ P Q rest, msg.body = .request (some ⟨some (P :: Q :: rest)⟩) ∧
        object = ⟨true, msg.agentId, P, Q⟩ := by
  obtain ⟨agentId, body⟩ := msg
  rcases body with (- | ⟨- | (- | ⟨P, - | ⟨Q, rest⟩⟩)⟩) | adv | which
  case request.some.none =>
    obtain rfl := Outcome.ok.inj h
    exact .inl ⟨rfl, rfl⟩
  case request.some.some.cons.cons =>
    obtain rfl := Outcome.ok.inj h
    exact .inr ⟨P, Q, rest, rfl, rfl⟩
  all_goals simp [requestJson] at h

variable {inBuffer : List UInt8} {msg : Message R} {out : OutParams R}

/-- What the daemon forwards. -/
theorem parseRequest_of_json (hmsg : reader.getMessage inBuffer = ok msg) (build : Build R)
    {object : RequestJson R} (h : requestJson msg = ok object) :
    parseRequest build reader inBuffer out = if object.setpointValid
      then (ok 1, ⟨object.P, object.Q, object.senderId⟩)
      else (ok 0, { out with senderId := object.senderId }) := by
  rw [parseRequest_eq hmsg, Build.getRequest]
  rcases requestJson_cases h with ⟨hbody, rfl⟩ | ⟨P, Q, rest, hbody, rfl⟩
  · rw [hbody]
    rfl
  · rw [hbody]
    cases build <;> rfl

/-- What the daemon does not take for a request. -/
theorem parseRequest_of_throw (hmsg : reader.getMessage inBuffer = ok msg) {e : Err}
    (h : requestJson msg = .throw e) :
    (parseRequest .debug reader inBuffer out).1 = ok hlapi_unknown_error ∨
      msg.body = .request none ∧ e = .terminate ∧
        parseRequest .debug reader inBuffer out = (ok 0, { out with senderId := msg.agentId }) := by
  rw [parseRequest_eq hmsg, Build.getRequest]
  obtain ⟨agentId, body⟩ := msg
  rcases body with (- | ⟨- | (- | ⟨P, - | ⟨Q, rest⟩⟩)⟩) | adv | which
  case request.none => exact .inr ⟨rfl, (Outcome.throw.inj h).symm, rfl⟩
  case request.some.none => simp [requestJson] at h
  case request.some.some.cons.cons => simp [requestJson] at h
  all_goals exact .inl rfl

/-- **The daemon and `parseRequest` take the same requests from a buffer**: what the daemon
forwards is what `parseRequest` returns, in either build.  Where the daemon throws, a debug build
of `parseRequest` reports an error, except for a request that was never set: for `parseRequest`,
it is one without setpoint. -/
theorem parseRequest_agrees (reader : CapnpReader R) (inBuffer : List UInt8) (out : OutParams R) :
    (∀ (build : Build R) (object : RequestJson R), translate reader inBuffer = ok (.json object) →
      parseRequest build reader inBuffer out = if object.setpointValid
        then (ok 1, ⟨object.P, object.Q, object.senderId⟩)
        else (ok 0, { out with senderId := object.senderId })) ∧
      ∀ e, translate reader inBuffer = .throw e →
        (parseRequest .debug reader inBuffer out).1 = ok hlapi_unknown_error ∨
          ∃ agentId, reader.getMessage inBuffer = ok ⟨agentId, .request none⟩ ∧ e = .terminate ∧
            parseRequest .debug reader inBuffer out
              = (ok 0, { out with senderId := agentId }) := by
  simp only [translate]
  constructor
  · intro build object h
    obtain ⟨msg, hmsg, h⟩ := bind_eq_ok.mp h
    obtain ⟨object', hobject, h⟩ := bind_eq_ok.mp h
    obtain rfl : object' = object := by simpa using h
    exact parseRequest_of_json hmsg build hobject
  · intro e h
    rcases bind_eq_throw.mp h with hmsg | ⟨⟨agentId, body⟩, hmsg, h⟩
    · exact .inl (congrArg Prod.fst (decoders_of_throw hmsg out).1)
    rcases bind_eq_throw.mp h with hobject | ⟨object, -, h⟩
    · refine (parseRequest_of_throw hmsg hobject).imp id ?_
      rintro ⟨rfl, he, hparse⟩
      exact ⟨agentId, hmsg, he, hparse⟩
    · simp at h

end Requests

/-! ### A resource agent -/

section DemoAgent

variable [Double R]

/-- `computePVparameters(P, Q)` -/
def computePVparameters (P Q : R) : PVParameters R where
  Pmax := lit 10000
  Srated := lit 12000
  cosPhi := lit (4 / 5)
  Pdelta := lit 8000
  a_pv := 1
  b_pv := 1
  -- simulate error free implementation
  Pimp := P
  Qimp := Q

/-- The setpoint that `handle` implements; without a valid one, the agent makes one up. -/
def setpointFor (req : RequestJson R) : R × R :=
  if req.setpointValid then (req.P, req.Q) else (lit 1000, 0)

/-- `handle`, up to the text of its reply. -/
def handle (req : RequestJson R) : PVParameters R :=
  let (P, Q) := setpointFor req
  computePVparameters P Q

/-- The text of the parameters fits in a datagram, and is parsed as an object with these
parameters. -/
def Writes (parse : List UInt8 → Option (JsonObject R)) (dumps : PVParameters R → List UInt8)
    (p : PVParameters R) : Prop :=
  (dumps p).length < maxUDPsize ∧ ∃ d, parse (cString (dumps p)) = some d ∧ d.Carries p.fields

/-- The datagrams are the agent's replies to requests that it has received, in their order;
requests may be lost, and the agent may be late. -/
structure Replies (dumps : PVParameters R → List UInt8) (received : List (Forwarded R))
    (answered : List (RequestJson R)) (datagrams : List (List UInt8)) : Prop where
  sublist : List.Sublist (answered.map .json) received
  eq : datagrams = answered.map fun req => dumps (handle req)

end DemoAgent

/-! ### The loop -/

section Loop

variable [Double R] {Endpoint : Type} {daemon : CommelecDaemon Endpoint} {lib : Libraries R}

theorem translate_json {reader : CapnpReader R} {buffer : List UInt8} {f : Forwarded R}
    (h : translate reader buffer = ok f) : ∃ object, f = .json object := by
  obtain ⟨msg, -, h⟩ := bind_eq_ok.mp h
  obtain ⟨object, -, h⟩ := bind_eq_ok.mp h
  exact ⟨object, (Outcome.ok.inj h).symm⟩

/-- Requests that end within their datagrams are translated one by one. -/
theorem listenGAside_selfContained {resourceType : Resource} {reader : CapnpReader R}
    {datagrams : List (List UInt8)} {sent : List (Forwarded R)} {buffer buffer' : NetworkBuffer}
    (hres : resourceType ≠ .custom)
    (hself : ∀ datagram ∈ datagrams,
      datagram.length ≤ networkBufLen ∧ SelfContained reader datagram)
    (h : listenGAside resourceType reader datagrams buffer = (ok sent, buffer')) :
    ∃ requests, sent = requests.map .json ∧
      List.Forall₂ (fun datagram req => translate reader datagram = ok (.json req))
        datagrams requests := by
  rw [listenGAside] at h
  induction datagrams generalizing buffer sent with
  | nil =>
    obtain ⟨rfl, -⟩ : [] = sent ∧ buffer = buffer' := by simpa using h
    exact ⟨[], rfl, .nil⟩
  | cons datagram datagrams ih =>
    rw [List.map_cons, collect_cons] at h
    obtain ⟨f, buffer₁, hf, h⟩ := Run.bind_eq_ok.mp h
    obtain ⟨fs, buffer₂, hfs, h⟩ := Run.bind_eq_ok.mp h
    obtain ⟨rfl, rfl⟩ : f :: fs = sent ∧ buffer₂ = buffer' := by simpa using h
    rw [List.forall_mem_cons] at hself
    obtain ⟨requests, rfl, hall⟩ := ih hself.2 hfs
    -- what is behind the datagram in the buffer is not looked at
    have htranslate : translate reader datagram = ok f := by
      rw [forwardRequest_eq hres] at hf
      have hdata : translate reader (buffer.overwrite datagram).data = ok f :=
        congrArg Prod.fst hf
      rw [translate, CapnpReader.getMessage,
        Buffer.read_overwrite reader (.throw .kjException) buffer hself.1.1 hself.1.2] at hdata
      exact hdata
    obtain ⟨req, rfl⟩ := translate_json htranslate
    exact ⟨req :: requests, rfl, .cons htranslate hall⟩

omit [Double R] in
/-- What has been answered was requested. -/
theorem sublist_of_received {answered requests : List (RequestJson R)}
    {received : List (Forwarded R)} (h : List.Sublist (answered.map .json) received)
    (hall : received = requests.map .json ∨ ∃ p, received ++ [p] = requests.map .json) :
    List.Sublist answered requests := by
  have hsub : List.Sublist (answered.map Forwarded.json) (requests.map .json) := by
    rcases hall with rfl | ⟨p, hp⟩
    · exact h
    · rw [← hp]
      exact h.trans (List.sublist_append_left _ _)
  obtain ⟨l, hl, heq⟩ := List.sublist_map_iff.mp hsub
  have hinj : Function.Injective (Forwarded.json : RequestJson R → Forwarded R) :=
    fun _ _ h => Forwarded.json.inj h
  rwa [hinj.list_map heq]

/-- The daemon announces what the agent says it has implemented. -/
theorem announces_of_writes {dumps : PVParameters R → List UInt8} {p : PVParameters R}
    {packet : List UInt8} (hres : daemon.resourceType ≠ .custom)
    (hwrites : Writes lib.parse dumps p)
    (h : translateParameters daemon lib (dumps p) = ok packet) :
    Announces lib.capnp daemon.agentId p.Pimp p.Qimp packet := by
  obtain ⟨-, d, hparse, hcarries⟩ := hwrites
  obtain ⟨d', P, Q, hparse', hP, hQ, hannounces⟩ := translateParameters_announces hres h
  obtain rfl : d = d' := Option.some.inj (hparse.symm.trans hparse')
  have hPimp : d.getDouble "Pimp" = ok p.Pimp := hcarries ("Pimp", p.Pimp) (by
    simp [PVParameters.fields])
  have hQimp : d.getDouble "Qimp" = ok p.Qimp := hcarries ("Qimp", p.Qimp) (by
    simp [PVParameters.fields])
  obtain rfl : P = p.Pimp := Outcome.ok.inj (hP.symm.trans hPimp)
  obtain rfl : Q = p.Qimp := Outcome.ok.inj (hQ.symm.trans hQimp)
  exact hannounces

theorem announces_replies {dumps : PVParameters R → List UInt8} {answered : List (RequestJson R)}
    {packets : List (List UInt8)} (hres : daemon.resourceType ≠ .custom)
    (hwrites : ∀ req ∈ answered, Writes lib.parse dumps (handle req))
    (h : collect ((answered.map fun req => dumps (handle req)).map
      (translateParameters daemon lib)) = ok packets) :
    List.Forall₂ (fun req packet =>
        Announces lib.capnp daemon.agentId (setpointFor req).1 (setpointFor req).2 packet)
      answered packets := by
  rw [collect_eq_ok, List.map_map, List.forall₂_map_left_iff] at h
  have hboth := (List.forall₂_and_left answered packets).mpr ⟨hwrites, h⟩
  exact hboth.imp fun _ _ hreq => announces_of_writes hres hreq.1 hreq.2

variable {onArm : Bool} {data data' : DaemonData} {es : List DaemonEvent}
variable {ga : RequestMode R Endpoint} {ra : AdvertisementMode Endpoint}
variable {os : List ((Forwarded R × Endpoint) ⊕ (List UInt8 × Endpoint))}

/-- **Implemented as requested.**  In every run of the daemon, with a resource agent that replies
to requests it has received, the packets sent to the grid agent announce, one after the other, the
setpoints of requests in the grid agent's datagrams, in the order of the datagrams. -/
theorem implemented_as_requested [DecidableEq Endpoint] {agent : Endpoint}
    {dumps : PVParameters R → List UInt8} {answered : List (RequestJson R)}
    (h : (daemon.strand lib onArm).run es (CommelecDaemon.start data)
      = some (⟨data', ga, ra⟩, os))
    (hga : ga.Live) (hra : ra.Live) (hres : daemon.resourceType = .pv)
    (hself : ∀ datagram ∈ requestsOf es,
      datagram.length ≤ networkBufLen ∧ SelfContained lib.reader datagram)
    (hnodup : daemon.outgoing_req_endpoints.Nodup) (hagent : agent ∈ daemon.outgoing_req_endpoints)
    (hreplies : Replies dumps (Relay.receivedBy agent (os.filterMap Sum.getLeft?)) answered
      (parametersOf es))
    (hwrites : ∀ req ∈ answered, Writes lib.parse dumps (handle req)) :
    ∃ requests packets,
      List.Forall₂ (fun datagram req => translate lib.reader datagram = ok (.json req))
        (requestsOf es) requests ∧
      List.Sublist answered requests ∧
      List.Forall₂ (fun req packet =>
          Announces lib.capnp daemon.agentId (setpointFor req).1 (setpointFor req).2 packet)
        answered packets ∧
      Delivered daemon.outgoing_adv_endpoints packets (os.filterMap Sum.getRight?) ra := by
  have hcustom : daemon.resourceType ≠ .custom := by
    rw [hres]
    exact Resource.noConfusion
  obtain ⟨hrunGA, hrunRA⟩ := run_alone h
  -- the requests that have been forwarded
  obtain ⟨sent, hsent, hforwarded⟩ := delivered_of_fanOut hrunGA hga
  obtain ⟨requests, rfl, htranslated⟩ :=
    listenGAside_selfContained hcustom hself (listenGAside_of_collect hsent)
  have hanswered := sublist_of_received hreplies.sublist (hforwarded.each hnodup hagent)
  -- the advertisements that have been made of the replies
  obtain ⟨packets, hpackets, hdelivered⟩ := delivered_of_fanOut hrunRA hra
  rw [packetFor_parameters] at hpackets
  have hudp : ∀ datagram ∈ parametersOf es, datagram.length < maxUDPsize := by
    rw [hreplies.eq]
    exact List.forall_mem_map.mpr fun req hreq => (hwrites req hreq).1
  have hcollect := collect_translate hudp hpackets
  rw [hreplies.eq] at hcollect
  exact ⟨requests, packets, htranslated, hanswered,
    announces_replies hcustom hwrites hcollect, hdelivered⟩

end Loop

/-- The agent is asked for an advertisement, and replies. -/
def replyTurns : List DaemonEvent :=
  [.inl (.input (requestBytes 1)), .inl (.answer 54), .inr (.input panelText), .inr (.answer 3)]

theorem length_panelText : panelText.length < maxUDPsize := by
  have hlen : panelText.length < 200 := by simp [panelText, panelJson]
  exact hlen.trans_le (by norm_num [maxUDPsize])

theorem run_replyTurns {adv : Advertisement ℝ} (hadv : (Device.pv panel).advertisement = ok adv) :
    ∃ data os, (panelDaemon.strand (panelLibraries adv) false).run replyTurns
        (CommelecDaemon.start noData) = some (⟨data, .waiting, .waiting⟩, os) ∧
      os.filterMap Sum.getLeft? = [(jsonOf 1, 0)] ∧
      os.filterMap Sum.getRight? = [(panelBytes, 1)] := by
  obtain ⟨request, hrequest⟩ : ∃ request, Relay.packetFor
      (acceptRequest panelDaemon (panelLibraries adv).reader) requestPacket (requestBytes 1) noData
        = (ok (jsonOf 1), request) := by
    have hforward := packetFor_request panelDaemon (panelLibraries adv) (requestBytes 1) noData
    rw [show forwardRequest panelDaemon.resourceType (panelLibraries adv).reader (requestBytes 1)
      noData.network_data = _ from forwardRequest_requestBytes 1 _] at hforward
    exact ⟨_, Prod.ext (congrArg Prod.fst hforward).symm rfl⟩
  have hga : (requestRelay panelDaemon (panelLibraries adv).reader).step.run
      [.input (requestBytes 1), .answer 54] ⟨noData, .waiting⟩
        = some (⟨request, .waiting⟩, [(jsonOf 1, 0)]) :=
    Relay.run_fanOut_singleton hrequest fun _ _ => rfl
  obtain ⟨parameters, -, -, hparameters⟩ :=
    forwardParameters_eq panelDaemon (panelLibraries adv) length_panelText noData
  have hra : (advertisementRelay panelDaemon (panelLibraries adv)).step.run
      [.input panelText, .answer 3] ⟨noData, .waiting⟩
        = some (⟨parameters, .waiting⟩, [(panelBytes, 1)]) := by
    apply Relay.run_fanOut_singleton
    · rw [packetFor_parameters, hparameters, translateParameters_panel hadv]
      rfl
    · rintro (size | packed) hpacked
      · rfl
      · obtain rfl : packed = panelBytes := hpacked
        rfl
  obtain ⟨os, hrun, hos⟩ := exists_run_of_alone false replyTurns hga hra rfl rfl
  exact ⟨_, os, hrun, hos⟩

/-- A request without setpoint, as it is forwarded. -/
noncomputable def noSetpoint : RequestJson ℝ := ⟨false, 1, 0, 0⟩

/-- The agent announces that it has implemented 1 kW, and the grid agent finds that in the packet
it receives. -/
theorem implemented_as_requested_panel : ∃ adv data ga ra os requests packets,
    (panelDaemon.strand (panelLibraries adv) false).run replyTurns (CommelecDaemon.start noData)
        = some (⟨data, ga, ra⟩, os) ∧
      List.Forall₂ (fun datagram req => translate requestReader datagram = ok (.json req))
        [requestBytes 1] requests ∧
      List.Sublist [noSetpoint] requests ∧
      List.Forall₂ (fun req packet =>
          Announces (panelLibraries adv).capnp 7 (setpointFor req).1 (setpointFor req).2 packet)
        [noSetpoint] packets ∧
      Delivered [1] packets (os.filterMap Sum.getRight?) ra ∧
      packets = [panelBytes] ∧
      ∀ build out, getImplSetpointFromAdv build (panelReader adv) panelBytes out
        = (ok 1, ⟨lit 1000, 0, 7⟩) := by
  obtain ⟨adv, hadv⟩ := (Device.pv panel).advertisement_ok
  obtain ⟨data, os, hrun, hforwarded, hsent⟩ := run_replyTurns hadv
  have hself : ∀ datagram ∈ requestsOf replyTurns,
      datagram.length ≤ networkBufLen ∧ SelfContained requestReader datagram := by
    intro datagram hdatagram
    obtain rfl : datagram = requestBytes 1 := List.mem_singleton.mp hdatagram
    have hdecided := requestReader_decided 1 []
    rw [List.append_nil] at hdecided
    exact ⟨length_requestBytes 1, .inl (by rw [hdecided]; rfl)⟩
  have hreplies : Replies (fun _ => panelText) (Relay.receivedBy 0 (os.filterMap Sum.getLeft?))
      [noSetpoint] (parametersOf replyTurns) := by
    refine ⟨?_, rfl⟩
    rw [hforwarded]
    exact List.Sublist.refl _
  have hwrites : ∀ req ∈ [noSetpoint],
      Writes (panelLibraries adv).parse (fun _ => panelText) (handle req) := by
    intro req hreq
    obtain rfl := List.mem_singleton.mp hreq
    exact ⟨length_panelText, _, parse_panelText adv, (Device.pv panel).carries_toJson⟩
  obtain ⟨requests, packets, hrequests, hanswered, hannounced, hdelivered⟩ :=
    implemented_as_requested hrun trivial trivial rfl hself (List.nodup_singleton 0)
      List.mem_cons_self hreplies hwrites
  -- the packet that has been sent is the one that is announced
  obtain ⟨rest, hall, -, hwaiting⟩ := hdelivered.all
  obtain rfl := hwaiting rfl
  rw [hsent, List.append_nil] at hall
  cases hannounced with
  | cons hannounces hnil =>
    cases hnil
    obtain rfl := congrArg Prod.fst (List.cons.inj hall).1
    refine ⟨adv, data, _, _, os, requests, _, hrun, hrequests, hanswered,
      .cons hannounces .nil, hdelivered, rfl, fun build out => ?_⟩
    exact hannounces.decoded (panelReader adv) build out (inverts_panelReader adv)

end Commelec
