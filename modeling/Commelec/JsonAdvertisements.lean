/-
Commelec/JsonAdvertisements.lean

The advertisements that the daemon makes from JSON parameters (`create...Adv` of `daemon.cpp`,
`getDouble` of `json.cpp`), beside the functions `make...Advertisement` of the C interface.

Both call the same builders.  The C functions look at the parameters first: a fuel cell does
not consume power, and the coefficients of the cost of a photovoltaic panel are positive.  The
daemon looks only for fields that are missing, so it accepts every set of parameters:

* `createAdv_eq` — the daemon builds the advertisement for all parameters that are there;
* `Device.make_legal`, `Device.make_illegal` — the C function packs it if they are legal;
* `device_agrees_iff` — so the two accept the same parameters exactly where all are legal.
-/
import Commelec.Daemon
import Commelec.Packing

namespace Commelec

open Effectful Outcome Double

variable {R : Type}

/-! ### JSON objects -/

/-- A JSON value; numbers and arrays are looked into. -/
inductive Json (R : Type) where
  | number (x : R)
  | array (items : List (Json R))
  | other

/-- The members of an object; `FindMember` finds the first one of a name. -/
abbrev JsonObject (R : Type) : Type := List (String × Json R)

/-- `value.GetDouble()`. -/
def Json.getDouble : Json R → Outcome Err R
  | .number x => pure x
  | _ => raise .assertion

/-- `getDouble(d, name)`. -/
def JsonObject.getDouble (d : JsonObject R) (name : String) : Outcome Err R :=
  match d.lookup name with
  | some value => value.getDouble
  | none => raise (.runtimeError (name ++ " field missing in JSON object (datatype: double)"))

/-- `d[name]`, and the elements of the array it holds. -/
def JsonObject.getArray (d : JsonObject R) (name : String) : Outcome Err (List (Json R)) :=
  match d.lookup name with
  | some (.array items) => pure items
  | _ => raise .assertion

/-! ### The daemon -/

section Daemon

variable [Double R] (d : JsonObject R)

def createBattAdv : Outcome Err (Advertisement R) := do
  let Pmin ← d.getDouble "Pmin"
  let Pmax ← d.getDouble "Pmax"
  let Srated ← d.getDouble "Srated"
  let coeffP ← d.getDouble "coeffP"
  let coeffPsquared ← d.getDouble "coeffPsquared"
  let Pimp ← d.getDouble "Pimp"
  let Qimp ← d.getDouble "Qimp"
  batteryAdvertisement Pmin Pmax Srated coeffP coeffPsquared Pimp Qimp

def createUncontrLoadAdv : Outcome Err (Advertisement R) := do
  let Srated ← d.getDouble "Srated"
  let Pexp ← d.getDouble "Pexp"
  let Qexp ← d.getDouble "Qexp"
  let dPup ← d.getDouble "dPup"
  let dPdown ← d.getDouble "dPdown"
  let dQup ← d.getDouble "dQup"
  let dQdown ← d.getDouble "dQdown"
  let Pimp ← d.getDouble "Pimp"
  let Qimp ← d.getDouble "Qimp"
  uncontrollableLoad Pexp Qexp Srated dPup dPdown dQup dQdown Pimp Qimp

def createUncontrGenAdv : Outcome Err (Advertisement R) := do
  let Srated ← d.getDouble "Srated"
  let Pexp ← d.getDouble "Pexp"
  let Qexp ← d.getDouble "Qexp"
  let dPup ← d.getDouble "dPup"
  let dPdown ← d.getDouble "dPdown"
  let dQup ← d.getDouble "dQup"
  let dQdown ← d.getDouble "dQdown"
  let Pimp ← d.getDouble "Pimp"
  let Qimp ← d.getDouble "Qimp"
  let maxPowerAbsorbtion ← d.getDouble "PmaxAbsorb"
  uncontrollableGenerator Pexp Qexp Srated dPup dPdown dQup dQdown Pimp Qimp maxPowerAbsorbtion

variable (inf : R)

def createDiscreteAdv : Outcome Err (Advertisement R) := do
  let Pmin ← d.getDouble "Pmin"
  let Pmax ← d.getDouble "Pmax"
  let error ← d.getDouble "error"
  let pointList ← d.getArray "points"
  let points ← pointList.mapM Json.getDouble
  let coeffP ← d.getDouble "coeffP"
  let coeffPsquared ← d.getDouble "coeffPsquared"
  let Pimp ← d.getDouble "Pimp"
  let Qimp ← d.getDouble "Qimp"
  realDiscreteDeviceAdvertisement inf Pmin Pmax points error coeffPsquared coeffP Pimp Qimp

/-- `createDiscreteUnifAdv` and `createZenoneAdv`, for the builder that they call. -/
def createRoundedAdv (build : R → R → R → R → R → R → R → R → Outcome Err (Advertisement R)) :
    Outcome Err (Advertisement R) := do
  let Pmin ← d.getDouble "Pmin"
  let Pmax ← d.getDouble "Pmax"
  let stepsize ← d.getDouble "stepsize"
  let error ← d.getDouble "error"
  let coeffP ← d.getDouble "coeffP"
  let coeffPsquared ← d.getDouble "coeffPsquared"
  let Pimp ← d.getDouble "Pimp"
  let Qimp ← d.getDouble "Qimp"
  build Pmin Pmax stepsize error coeffPsquared coeffP Pimp Qimp

def createDiscreteUnifAdv : Outcome Err (Advertisement R) :=
  createRoundedAdv d (uniformRealDiscreteDeviceAdvertisement inf)

def createZenoneAdv : Outcome Err (Advertisement R) :=
  createRoundedAdv d (zenoneAdvertisement inf)

def createFuelCellAdv : Outcome Err (Advertisement R) := createBattAdv d

def createPVAdv : Outcome Err (Advertisement R) := do
  let Pmax ← d.getDouble "Pmax"
  let Pdelta ← d.getDouble "Pdelta"
  let Srated ← d.getDouble "Srated"
  let cosPhi ← d.getDouble "cosPhi"
  -- tan(phi) = sqrt(1 - PF^2) / PF
  let tanPhi := sqrt (1 - pow cosPhi (lit 2)) / cosPhi
  let a_pv ← d.getDouble "a_pv"
  let b_pv ← d.getDouble "b_pv"
  let Pimp ← d.getDouble "Pimp"
  let Qimp ← d.getDouble "Qimp"
  pVAdvertisement Srated Pmax Pdelta tanPhi a_pv b_pv Pimp Qimp

/-- The `switch` of `listenRAside`. -/
def createAdv : Resource → Outcome Err (Option (Advertisement R))
  | .pv => do pure (some (← createPVAdv d))
  | .fuelcell => do pure (some (← createFuelCellAdv d))
  | .battery => do pure (some (← createBattAdv d))
  | .uncontrollableLoad => do pure (some (← createUncontrLoadAdv d))
  | .uncontrollableGenerator => do pure (some (← createUncontrGenAdv d))
  | .discrete => do pure (some (← createDiscreteAdv d inf))
  | .discreteUnif => do pure (some (← createDiscreteUnifAdv d inf))
  | .zenone => do pure (some (← createZenoneAdv d inf))
  | .custom => pure none

end Daemon

/-! ### Device parameters -/

structure BatteryParameters (R : Type) where
  Pmin : R
  Pmax : R
  Srated : R
  coeffP : R
  coeffPsquared : R
  Pimp : R
  Qimp : R

structure PVParameters (R : Type) where
  Srated : R
  Pmax : R
  Pdelta : R
  cosPhi : R
  a_pv : R
  b_pv : R
  Pimp : R
  Qimp : R

/-- A device that can be announced in both ways. -/
inductive Device (R : Type) where
  | battery (p : BatteryParameters R)
  | fuelcell (p : BatteryParameters R)
  | pv (p : PVParameters R)

def BatteryParameters.fields (p : BatteryParameters R) : List (String × R) :=
  [("Pmin", p.Pmin), ("Pmax", p.Pmax), ("Srated", p.Srated), ("coeffP", p.coeffP),
    ("coeffPsquared", p.coeffPsquared), ("Pimp", p.Pimp), ("Qimp", p.Qimp)]

def PVParameters.fields (p : PVParameters R) : List (String × R) :=
  [("Pmax", p.Pmax), ("Pdelta", p.Pdelta), ("Srated", p.Srated), ("cosPhi", p.cosPhi),
    ("a_pv", p.a_pv), ("b_pv", p.b_pv), ("Pimp", p.Pimp), ("Qimp", p.Qimp)]

namespace Device

def resource : Device R → Resource
  | battery _ => .battery
  | fuelcell _ => .fuelcell
  | pv _ => .pv

/-- The parameters as members of a JSON object. -/
def fields : Device R → List (String × R)
  | battery p | fuelcell p => p.fields
  | pv p => p.fields

/-- The object with the parameters and nothing else. -/
def toJson (device : Device R) : JsonObject R := device.fields.map fun f => (f.1, .number f.2)

end Device

/-- The object has these numbers as members, whatever else it has. -/
def JsonObject.Carries (d : JsonObject R) (fields : List (String × R)) : Prop :=
  ∀ f ∈ fields, d.getDouble f.1 = ok f.2

theorem Device.carries_toJson (device : Device R) : device.toJson.Carries device.fields := by
  rcases device with p | p | p
  all_goals
    intro f hf
    simp only [Device.fields, BatteryParameters.fields, PVParameters.fields, List.mem_cons,
      List.not_mem_nil, or_false] at hf
    rcases hf with rfl | rfl | rfl | rfl | rfl | rfl | rfl | rfl
  all_goals rfl

section Devices

variable [Double R] (capnp : CapnpPacker R)

/-- The tangent that `createPVAdv` computes from the power factor. -/
def PVParameters.tanPhi (p : PVParameters R) : R := sqrt (1 - pow p.cosPhi (lit 2)) / p.cosPhi

namespace Device

/-- The advertisement for the parameters. -/
def advertisement : Device R → Outcome Err (Advertisement R)
  | battery p | fuelcell p =>
    batteryAdvertisement p.Pmin p.Pmax p.Srated p.coeffP p.coeffPsquared p.Pimp p.Qimp
  | pv p =>
    pVAdvertisement p.Srated p.Pmax p.Pdelta p.tanPhi p.a_pv p.b_pv p.Pimp p.Qimp

/-- The function of the C interface, called with the same parameters. -/
def make (maxBufSize : Int32) (agentId : UInt32) : Device R → Run PackedOut Err ℤ
  | battery p => makeBatteryAdvertisement capnp maxBufSize agentId p.Pmin p.Pmax p.Srated
      p.coeffP p.coeffPsquared p.Pimp p.Qimp
  | fuelcell p => makeFuelCellAdvertisement capnp maxBufSize agentId p.Pmin p.Pmax p.Srated
      p.coeffP p.coeffPsquared p.Pimp p.Qimp
  | pv p => makePVAdvertisement capnp maxBufSize agentId p.Srated p.Pmax p.Pdelta p.tanPhi
      p.a_pv p.b_pv p.Pimp p.Qimp

/-- A fuel cell does not consume power; the coefficients of the cost of a panel are positive. -/
def legal : Device R → Bool
  | battery _ => true
  | fuelcell p => !(lt p.Pmin 0 || lt p.Pmax 0)
  | pv p => !(le p.a_pv 0 || le p.b_pv 0)

theorem advertisement_ok (device : Device R) : ∃ built, device.advertisement = ok built := by
  rcases device with p | p | p
  · exact batteryAdvertisement_ok _ _ _ _ _ _ _
  · exact batteryAdvertisement_ok _ _ _ _ _ _ _
  · exact pVAdvertisement_ok _ _ _ _ _ _ _ _

variable (maxBufSize : Int32) (agentId : UInt32)

/-- Legal parameters are packed. -/
theorem make_legal {device : Device R} (h : device.legal = true) :
    device.make capnp maxBufSize agentId = Run.catchAll hlapi_unknown_error
      (packAdvertisement capnp maxBufSize agentId device.advertisement) := by
  rcases device with p | p | p
  · rfl
  · rw [legal, Bool.not_eq_true'] at h
    simp only [make, makeFuelCellAdvertisement, h, Bool.false_eq_true, if_false]
    rfl
  · rw [legal, Bool.not_eq_true', Bool.or_eq_false_iff] at h
    simp only [make, makePVAdvertisement, h.1, h.2, Bool.false_eq_true, if_false, advertisement]

/-- Other parameters are rejected. -/
theorem make_illegal {device : Device R} (h : device.legal = false) (out : PackedOut) :
    device.make capnp maxBufSize agentId out = (ok hlapi_illegal_input, out) := by
  rcases device with p | p | p
  · simp [legal] at h
  · rw [legal, Bool.not_eq_false'] at h
    simp only [make, makeFuelCellAdvertisement, h]
    rfl
  · rw [legal, Bool.not_eq_false', Bool.or_eq_true_iff] at h
    rcases ha : le p.a_pv 0 with - | -
    · simp only [make, makePVAdvertisement, ha, h.resolve_left (by simp [ha])]
      rfl
    · simp only [make, makePVAdvertisement, ha]
      rfl

end Device

theorem createBattAdv_eq {p : BatteryParameters R} {d : JsonObject R} (hd : d.Carries p.fields) :
    createBattAdv d
      = batteryAdvertisement p.Pmin p.Pmax p.Srated p.coeffP p.coeffPsquared p.Pimp p.Qimp := by
  simp only [JsonObject.Carries, BatteryParameters.fields, List.forall_mem_cons] at hd
  obtain ⟨h1, h2, h3, h4, h5, h6, h7, -⟩ := hd
  simp only [createBattAdv, h1, h2, h3, h4, h5, h6, h7, ok_bind]

theorem createPVAdv_eq {p : PVParameters R} {d : JsonObject R} (hd : d.Carries p.fields) :
    createPVAdv d
      = pVAdvertisement p.Srated p.Pmax p.Pdelta p.tanPhi p.a_pv p.b_pv p.Pimp p.Qimp := by
  simp only [JsonObject.Carries, PVParameters.fields, List.forall_mem_cons] at hd
  obtain ⟨h1, h2, h3, h4, h5, h6, h7, h8, -⟩ := hd
  simp only [createPVAdv, h1, h2, h3, h4, h5, h6, h7, h8, ok_bind, PVParameters.tanPhi]

/-- **The daemon looks for missing fields only.** -/
theorem createAdv_eq (inf : R) {device : Device R} {d : JsonObject R}
    (hd : d.Carries device.fields) :
    createAdv d inf device.resource = (do pure (some (← device.advertisement))) := by
  rcases device with p | p | p
  · exact congrArg (· >>= fun adv => pure (some adv)) (createBattAdv_eq hd)
  · -- the daemon builds a fuel cell as a battery
    exact congrArg (· >>= fun adv => pure (some adv)) (createBattAdv_eq hd)
  · exact congrArg (· >>= fun adv => pure (some adv)) (createPVAdv_eq hd)

/-! ### Do the two agree? -/

/-- The daemon and the C function accept the same parameters, and make the same of them. -/
structure Agrees (daemon : Outcome Err (Option (Advertisement R)))
    (make : Int32 → UInt32 → Run PackedOut Err ℤ) : Prop where
  rejects (maxBufSize : Int32) (agentId : UInt32) (out : PackedOut) :
    (∃ e, daemon = .throw e) ↔ (make maxBufSize agentId out).1 = ok hlapi_illegal_input
  /-- what is not illegal is packed, as the daemon builds it -/
  same (maxBufSize : Int32) (agentId : UInt32) (out : PackedOut) :
    (make maxBufSize agentId out).1 ≠ ok hlapi_illegal_input →
      ∃ adv, daemon = ok (some adv) ∧ make maxBufSize agentId out
        = Run.catchAll hlapi_unknown_error (packAdvertisement capnp maxBufSize agentId (ok adv)) out

omit [Double R] in
/-- Packing an advertisement does not find fault with its parameters. -/
theorem packAdvertisement_ne_illegal (maxBufSize : Int32) (agentId : UInt32)
    (built : Advertisement R) (out : PackedOut) :
    (Run.catchAll hlapi_unknown_error (packAdvertisement capnp maxBufSize agentId (ok built))
      out).1 ≠ ok hlapi_illegal_input := by
  obtain ⟨size, out', hpack⟩ : ∃ size out', packToByteArray capnp
      ⟨agentId, .advertisement (some built)⟩ (asSize maxBufSize) out = (ok size, out') := by
    rw [packToByteArray]
    split
    · exact ⟨_, _, rfl⟩
    · exact ⟨_, _, rfl⟩
  have hassign : assignPackedBytesize (asInt32 size) out'
      = (ok (), ⟨out'.outBuffer, asInt32 size⟩) := rfl
  have hcode : ∃ code out'', packAdvertisement capnp maxBufSize agentId (ok built) out
      = (ok code, out'') ∧ code ≠ hlapi_illegal_input := by
    rw [packAdvertisement, Run.bind_ok (Run.lift_apply (ok built) out), Run.bind_ok hpack,
      Run.bind_ok hassign]
    split
    · exact ⟨hlapi_buffer_too_small, _, rfl, by decide⟩
    · exact ⟨0, _, rfl, by decide⟩
  obtain ⟨code, out'', heq, hne⟩ := hcode
  rw [Run.catchAll_ok heq]
  exact fun h => hne (Outcome.ok.inj h)

theorem createAdv_ok (inf : R) {device : Device R} {d : JsonObject R}
    (hd : d.Carries device.fields) : ∃ built, device.advertisement = ok built ∧
      createAdv d inf device.resource = ok (some built) := by
  obtain ⟨built, hbuilt⟩ := device.advertisement_ok
  refine ⟨built, hbuilt, ?_⟩
  rw [createAdv_eq inf hd, hbuilt]
  rfl

theorem not_agrees_of_illegal (inf : R) {device : Device R} {d : JsonObject R}
    (hd : d.Carries device.fields) (h : device.legal = false) :
    ¬ Agrees capnp (createAdv d inf device.resource)
      (fun maxBufSize agentId => device.make capnp maxBufSize agentId) := by
  intro hagrees
  obtain ⟨built, -, hdaemon⟩ := createAdv_ok inf hd
  have hmake := device.make_illegal capnp 0 0 h ⟨[], 0⟩
  obtain ⟨e, he⟩ := (hagrees.rejects 0 0 ⟨[], 0⟩).mpr (congrArg Prod.fst hmake)
  rw [hdaemon] at he
  simp at he

/-- **The daemon and the C interface agree exactly on the legal parameters.** -/
theorem device_agrees_iff (inf : R) {device : Device R} {d : JsonObject R}
    (hd : d.Carries device.fields) :
    Agrees capnp (createAdv d inf device.resource)
      (fun maxBufSize agentId => device.make capnp maxBufSize agentId)
      ↔ device.legal = true := by
  constructor
  · intro hagrees
    by_contra hillegal
    exact not_agrees_of_illegal capnp inf hd (Bool.eq_false_of_not_eq_true hillegal) hagrees
  · intro hlegal
    obtain ⟨built, hbuilt, hdaemon⟩ := createAdv_ok inf hd
    have hmake (maxBufSize : Int32) (agentId : UInt32) :=
      Device.make_legal capnp maxBufSize agentId hlegal
    rw [hbuilt] at hmake
    rw [hdaemon]
    refine ⟨fun maxBufSize agentId out => ?_, fun maxBufSize agentId out _ => ?_⟩
    · refine iff_of_false (by simp) ?_
      rw [hmake]
      exact packAdvertisement_ne_illegal capnp maxBufSize agentId built out
    · exact ⟨built, rfl, by rw [hmake]⟩

end Devices

/-- A device that may consume power. -/
noncomputable def consuming : BatteryParameters ℝ := ⟨-1, 1, 1, 0, 0, 0, 0⟩

/-- As a battery, it is announced by both; what is packed arrives in the buffer. -/
theorem device_agrees_iff_battery : ∃ adv : Advertisement ℝ,
    let capnp := CapnpPacker.ofMessage ⟨7, .advertisement (some adv)⟩ [1, 2, 3]
    createAdv (Device.battery consuming).toJson 0 .battery = ok (some adv) ∧
      ((Device.battery consuming).make capnp 100 7 ⟨[], 0⟩).2.outBuffer = [1, 2, 3] ∧
      (Agrees capnp (createAdv (Device.battery consuming).toJson 0 .battery)
          (fun maxBufSize agentId => (Device.battery consuming).make capnp maxBufSize agentId)
        ↔ (Device.battery consuming).legal = true) := by
  obtain ⟨adv, hadv, hcreate⟩ := createAdv_ok 0 (Device.battery consuming).carries_toJson
  let capnp := CapnpPacker.ofMessage ⟨7, .advertisement (some adv)⟩ [1, 2, 3]
  have hmake : (Device.battery consuming).make capnp 100 7 = _ := Device.make_legal capnp 100 7 rfl
  rw [hadv] at hmake
  refine ⟨adv, hcreate, ?_, device_agrees_iff capnp 0 (Device.battery consuming).carries_toJson⟩
  rw [hmake, packAdvertisement_eq capnp 100 7 (CapnpPacker.packed_ofMessage _ _)]
  rfl

/-- As a fuel cell, the device is announced by the daemon, while the C function rejects it. -/
theorem consuming_fuelcell_disagrees :
    (∃ built, createAdv (Device.fuelcell consuming).toJson 0 .fuelcell = ok (some built)) ∧
    (∀ (capnp : CapnpPacker ℝ) maxBufSize agentId out,
      (Device.fuelcell consuming).make capnp maxBufSize agentId out
        = (ok hlapi_illegal_input, out)) ∧
    ∀ capnp : CapnpPacker ℝ,
      ¬ Agrees capnp (createAdv (Device.fuelcell consuming).toJson 0 .fuelcell)
        (fun maxBufSize agentId => (Device.fuelcell consuming).make capnp maxBufSize agentId) := by
  have hd := (Device.fuelcell consuming).carries_toJson
  have hillegal : (Device.fuelcell consuming).legal = false := by
    have hlt : (consuming.Pmin : ℝ) < 0 := by norm_num [consuming]
    rw [Device.legal, show lt consuming.Pmin 0 = true from (lt_real _ _).mpr hlt]
    rfl
  obtain ⟨built, -, hbuilt⟩ := createAdv_ok 0 hd
  exact ⟨⟨built, hbuilt⟩,
    fun capnp maxBufSize agentId out => Device.make_illegal capnp maxBufSize agentId hillegal out,
    fun capnp => not_agrees_of_illegal capnp 0 hd hillegal⟩

end Commelec
