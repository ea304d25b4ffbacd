/-
Commelec/Packing.lean

Handing a packed advertisement over to the caller (`packToByteArray` and the functions
`make...Advertisement` of `hlapi.cpp`).

The caller passes a buffer and, as an `int32_t`, the number of bytes that fit in it.  The
message is packed into a vector first.  Its size is a `size_t`; so is the parameter of
`packToByteArray` that the number is passed to, and the type in which the number is compared
with the size afterwards.  A negative number is a huge `size_t`, larger than any message:

* `asSize_eq` — the conversion adds `2 ^ 64` to a negative number;
* `handsOver_iff` — so the caller gets what `hlapi.h` says exactly for the other numbers, as
  long as the size can be returned as an `int32_t`.

Cap'n Proto, which lays out a message and packs it, is a parameter.  That it uses the stream
it is given as `Steps` allows, and writes the same bytes to every stream, is part of the type.
-/
import Commelec.AdvertisedSets
import Commelec.Decoding
import Commelec.Serialization

namespace Commelec

open Effectful Outcome Double

variable {R : Type}

def hlapi_illegal_input : ℤ := -2

def hlapi_buffer_too_small : ℤ := -3

/-! ### Packing into a vector -/

/-- What Cap'n Proto makes of a message that has been built. -/
structure CapnpPacker (R : Type) where
  getSegmentsForOutput : Message R → List (List UInt8)
  packed : Message R → List UInt8
  /-- the stream that writes to a vector, after the message has been written to it -/
  writePackedMessage : Message R → List UInt8 → Session
  writes (msg : Message R) (v : List UInt8) :
    ∃ chunks, Steps (.start v) chunks (writePackedMessage msg v) ∧ chunks.flatten = packed msg

/-- One that writes a message as one chunk. -/
def CapnpPacker.inOneChunk (segments : Message R → List (List UInt8))
    (packed : Message R → List UInt8) : CapnpPacker R where
  getSegmentsForOutput := segments
  packed := packed
  writePackedMessage msg v :=
    ⟨(VectorBuffer.write (.external (packed msg)) (packed msg).length ⟨v, 0⟩).2, none⟩
  writes msg v := by
    have hwrite : (VectorBuffer.write (.external (packed msg)) (packed msg).length ⟨v, 0⟩).1
        = ok () := congrArg Prod.fst VectorBuffer.write_external
    exact ⟨[packed msg], Steps.nil.snoc (.write (Prod.ext hwrite rfl)), List.flatten_singleton⟩

open Classical in
/-- One that knows one message. -/
noncomputable def CapnpPacker.ofMessage (msg : Message R) (bytes : List UInt8) : CapnpPacker R :=
  .inOneChunk (fun _ => [bytes]) fun m => if m = msg then bytes else []

theorem CapnpPacker.packed_ofMessage (msg : Message R) (bytes : List UInt8) :
    (ofMessage msg bytes).packed msg = bytes := by
  classical exact if_pos rfl

theorem CapnpPacker.packed_ofMessage_of_ne {msg m : Message R} (h : m ≠ msg)
    (bytes : List UInt8) : (ofMessage msg bytes).packed m = [] := by
  classical exact if_neg h

instance : Inhabited (CapnpPacker R) := ⟨.inOneChunk (fun _ => []) fun _ => []⟩

variable (capnp : CapnpPacker R)

def messageByteSize (msg : Message R) : ℕ :=
  let segments := capnp.getSegmentsForOutput msg
  -- size of table
  let sz := 4 * ((segments.length + 2) / 2 * 2)
  segments.foldl (fun sz segment => sz + segment.length) sz

/-- `writePackedMessage(output, builder)`. -/
def writePackedMessage (output : List UInt8) (msg : Message R) : List UInt8 :=
  (capnp.writePackedMessage msg output).buf.finish

/-- Whatever the size of the vector was, it holds the packed message in the end. -/
theorem writePackedMessage_eq (output : List UInt8) (msg : Message R) :
    writePackedMessage capnp output msg = capnp.packed msg := by
  obtain ⟨chunks, hsteps, hflatten⟩ := capnp.writes msg output
  have hs := (Session.Holds.start output).steps hsteps
  rw [writePackedMessage, VectorBuffer.finish_eq hs.le, hs.front, hflatten, List.nil_append]

/-! ### Conversions of integers -/

/-- From `int32_t` to `size_t`. -/
def asSize (n : Int32) : UInt64 := n.toInt64.toUInt64

/-- From `size_t` to `int32_t`. -/
def asInt32 (n : UInt64) : Int32 := n.toInt64.toInt32

theorem asSize_eq (n : Int32) :
    ((asSize n).toNat : ℤ) = if n.toInt < 0 then n.toInt + 2 ^ 64 else n.toInt := by
  have hlt : (asSize n).toNat < 2 ^ 64 := UInt64.toNat_lt _
  have hbits : (asSize n).toBitVec.toInt = n.toInt := Int32.toInt_toInt64 n
  rw [BitVec.toInt_eq_toNat_cond] at hbits
  have hnat : (asSize n).toBitVec.toNat = (asSize n).toNat := rfl
  rw [hnat] at hbits
  split at hbits <;> split <;> omega

/-- A size is returned as it is if it is an `int32_t`. -/
theorem asInt32_ofNat {k : ℕ} (h : k < 2 ^ 31) : (asInt32 (.ofNat k)).toInt = k := by
  have hsize : (UInt64.ofNat k).toNat = k := UInt64.toNat_ofNat_of_lt' (h.trans (by decide))
  have hwide : (UInt64.ofNat k).toInt64.toInt = k := by
    show (UInt64.ofNat k).toBitVec.toInt = k
    rw [BitVec.toInt_eq_toNat_of_lt]
    · exact congrArg Nat.cast hsize
    · show 2 * (UInt64.ofNat k).toNat < _
      omega
  rw [asInt32, Int64.toInt_toInt32, hwide]
  exact Int.bmod_eq_of_le (by omega) (by omega)

/-! ### The caller's buffer -/

/-- What the caller passes pointers to: the bytes written to `outBuffer`, from its start on, and
`*packedBytesize`. -/
structure PackedOut where
  outBuffer : List UInt8
  packedBytesize : Int32

def packToByteArray (msg : Message R) (bufsize : UInt64) : Run PackedOut Err UInt64 := fun out =>
  let packedDataBuffer :=
    writePackedMessage capnp (List.replicate (messageByteSize capnp msg) 0) msg
  let advBytesize : UInt64 := .ofNat packedDataBuffer.length
  if advBytesize ≤ bufsize then
    (ok advBytesize, { out with outBuffer := packedDataBuffer.take advBytesize.toNat })
  else
    -- do not copy data if there is too little space in the buffer
    (ok advBytesize, out)

def assignPackedBytesize (packedBytesize : Int32) : Run PackedOut Err Unit := fun out =>
  (ok (), { out with packedBytesize := packedBytesize })

/-- What the functions below have in common: the advertisement is built, packed and copied. -/
def packAdvertisement (maxBufSize : Int32) (agentId : UInt32)
    (adv : Outcome Err (Advertisement R)) : Run PackedOut Err ℤ := do
  let built ← adv.lift
  let byteSize ← packToByteArray capnp ⟨agentId, .advertisement (some built)⟩ (asSize maxBufSize)
  assignPackedBytesize (asInt32 byteSize)
  if asSize maxBufSize < byteSize then pure hlapi_buffer_too_small else pure 0

section Make

variable [Double R] (maxBufSize : Int32) (agentId : UInt32)

def makeBatteryAdvertisement (Pmin Pmax Srated coeffP coeffPsquared Pimp Qimp : R) :
    Run PackedOut Err ℤ :=
  Run.catchAll hlapi_unknown_error (packAdvertisement capnp maxBufSize agentId
    (batteryAdvertisement Pmin Pmax Srated coeffP coeffPsquared Pimp Qimp))

def makeFuelCellAdvertisement (Pmin Pmax Srated coeffP coeffPsquared Pimp Qimp : R) :
    Run PackedOut Err ℤ :=
  -- fuel cell is like battery but cannot consume power
  if lt Pmin 0 || lt Pmax 0 then
    pure hlapi_illegal_input
  else
    makeBatteryAdvertisement capnp maxBufSize agentId Pmin Pmax Srated coeffP coeffPsquared
      Pimp Qimp

def makePVAdvertisement (Srated Pmax Pdelta tanPhi a_pv b_pv Pimp Qimp : R) :
    Run PackedOut Err ℤ :=
  Run.catchAll hlapi_unknown_error
    (if le a_pv 0 then pure hlapi_illegal_input
    else if le b_pv 0 then pure hlapi_illegal_input
    else packAdvertisement capnp maxBufSize agentId
      (pVAdvertisement Srated Pmax Pdelta tanPhi a_pv b_pv Pimp Qimp))

end Make

/-! ### What the caller is promised -/

/-- For a buffer of `maxBufSize` bytes and a packed message: no byte is written behind the end
of the buffer, the size is returned, the code is 0 just if the message fits, and then it is in
the buffer; if it does not fit, the code says so, and nothing is written. -/
structure HandsOver (maxBufSize : Int32) (packed : List UInt8) (code : ℤ) (out : PackedOut) :
    Prop where
  no_overrun : (out.outBuffer.length : ℤ) ≤ max 0 maxBufSize.toInt
  size : out.packedBytesize.toInt = packed.length
  code_zero : code = 0 ↔ (packed.length : ℤ) ≤ maxBufSize.toInt
  copied : code = 0 → out.outBuffer.take out.packedBytesize.toInt.toNat = packed
  too_small : maxBufSize.toInt < packed.length →
    code = hlapi_buffer_too_small ∧ out.outBuffer = []

/-- A function hands over the packed form of `msg`: it returns, and the promise is kept. -/
def Returns (maxBufSize : Int32) (packed : List UInt8) (make : Run PackedOut Err ℤ) : Prop :=
  ∀ packedBytesize, ∃ code out, make ⟨[], packedBytesize⟩ = (ok code, out) ∧
    HandsOver maxBufSize packed code out

/-- The code and the bytes written depend on one comparison of sizes. -/
theorem packAdvertisement_eq (maxBufSize : Int32) (agentId : UInt32) {built : Advertisement R}
    {packed : List UInt8}
    (hpacked : capnp.packed ⟨agentId, .advertisement (some built)⟩ = packed) (p : Int32) :
    Run.catchAll hlapi_unknown_error (packAdvertisement capnp maxBufSize agentId (ok built))
        ⟨[], p⟩
      = if UInt64.ofNat packed.length ≤ asSize maxBufSize
        then (ok 0, ⟨packed.take (UInt64.ofNat packed.length).toNat,
          asInt32 (.ofNat packed.length)⟩)
        else (ok hlapi_buffer_too_small, ⟨[], asInt32 (.ofNat packed.length)⟩) := by
  have hpack : packToByteArray capnp ⟨agentId, .advertisement (some built)⟩ (asSize maxBufSize)
      ⟨[], p⟩ = (ok (.ofNat packed.length),
        ⟨if UInt64.ofNat packed.length ≤ asSize maxBufSize
          then packed.take (UInt64.ofNat packed.length).toNat else [], p⟩) := by
    rw [packToByteArray, writePackedMessage_eq, hpacked]
    split <;> rfl
  have hlift : ((ok built).lift : Run PackedOut Err (Advertisement R)) ⟨[], p⟩
      = (ok built, ⟨[], p⟩) := Run.lift_apply _ _
  have hassign (bytes : List UInt8) (n : Int32) :
      assignPackedBytesize n ⟨bytes, p⟩ = (ok (), ⟨bytes, n⟩) := rfl
  -- the second comparison agrees with the first
  by_cases h : UInt64.ofNat packed.length ≤ asSize maxBufSize
  · rw [if_pos h] at hpack ⊢
    apply Run.catchAll_ok
    rw [packAdvertisement, Run.bind_ok hlift, Run.bind_ok hpack, Run.bind_ok (hassign _ _)]
    exact congrFun (if_neg (UInt64.not_lt.mpr h)) _
  · rw [if_neg h] at hpack ⊢
    apply Run.catchAll_ok
    rw [packAdvertisement, Run.bind_ok hlift, Run.bind_ok hpack, Run.bind_ok (hassign _ _)]
    exact congrFun (if_pos (UInt64.not_le.mp h)) _

/-- As a `size_t` a negative number of bytes is larger than any message. -/
theorem fits_iff (maxBufSize : Int32) {n : ℕ} (hn : n < 2 ^ 31) :
    UInt64.ofNat n ≤ asSize maxBufSize ↔ maxBufSize.toInt < 0 ∨ (n : ℤ) ≤ maxBufSize.toInt := by
  have hsize := asSize_eq maxBufSize
  have hmin : -2 ^ 31 ≤ maxBufSize.toInt := Int32.le_toInt maxBufSize
  rw [UInt64.le_iff_toNat_le, UInt64.toNat_ofNat_of_lt' (hn.trans (by decide))]
  split at hsize
  · next hneg => exact iff_of_true (by omega) (Or.inl hneg)
  · next hnonneg =>
    rw [or_iff_right hnonneg]
    omega

section Promise

variable {maxBufSize : Int32} {agentId : UInt32} {built : Advertisement R} {packed : List UInt8}
  (hpacked : capnp.packed ⟨agentId, .advertisement (some built)⟩ = packed)

include hpacked

theorem returns_of_nonneg (hmax : 0 ≤ maxBufSize.toInt) (hlen : packed.length < 2 ^ 31) :
    Returns maxBufSize packed (Run.catchAll hlapi_unknown_error
      (packAdvertisement capnp maxBufSize agentId (ok built))) := by
  intro p
  have heq := packAdvertisement_eq capnp maxBufSize agentId hpacked p
  have hfits := (fits_iff maxBufSize hlen).trans (or_iff_right (not_lt.mpr hmax))
  by_cases h : (packed.length : ℤ) ≤ maxBufSize.toInt
  · refine ⟨0, _, heq.trans (if_pos (hfits.mpr h)), ?_⟩
    rw [UInt64.toNat_ofNat_of_lt' (hlen.trans (by decide)), List.take_length]
    refine ⟨h.trans (le_max_right _ _), asInt32_ofNat hlen, iff_of_true rfl h, fun _ => ?_,
      fun hlt => absurd h (not_le.mpr hlt)⟩
    rw [asInt32_ofNat hlen, Int.toNat_natCast, List.take_length]
  · refine ⟨_, _, heq.trans (if_neg (mt hfits.mp h)), ?_⟩
    have hcode : hlapi_buffer_too_small ≠ 0 := by decide
    exact ⟨le_max_left _ _, asInt32_ofNat hlen, iff_of_false hcode h, fun h0 => absurd h0 hcode,
      fun _ => ⟨rfl, rfl⟩⟩

theorem nonneg_of_returns
    (h : Returns maxBufSize packed (Run.catchAll hlapi_unknown_error
      (packAdvertisement capnp maxBufSize agentId (ok built)))) :
    0 ≤ maxBufSize.toInt ∧ packed.length < 2 ^ 31 := by
  obtain ⟨code, out, hout, hands⟩ := h 0
  have hlen : packed.length < 2 ^ 31 := by
    have hlt := Int32.toInt_lt out.packedBytesize
    rw [hands.size] at hlt
    exact_mod_cast hlt
  refine ⟨?_, hlen⟩
  by_contra hneg
  have hfits := (fits_iff maxBufSize hlen).mpr (Or.inl (not_le.mp hneg))
  rw [packAdvertisement_eq capnp maxBufSize agentId hpacked, if_pos hfits] at hout
  obtain rfl : 0 = code := Outcome.ok.inj (congrArg Prod.fst hout)
  have hle := hands.code_zero.mp rfl
  omega

end Promise

/-- **The promise is kept exactly if** the number of bytes is not negative and the size can be
returned. -/
theorem handsOver_iff (maxBufSize : Int32) (agentId : UInt32)
    {adv : Outcome Err (Advertisement R)} {built : Advertisement R} {packed : List UInt8}
    (hadv : adv = ok built)
    (hpacked : capnp.packed ⟨agentId, .advertisement (some built)⟩ = packed) :
    Returns maxBufSize packed (Run.catchAll hlapi_unknown_error
      (packAdvertisement capnp maxBufSize agentId adv))
      ↔ 0 ≤ maxBufSize.toInt ∧ packed.length < 2 ^ 31 := by
  subst hadv
  constructor
  · exact nonneg_of_returns capnp hpacked
  · rintro ⟨hmax, hlen⟩
    exact returns_of_nonneg capnp hpacked hmax hlen

/-! ### The functions of the high-level API -/

/-- The advertisement is built, and the function hands it over exactly under the two
conditions. -/
def HandsOverWithin (make : Int32 → UInt32 → Run PackedOut Err ℤ)
    (adv : Outcome Err (Advertisement R)) : Prop :=
  ∃ built, adv = ok built ∧ ∀ maxBufSize agentId,
    Returns maxBufSize (capnp.packed ⟨agentId, .advertisement (some built)⟩)
        (make maxBufSize agentId)
      ↔ 0 ≤ maxBufSize.toInt ∧
        (capnp.packed ⟨agentId, .advertisement (some built)⟩).length < 2 ^ 31

/-- The function rejects its input, and assigns nothing. -/
def RejectsInput (make : Int32 → UInt32 → Run PackedOut Err ℤ) : Prop :=
  ∀ maxBufSize agentId out, make maxBufSize agentId out = (ok hlapi_illegal_input, out)

theorem handsOverWithin_pack {adv : Outcome Err (Advertisement R)} (h : ∃ built, adv = ok built) :
    HandsOverWithin capnp (fun maxBufSize agentId => Run.catchAll hlapi_unknown_error
      (packAdvertisement capnp maxBufSize agentId adv)) adv := by
  obtain ⟨built, hadv⟩ := h
  exact ⟨built, hadv, fun maxBufSize agentId => handsOver_iff capnp maxBufSize agentId hadv rfl⟩

section Api

variable [Double R]

theorem batteryAdvertisement_ok (Pmin Pmax Srated coeffP coeffPsquared Pimp Qimp : R) :
    ∃ built, (batteryAdvertisement Pmin Pmax Srated coeffP coeffPsquared Pimp Qimp :
      Outcome Err (Advertisement R)) = ok built := by
  obtain ⟨cf, hcf, -⟩ := normalizedCost_ok coeffP coeffPsquared
  simp only [batteryAdvertisement]
  rw [hcf]
  exact ⟨_, rfl⟩

theorem pVAdvertisement_ok (Srated Pmax Pdelta tanPhi a_pv b_pv Pimp Qimp : R) :
    ∃ built, (pVAdvertisement Srated Pmax Pdelta tanPhi a_pv b_pv Pimp Qimp :
      Outcome Err (Advertisement R)) = ok built := by
  obtain ⟨poly, hpoly⟩ := pVCost_ok a_pv b_pv
  simp only [pVAdvertisement]
  rw [hpoly]
  exact ⟨_, rfl⟩

variable (Pmin Pmax Srated coeffP coeffPsquared Pdelta tanPhi a_pv b_pv Pimp Qimp : R)

/-- **The three functions hand their advertisement over** to exactly the callers whose number of
bytes is not negative, for packed messages of less than `2 ^ 31` bytes; illegal parameters are
rejected before anything is written. -/
theorem advertisement_handed_over_iff :
    HandsOverWithin capnp
        (fun maxBufSize agentId => makeBatteryAdvertisement capnp maxBufSize agentId Pmin Pmax
          Srated coeffP coeffPsquared Pimp Qimp)
        (batteryAdvertisement Pmin Pmax Srated coeffP coeffPsquared Pimp Qimp) ∧
      (if lt Pmin 0 || lt Pmax 0 then
        RejectsInput fun maxBufSize agentId => makeFuelCellAdvertisement capnp maxBufSize agentId
          Pmin Pmax Srated coeffP coeffPsquared Pimp Qimp
      else HandsOverWithin capnp
        (fun maxBufSize agentId => makeFuelCellAdvertisement capnp maxBufSize agentId Pmin Pmax
          Srated coeffP coeffPsquared Pimp Qimp)
        (batteryAdvertisement Pmin Pmax Srated coeffP coeffPsquared Pimp Qimp)) ∧
      if le a_pv 0 || le b_pv 0 then
        RejectsInput fun maxBufSize agentId => makePVAdvertisement capnp maxBufSize agentId
          Srated Pmax Pdelta tanPhi a_pv b_pv Pimp Qimp
      else HandsOverWithin capnp
        (fun maxBufSize agentId => makePVAdvertisement capnp maxBufSize agentId Srated Pmax Pdelta
          tanPhi a_pv b_pv Pimp Qimp)
        (pVAdvertisement Srated Pmax Pdelta tanPhi a_pv b_pv Pimp Qimp) := by
  have hbattery := handsOverWithin_pack capnp
    (batteryAdvertisement_ok Pmin Pmax Srated coeffP coeffPsquared Pimp Qimp)
  refine ⟨hbattery, ?_, ?_⟩
  · simp only [makeFuelCellAdvertisement]
    split
    · intro _ _ _
      rfl
    · exact hbattery
  · have hpV := handsOverWithin_pack capnp
      (pVAdvertisement_ok Srated Pmax Pdelta tanPhi a_pv b_pv Pimp Qimp)
    cases ha : le a_pv 0 <;> cases hb : le b_pv 0 <;> simp only [makePVAdvertisement, ha, hb]
    · exact hpV
    all_goals
      intro _ _ _
      rfl

end Api

/-- A caller who says that `-1` bytes fit: whatever Cap'n Proto packs, the function does not keep
its promise. -/
theorem negative_bufsize : ∃ built : Advertisement ℝ,
    batteryAdvertisement 0 1 1 0 0 0 0 = ok built ∧ ∀ capnp : CapnpPacker ℝ,
      ¬ Returns (-1) (capnp.packed ⟨0, .advertisement (some built)⟩)
        (makeBatteryAdvertisement capnp (-1) 0 0 1 1 0 0 0 0) := by
  obtain ⟨built, hbuilt⟩ := batteryAdvertisement_ok (0 : ℝ) 1 1 0 0 0 0
  refine ⟨built, hbuilt, fun capnp => ?_⟩
  rw [makeBatteryAdvertisement, handsOver_iff capnp (-1) 0 hbuilt rfl]
  rintro ⟨hneg, -⟩
  exact absurd hneg (by decide)

end Commelec
