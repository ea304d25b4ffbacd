/-
Commelec/RunLength.lean

The run-length coding of rasterised cost functions: `runlengthCompress` of
`visualization_server.cpp` and `uncompress` of `viz-user.py`.

The compressor is a loop over the coefficients of a matrix with an index, the value and length
of the active run, and the array written so far.  At the end of a run it steps back and looks
at the coefficient again.  The array is a sequence of tokens (`Token`), single values and runs;
the loop keeps the sequence of the values it has passed equal to what its tokens and the
active run stand for (`Compressor.Reads`), and the decoder reads token after token
(`uncompress_write`).

The index is an `int`.  So a matrix with 2^31 or more coefficients is not compressed: stepping
over coefficient number 2^31 overflows (`runlength_roundtrip_iff`).
-/
import Commelec.Eval
import Commelec.NanReal

namespace Commelec

open Effectful Outcome

/-! ### The compressor -/

/-- A number in a JSON array, and a number in Python. -/
inductive JsonValue (R : Type) where
  | double (x : R)
  | int (n : ℤ)

section Code

variable {R : Type} [Double R]

open Double

/-- `x == y`, false when an operand is not a number. -/
def isEqual (x y : R) : Bool := le x y && le y x

/-- `std::isnan`. -/
def isNan (x : R) : Bool := !le x x

/-- `std::numeric_limits<double>::epsilon()`. -/
def epsilon : R := lit (1 / 2 ^ 52)

/-- `vals.count(x)`: a `std::set` finds an element that is neither less nor greater. -/
def setCount (vals : List R) (x : R) : Bool := vals.any fun v => !lt v x && !lt x v

/-- `m.data()`: the coefficients column by column. -/
def columnMajor {rows cols : ℕ} {α : Type} (m : Fin rows → Fin cols → α) : List α :=
  (List.finRange cols).flatMap fun j => (List.finRange rows).map fun i => m i j

/-- `++i` for an `int` that is not negative. -/
def increment (i : ℕ) : Outcome Err ℕ := if i + 1 < 2 ^ 31 then pure (i + 1) else raise .undefined

/-- A coefficient as it is written: JSON has no NaN, so `-1` stands for it, and what was `-1`
is moved away from there. -/
def wireValue (datum : R) : R :=
  if isEqual datum (-1) then datum + epsilon else if isNan datum then -1 else datum

/-- The variables of the loop. -/
structure Compressor (R : Type) where
  i : ℕ
  count : ℕ
  activeVal : R
  result : List (JsonValue R)

/-- One iteration, for the coefficient `data[i]`. -/
def compressStep (vals : List R) (data : R) (st : Compressor R) :
    Outcome Err (Compressor R) := do
  let i ← increment st.i
  let datum := wireValue data
  if 0 < st.count then
    if isEqual datum st.activeVal then
      let count ← increment st.count
      pure { st with i, count }
    else
      -- rewind
      pure { st with
        i := i - 1, count := 0, result := st.result ++ [.double st.activeVal, .int st.count] }
  else if setCount vals datum then
    pure { st with i, activeVal := datum, count := 1 }
  else
    pure { st with i, result := st.result ++ [.double datum] }

/-- What an iteration can do. -/
inductive CompressStep (vals : List R) (data : R) (st : Compressor R) :
    Compressor R → Prop
  | extend : 0 < st.count → isEqual (wireValue data) st.activeVal = true →
      CompressStep vals data st { st with i := st.i + 1, count := st.count + 1 }
  | close : 0 < st.count → isEqual (wireValue data) st.activeVal = false →
      CompressStep vals data st { st with
        count := 0, result := st.result ++ [.double st.activeVal, .int st.count] }
  | start : st.count = 0 → setCount vals (wireValue data) = true →
      CompressStep vals data st
        { st with i := st.i + 1, activeVal := wireValue data, count := 1 }
  | plain : st.count = 0 → setCount vals (wireValue data) = false →
      CompressStep vals data st
        { st with i := st.i + 1, result := st.result ++ [.double (wireValue data)] }

theorem increment_eq_ok {i j : ℕ} : increment i = ok j ↔ j = i + 1 ∧ i + 1 < 2 ^ 31 := by
  rw [increment]
  split
  · next h =>
    rw [pure_eq, Outcome.ok.injEq]
    exact ⟨fun heq => ⟨heq.symm, h⟩, fun heq => heq.1.symm⟩
  · next h =>
    exact iff_of_false (by simp) fun heq => h heq.2

theorem compressStep_cases {vals : List R} {data : R} {st st' : Compressor R}
    (h : compressStep vals data st = ok st') :
    st.i + 1 < 2 ^ 31 ∧ CompressStep vals data st st' := by
  obtain ⟨i, hi, h⟩ := bind_eq_ok.mp h
  obtain ⟨rfl, hlt⟩ := increment_eq_ok.mp hi
  refine ⟨hlt, ?_⟩
  split at h
  · next hcount =>
    dsimp only at h
    split at h
    · next heq =>
      obtain ⟨count, hcount', h⟩ := bind_eq_ok.mp h
      obtain ⟨rfl, -⟩ := increment_eq_ok.mp hcount'
      obtain rfl := Outcome.ok.inj h
      exact .extend hcount heq
    · next hne =>
      obtain rfl := Outcome.ok.inj h
      exact .close hcount (Bool.eq_false_of_not_eq_true hne)
  · next hcount =>
    have hzero : st.count = 0 := Nat.eq_zero_of_not_pos hcount
    dsimp only at h
    split at h
    · next hset =>
      obtain rfl := Outcome.ok.inj h
      exact .start hzero hset
    · next hset =>
      obtain rfl := Outcome.ok.inj h
      exact .plain hzero (Bool.eq_false_of_not_eq_true hset)

/-- While the indices are numbers of type `int`, an iteration is completed. -/
theorem compressStep_ok (vals : List R) (data : R) {st : Compressor R} (hi : st.i + 1 < 2 ^ 31)
    (hcount : st.count ≤ st.i) : ∃ st', compressStep vals data st = ok st' := by
  rw [compressStep, increment_eq_ok.mpr ⟨rfl, hi⟩, ok_bind]
  dsimp only
  split
  · split
    · rw [increment_eq_ok.mpr ⟨rfl, by omega⟩, ok_bind]
      exact ⟨_, rfl⟩
    · exact ⟨_, rfl⟩
  · split
    · exact ⟨_, rfl⟩
    · exact ⟨_, rfl⟩

/-- The index cannot be incremented. -/
theorem compressStep_overflow (vals : List R) (data : R) {st : Compressor R}
    (hi : 2 ^ 31 ≤ st.i + 1) : compressStep vals data st = .throw .undefined := by
  rw [compressStep, increment, if_neg (not_lt.mpr hi)]
  rfl

/-- A run is not longer than what has been passed. -/
theorem CompressStep.count_le {vals : List R} {data : R} {st st' : Compressor R}
    (h : CompressStep vals data st st') (hcount : st.count ≤ st.i) : st'.count ≤ st'.i := by
  cases h with
  | extend _ _ => exact Nat.succ_le_succ hcount
  | close _ _ => exact Nat.zero_le _
  | start _ _ => exact Nat.succ_le_succ (Nat.zero_le _)
  | plain _ _ => exact hcount.trans (Nat.le_succ _)

/-- How far the loop is from its end: every coefficient is looked at at most twice. -/
def Compressor.remaining (st : Compressor R) (totalDim : ℕ) : ℕ :=
  2 * (totalDim - st.i) + if 0 < st.count then 1 else 0

theorem CompressStep.remaining_lt {vals : List R} {data : R} {st st' : Compressor R}
    {totalDim : ℕ} (h : CompressStep vals data st st') (hi : st.i < totalDim) :
    st'.remaining totalDim < st.remaining totalDim := by
  cases h with
  | extend hcount _ =>
    simp only [Compressor.remaining, hcount, if_pos, Nat.succ_pos]
    omega
  | close hcount _ =>
    simp only [Compressor.remaining, hcount, if_pos]
    simp
  | start hcount _ =>
    simp only [Compressor.remaining, hcount]
    simp
    omega
  | plain hcount _ =>
    simp only [Compressor.remaining, hcount]
    simp
    omega

/-- The loop `while (i < totalDim)`. -/
def compressLoop (vals data : List R) (st : Compressor R) :
    Outcome Err (Compressor R) :=
  if hi : st.i < data.length then
    match hstep : compressStep vals data[st.i] st with
    | .ok st' => compressLoop vals data st'
    | .throw e => .throw e
    | .outOfFuel => .outOfFuel
  else
    ok st
termination_by st.remaining data.length
decreasing_by exact (compressStep_cases hstep).2.remaining_lt hi

theorem compressLoop_step {vals data : List R} {st st' : Compressor R} (hi : st.i < data.length)
    (h : compressStep vals data[st.i] st = ok st') :
    compressLoop vals data st = compressLoop vals data st' := by
  rw [compressLoop, dif_pos hi]
  split
  · next st'' heq =>
    obtain rfl := Outcome.ok.inj (h.symm.trans heq)
    rfl
  · next e heq => exact absurd (h.symm.trans heq) (by simp)
  · next heq => exact absurd (h.symm.trans heq) (by simp)

theorem compressLoop_throw {vals data : List R} {st : Compressor R} {e : Err}
    (hi : st.i < data.length) (h : compressStep vals data[st.i] st = .throw e) :
    compressLoop vals data st = .throw e := by
  rw [compressLoop, dif_pos hi]
  split
  · next st'' heq => exact absurd (h.symm.trans heq) (by simp)
  · next e' heq => rw [Outcome.throw.inj (h.symm.trans heq)]
  · next heq => exact absurd (h.symm.trans heq) (by simp)

theorem compressLoop_end {vals data : List R} {st : Compressor R} (hi : data.length ≤ st.i) :
    compressLoop vals data st = ok st := by
  rw [compressLoop, dif_neg (not_lt.mpr hi)]

/-- The array at the end of the loop. -/
def Compressor.finish (st : Compressor R) : List (JsonValue R) :=
  if 0 < st.count then st.result ++ [.double st.activeVal, .int st.count] else st.result

def runlengthCompress {rows cols : ℕ} (m : Fin rows → Fin cols → R) (vals : List R) :
    Outcome Err (List (JsonValue R)) := do
  let st ← compressLoop vals (columnMajor m) ⟨0, 0, 0, []⟩
  pure st.finish

/-! ### The decoder -/

/-- The exceptions of `uncompress`. -/
inductive PyErr where
  | indexError
  | typeError

/-- `v == x` in Python. -/
def JsonValue.equals (v : JsonValue R) (x : R) : Bool :=
  match v with
  | double y => isEqual y x
  | int n => isEqual (lit n) x

/-- `uncompress`; `nan` is `float('nan')`. -/
def uncompress (nan : R) : List (JsonValue R) → Outcome PyErr (List (JsonValue R))
  | [] => pure []
  | value :: data =>
    if value.equals (-1) || value.equals 0 then
      let val := if value.equals (-1) then .double nan else value
      match data with
      | [] => .throw .indexError
      | .double _ :: _ => .throw .typeError
      | .int k :: data => do
        let output ← uncompress nan data
        pure (List.replicate k.toNat val ++ output)
    else do
      let output ← uncompress nan data
      pure (value :: output)

/-- The values whose runs the server compresses. -/
def compressVals : List R := [0, -1]

/-- What comes back for a coefficient: `-1` has been moved. -/
def restored (datum : R) : R := if isEqual datum (-1) then datum + epsilon else datum

/-! ### Tokens -/

/-- A value, or a run of one value. -/
inductive Token (R : Type) where
  | value (x : R)
  | run (x : R) (count : ℕ)

namespace Token

/-- The values that the token stands for. -/
def expand : Token R → List R
  | value x => [x]
  | run x count => List.replicate count x

/-- The part of the array for the token. -/
def write : Token R → List (JsonValue R)
  | value x => [.double x]
  | run x count => [.double x, .int count]

end Token

end Code

/-! ### Compressing finite numbers and NaN -/

section Compress

variable {x y : ℝ}

@[simp] theorem isEqual_fin : isEqual (NanReal.fin x) (.fin y) = decide (x = y) := by
  have hle : isEqual (NanReal.fin x) (.fin y) = (decide (x ≤ y) && decide (y ≤ x)) := rfl
  rw [hle, ← Bool.decide_and]
  exact decide_eq_decide.mpr le_antisymm_iff.symm

@[simp] theorem isEqual_nan (a : NanReal) : isEqual NanReal.nan a = false := rfl

@[simp] theorem isNan_fin : isNan (NanReal.fin x) = false := by
  show (!decide (x ≤ x)) = false
  simp

@[simp] theorem isNan_nan : isNan NanReal.nan = true := rfl

@[simp] theorem neg_fin : -NanReal.fin x = .fin (-x) := rfl

@[simp] theorem epsilon_eq : (epsilon : NanReal) = .fin (1 / 2 ^ 52) := by
  show NanReal.fin (((1 / 2 ^ 52 : ℚ)) : ℝ) = _
  norm_num

theorem eq_of_isEqual {a b : NanReal} (h : isEqual a b = true) : a = b := by
  cases a with
  | nan => simp at h
  | fin x =>
    cases b with
    | nan => exact absurd h (by simp [isEqual, Double.le])
    | fin y =>
      obtain rfl : x = y := by simpa using h
      rfl

theorem setCount_compressVals :
    setCount compressVals (NanReal.fin x) = true ↔ x = 0 ∨ x = -1 := by
  have hset : setCount compressVals (NanReal.fin x)
      = (!decide (0 < x) && !decide (x < 0)
        || (!decide (-1 < x) && !decide (x < -1) || false)) := rfl
  rw [hset]
  simp only [Bool.or_false, Bool.or_eq_true, Bool.and_eq_true, Bool.not_eq_true',
    decide_eq_false_iff_not, not_lt]
  exact or_congr ⟨fun h => le_antisymm h.1 h.2, fun h => ⟨h.le, h.ge⟩⟩
    ⟨fun h => le_antisymm h.1 h.2, fun h => ⟨h.le, h.ge⟩⟩

/-- What is written is a number. -/
theorem wireValue_finite (datum : NanReal) : ∃ x, wireValue datum = .fin x := by
  cases datum with
  | nan => exact ⟨-1, rfl⟩
  | fin x =>
    by_cases h : x = -1
    · exact ⟨-1 + 1 / 2 ^ 52, by simp [wireValue, h]⟩
    · exact ⟨x, by simp [wireValue, h]⟩

/-- What the decoder makes of a value. -/
noncomputable def received (datum : NanReal) : NanReal :=
  if isEqual datum (-1) then .nan else datum

/-- The decoder undoes the encoding of NaN. -/
theorem received_wireValue (datum : NanReal) : received (wireValue datum) = restored datum := by
  cases datum with
  | nan => simp [received, wireValue, restored]
  | fin x =>
    by_cases h : x = -1
    · simp [received, wireValue, restored, h]
    · simp [received, wireValue, restored, h]

end Compress

/-! ### The invariant of the loop -/

/-- A value that comes in runs. -/
def Compressible (a : NanReal) : Prop := a = .fin 0 ∨ a = .fin (-1)

/-- Exactly these values come in runs. -/
def Token.Valid : Token NanReal → Prop
  | value a => ∃ x, a = .fin x ∧ ¬ Compressible a
  | run a _ => Compressible a

/-- The array and the active run stand for the values `passed`. -/
structure Compressor.Reads (st : Compressor NanReal) (passed : List NanReal) : Prop where
  active : 0 < st.count → Compressible st.activeVal
  exists_tokens : ∃ tokens : List (Token NanReal), (∀ token ∈ tokens, token.Valid) ∧
    st.result = tokens.flatMap Token.write ∧
    tokens.flatMap Token.expand ++ List.replicate st.count st.activeVal = passed

section Loop

variable {data : List NanReal} {st st' : Compressor NanReal} {passed : List NanReal}

/-- The end of a run. -/
theorem Compressor.Reads.close (hst : st.Reads passed) (hcount : 0 < st.count) :
    ∃ tokens : List (Token NanReal), (∀ token ∈ tokens, token.Valid) ∧
      st.result ++ [.double st.activeVal, .int st.count] = tokens.flatMap Token.write ∧
      tokens.flatMap Token.expand = passed := by
  obtain ⟨hactive, tokens, hvalid, hresult, hpassed⟩ := hst
  refine ⟨tokens ++ [.run st.activeVal st.count], ?_, ?_, ?_⟩
  · rw [List.forall_mem_append, List.forall_mem_singleton]
    exact ⟨hvalid, hactive hcount⟩
  · rw [List.flatMap_append, ← hresult]
    rfl
  · rw [List.flatMap_append, ← hpassed]
    simp [Token.expand]

/-- **One iteration**: the values passed are those passed before and, unless it steps back,
the one it looks at. -/
theorem CompressStep.reads {datum : NanReal} (h : CompressStep compressVals datum st st')
    (hst : st.Reads passed) :
    (st'.i = st.i ∧ st'.Reads passed) ∨
      st'.i = st.i + 1 ∧ st'.Reads (passed ++ [wireValue datum]) := by
  have hclose := hst.close
  obtain ⟨hactive, tokens, hvalid, hresult, hpassed⟩ := hst
  obtain ⟨x, hx⟩ := wireValue_finite datum
  cases h with
  | extend hcount heq =>
    refine Or.inr ⟨rfl, ⟨fun _ => hactive hcount, tokens, hvalid, hresult, ?_⟩⟩
    rw [eq_of_isEqual heq, ← hpassed, List.append_assoc, ← List.replicate_succ']
  | close hcount _ =>
    -- the index steps back, so the same coefficient is looked at again, outside of a run
    obtain ⟨tokens', hvalid', hresult', hpassed'⟩ := hclose hcount
    refine Or.inl ⟨rfl, ⟨fun h => absurd h (Nat.lt_irrefl 0), tokens', hvalid', hresult', ?_⟩⟩
    rw [hpassed']
    exact List.append_nil _
  | start hcount hset =>
    rw [hx, setCount_compressVals] at hset
    refine Or.inr ⟨rfl, ⟨fun _ => ?_, tokens, hvalid, hresult, ?_⟩⟩
    · show Compressible (wireValue datum)
      rw [hx, Compressible, NanReal.fin.injEq, NanReal.fin.injEq]
      exact hset
    · rw [← hpassed, hcount]
      simp
  | plain hcount hset =>
    rw [hx, Bool.eq_false_iff, Ne, setCount_compressVals] at hset
    refine Or.inr ⟨rfl, ⟨fun h => absurd (hcount ▸ h) (Nat.lt_irrefl 0),
      tokens ++ [.value (wireValue datum)], ?_, ?_, ?_⟩⟩
    · rw [List.forall_mem_append, List.forall_mem_singleton]
      refine ⟨hvalid, x, hx, ?_⟩
      rw [hx, Compressible, NanReal.fin.injEq, NanReal.fin.injEq]
      exact hset
    · rw [List.flatMap_append, ← hresult]
      rfl
    · rw [List.flatMap_append, ← hpassed, hcount]
      simp [Token.expand]

/-- **The loop**, while the index is an `int`. -/
theorem compressLoop_reads (hlen : data.length < 2 ^ 31) (hi : st.i ≤ data.length)
    (hcount : st.count ≤ st.i) (hst : st.Reads ((data.take st.i).map wireValue)) :
    ∃ st', compressLoop compressVals data st = ok st' ∧ st'.Reads (data.map wireValue) := by
  induction hn : st.remaining data.length using Nat.strong_induction_on generalizing st with
  | _ n ih =>
    rcases Nat.lt_or_ge st.i data.length with hlt | hge
    · obtain ⟨st₁, hstep⟩ := compressStep_ok compressVals data[st.i] (by omega) hcount
      have hcases := (compressStep_cases hstep).2
      have hremaining := hcases.remaining_lt hlt
      have hcount₁ := hcases.count_le hcount
      rw [compressLoop_step hlt hstep]
      -- the measure goes down even when the index does not move
      rcases hcases.reads hst with ⟨hi₁, hreads⟩ | ⟨hi₁, hreads⟩
      · exact ih _ (hn ▸ hremaining) (hi₁ ▸ hi) hcount₁ (hi₁ ▸ hreads) rfl
      · refine ih _ (hn ▸ hremaining) (hi₁ ▸ hlt) hcount₁ ?_ rfl
        rw [hi₁, List.take_succ_eq_append_getElem hlt, List.map_append]
        exact hreads
    · refine ⟨st, compressLoop_end hge, ?_⟩
      rw [List.take_of_length_le hge] at hst
      exact hst

/-- **With more coefficients** the index overflows. -/
theorem compressLoop_overflow (hlen : 2 ^ 31 ≤ data.length) (hi : st.i < 2 ^ 31)
    (hcount : st.count ≤ st.i) : compressLoop compressVals data st = .throw .undefined := by
  induction hn : st.remaining data.length using Nat.strong_induction_on generalizing st with
  | _ n ih =>
    have hlt : st.i < data.length := by omega
    -- the loop cannot end before the index is `2 ^ 31 - 1`, where `++i` is undefined
    rcases Nat.lt_or_ge (st.i + 1) (2 ^ 31) with hnext | hnext
    · obtain ⟨st₁, hstep⟩ := compressStep_ok compressVals data[st.i] hnext hcount
      have hcases := (compressStep_cases hstep).2
      have hi₁ : st₁.i < 2 ^ 31 := by
        cases hcases with
        | close _ _ => exact hi
        | _ => exact hnext
      rw [compressLoop_step hlt hstep]
      exact ih _ (hn ▸ hcases.remaining_lt hlt) hi₁ (hcases.count_le hcount) rfl
    · exact compressLoop_throw hlt (compressStep_overflow _ _ hnext)

/-- The array at the end is that of the tokens. -/
theorem Compressor.Reads.finish (hst : st.Reads passed) :
    ∃ tokens : List (Token NanReal), (∀ token ∈ tokens, token.Valid) ∧
      st.finish = tokens.flatMap Token.write ∧ tokens.flatMap Token.expand = passed := by
  by_cases hcount : 0 < st.count
  · rw [Compressor.finish, if_pos hcount]
    exact hst.close hcount
  · obtain ⟨hactive, tokens, hvalid, hresult, hpassed⟩ := hst
    refine ⟨tokens, hvalid, ?_, ?_⟩
    · rw [Compressor.finish, if_neg hcount, hresult]
    · rw [Nat.eq_zero_of_not_pos hcount] at hpassed
      simpa using hpassed

end Loop

/-! ### The decoder reads tokens -/

/-- **Token after token**, the decoder gives what they stand for. -/
theorem uncompress_write {tokens : List (Token NanReal)} (h : ∀ token ∈ tokens, token.Valid) :
    uncompress .nan (tokens.flatMap Token.write)
      = ok ((tokens.flatMap Token.expand).map fun a => .double (received a)) := by
  induction tokens with
  | nil => rfl
  | cons token tokens ih =>
    have htail := ih fun token htoken => h token (List.mem_cons_of_mem _ htoken)
    rw [List.flatMap_cons, List.flatMap_cons, List.map_append]
    cases token with
    | value a =>
      obtain ⟨x, rfl, hx⟩ := h _ List.mem_cons_self
      rw [Compressible, NanReal.fin.injEq, NanReal.fin.injEq, not_or] at hx
      show uncompress .nan (.double (.fin x) :: tokens.flatMap Token.write) = _
      rw [uncompress, htail]
      simp [JsonValue.equals, Token.expand, received, hx.1, hx.2]
    | run a count =>
      show uncompress .nan (.double a :: .int count :: tokens.flatMap Token.write) = _
      rw [uncompress]
      -- the decoder tells a run from a value by the value itself
      rcases h _ List.mem_cons_self with rfl | rfl
      · have hne : (0 : ℝ) ≠ -1 := by norm_num
        simp [JsonValue.equals, Token.expand, received, htail, hne]
      · simp [JsonValue.equals, Token.expand, received, htail]

theorem length_columnMajor {rows cols : ℕ} {α : Type} (m : Fin rows → Fin cols → α) :
    (columnMajor m).length = rows * cols := by
  simp [columnMajor, Nat.mul_comm]

/-- The decoder gives back the coefficients of the matrix, column by column. -/
def RoundTrips {rows cols : ℕ} (m : Fin rows → Fin cols → NanReal) : Prop :=
  ∃ array, runlengthCompress m compressVals = ok array ∧
    uncompress .nan array = ok ((columnMajor m).map fun a => .double (restored a))

/-- **Does the coding of a matrix round-trip?**  Exactly when the number of its coefficients
is an `int`. -/
theorem runlength_roundtrip_iff {rows cols : ℕ} (m : Fin rows → Fin cols → NanReal) :
    RoundTrips m ↔ rows * cols < 2 ^ 31 := by
  constructor
  · rintro ⟨array, hcompress, -⟩
    by_contra hlen
    rw [runlengthCompress, compressLoop_overflow (by rw [length_columnMajor]; omega)
      (by decide) le_rfl] at hcompress
    simp at hcompress
  · intro hlen
    have hstart : Compressor.Reads ⟨0, 0, 0, []⟩ (((columnMajor m).take 0).map wireValue) :=
      ⟨fun h => absurd h (Nat.lt_irrefl 0), [], by simp, rfl, rfl⟩
    obtain ⟨st, hloop, hreads⟩ := compressLoop_reads (by rwa [length_columnMajor])
      (Nat.zero_le _) le_rfl hstart
    obtain ⟨tokens, hvalid, hwrite, hexpand⟩ := hreads.finish
    refine ⟨st.finish, by rw [runlengthCompress, hloop]; rfl, ?_⟩
    rw [hwrite, uncompress_write hvalid, hexpand, List.map_map]
    simp only [Function.comp_def, received_wireValue]

/-- A matrix of zeros with 65536 rows and 32768 columns: the index overflows. -/
theorem large_matrix_overflows :
    runlengthCompress (fun (_ : Fin 65536) (_ : Fin 32768) => NanReal.fin 0) compressVals
      = .throw .undefined ∧
    ¬ RoundTrips fun (_ : Fin 65536) (_ : Fin 32768) => NanReal.fin 0 := by
  have hoverflow : runlengthCompress (fun (_ : Fin 65536) (_ : Fin 32768) => NanReal.fin 0)
      compressVals = .throw .undefined := by
    rw [runlengthCompress, compressLoop_overflow
      (by rw [length_columnMajor]; norm_num) (by decide) le_rfl]
    rfl
  refine ⟨hoverflow, ?_⟩
  rintro ⟨array, hcompress, -⟩
  rw [hoverflow] at hcompress
  simp at hcompress

end Commelec
