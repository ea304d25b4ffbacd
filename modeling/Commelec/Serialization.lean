/-
Commelec/Serialization.lean

Packing a message into a vector of bytes (`serialization.cpp`).

Cap'n Proto packs a message by writing to a `BufferedOutputStream`.  `VectorBuffer` is one that
writes to a `std::vector`: its client may pass a chunk from elsewhere, which is copied and for
which the vector grows if needed, or it may ask for the free part of the vector, fill it and
pass a prefix of it, which `write` recognises by its address.  At the end the vector is cut off
behind the last byte that was written.

* `Session` — the stream and the write buffer that its client holds; the buffer is lent until
  the next write;
* `Step`, `Steps` — what a client may do, with the chunks that it writes;
* `Session.Holds` — the invariant: the written bytes are at the front of the vector, and the
  lent buffer starts behind them;
* `stream_loses_nothing` — so the vector that is left holds all chunks, in their order.

The client's own chunks are not in the storage of the vector, so their addresses are none of
the storage, nor the one right behind it.  Sizes and offsets are natural numbers; a vector is
never as large as `size_t` allows.
-/
import Commelec.Lib.Stream
import Commelec.Eval

namespace Commelec

open Effectful Outcome

/-- What `write` is passed a pointer to. -/
inductive Source where
  /-- bytes outside of the vector -/
  | external (bytes : List UInt8)
  /-- the storage of the vector, from an offset on -/
  | own (offset : ℕ)
  deriving DecidableEq

/-- A part of the storage of the vector. -/
structure ArrayPtr where
  begin : ℕ
  size : ℕ

/-- `v.resize(n)` -/
def resize (v : List UInt8) (n : ℕ) : List UInt8 := v.take n ++ List.replicate (n - v.length) 0

structure VectorBuffer where
  vector : List UInt8
  bytesWritten : ℕ

namespace VectorBuffer

def available (buf : VectorBuffer) : ℕ := buf.vector.length - buf.bytesWritten

def getWriteBuffer (buf : VectorBuffer) : ArrayPtr := ⟨buf.bytesWritten, buf.available⟩

/-- `write(src, size)`. -/
def write (src : Source) (size : ℕ) : Run VectorBuffer Err Unit := fun buf =>
  if src = .own buf.bytesWritten then
    -- caller wrote directly into our buffer
    (ok (), { buf with bytesWritten := buf.bytesWritten + size })
  else
    match src with
    | .external bytes =>
      let vector := if buf.available < size then resize buf.vector (buf.vector.length + size)
        else buf.vector
      (ok (), ⟨overwriteAt vector buf.bytesWritten (bytes.take size), buf.bytesWritten + size⟩)
    | .own offset =>
      if size ≤ buf.available ∧ offset + size ≤ buf.vector.length ∧
          (offset + size ≤ buf.bytesWritten ∨ buf.bytesWritten + size ≤ offset) then
        (ok (), ⟨overwriteAt buf.vector buf.bytesWritten ((buf.vector.drop offset).take size),
          buf.bytesWritten + size⟩)
      else
        -- the parts overlap, or the source is no longer there after the vector has grown
        (.throw .undefined, buf)

/-- The vector after the last line of `writePackedMessage`. -/
def finish (buf : VectorBuffer) : List UInt8 :=
  resize buf.vector (buf.vector.length - buf.available)

end VectorBuffer

/-! ### Clients of the stream -/

/-- The stream, and the write buffer that its client holds. -/
structure Session where
  buf : VectorBuffer
  lent : Option ArrayPtr

/-- A stream that writes to the vector `v`. -/
def Session.start (v : List UInt8) : Session := ⟨⟨v, 0⟩, none⟩

/-- What the client does next, and the chunk that it writes. -/
inductive Step : Session → List UInt8 → Session → Prop
  | getWriteBuffer {s} : Step s [] { s with lent := some s.buf.getWriteBuffer }
  /-- the client fills a prefix of the write buffer -/
  | fill {s a bytes} : s.lent = some a → bytes.length ≤ a.size →
      Step s [] { s with buf.vector := overwriteAt s.buf.vector a.begin bytes }
  /-- it passes a prefix of the write buffer to `write` -/
  | writeFilled {s a size buf'} : s.lent = some a → size ≤ a.size →
      VectorBuffer.write (.own a.begin) size s.buf = (ok (), buf') →
      Step s ((s.buf.vector.drop a.begin).take size) ⟨buf', none⟩
  /-- it passes other bytes -/
  | write {s bytes buf'} : VectorBuffer.write (.external bytes) bytes.length s.buf = (ok (), buf') →
      Step s bytes ⟨buf', none⟩

/-- A sequence of such steps. -/
inductive Steps (s : Session) : List (List UInt8) → Session → Prop
  | nil : Steps s [] s
  | snoc {chunks s₁ chunk s₂} : Steps s chunks s₁ → Step s₁ chunk s₂ →
      Steps s (chunks ++ [chunk]) s₂

/-! ### The invariant -/

/-- The bytes `written` are at the front of the vector, and the write buffer is behind them. -/
structure Session.Holds (s : Session) (written : List UInt8) : Prop where
  le : s.buf.bytesWritten ≤ s.buf.vector.length
  front : s.buf.vector.take s.buf.bytesWritten = written
  lent : ∀ a, s.lent = some a → a = s.buf.getWriteBuffer

namespace VectorBuffer

variable {buf : VectorBuffer} {bytes : List UInt8} {size : ℕ}

theorem write_own : write (.own buf.bytesWritten) size buf
    = (ok (), { buf with bytesWritten := buf.bytesWritten + size }) := by
  rw [write, if_pos rfl]

theorem write_external : write (.external bytes) bytes.length buf
    = (ok (), ⟨overwriteAt (if buf.available < bytes.length
        then resize buf.vector (buf.vector.length + bytes.length) else buf.vector)
          buf.bytesWritten bytes, buf.bytesWritten + bytes.length⟩) := by
  rw [write, if_neg (by simp)]
  dsimp only
  rw [List.take_length]

/-- A vector that grows keeps its elements. -/
theorem take_resize {v : List UInt8} {n i : ℕ} (hi : i ≤ v.length) (hn : v.length ≤ n) :
    (resize v n).take i = v.take i := by
  rw [resize, List.take_of_length_le hn]
  apply List.take_append_of_le_length
  exact hi

theorem length_resize (v : List UInt8) (n : ℕ) : (resize v n).length = n := by
  rw [resize, List.length_append, List.length_take, List.length_replicate]
  omega

/-- Copying a chunk appends it to what is at the front, and leaves room for no more than the
vector has. -/
theorem write_external_spec (bytes : List UInt8) (hle : buf.bytesWritten ≤ buf.vector.length) :
    ∃ vector, write (.external bytes) bytes.length buf
        = (ok (), ⟨vector, buf.bytesWritten + bytes.length⟩) ∧
      buf.bytesWritten + bytes.length ≤ vector.length ∧
      vector.take (buf.bytesWritten + bytes.length)
        = buf.vector.take buf.bytesWritten ++ bytes := by
  refine ⟨_, write_external, ?_⟩
  split
  · -- the vector grows by the size of the chunk, although less would do
    have hroom : buf.bytesWritten + bytes.length
        ≤ (resize buf.vector (buf.vector.length + bytes.length)).length := by
      rw [length_resize]
      omega
    refine ⟨(length_overwriteAt hroom).symm ▸ hroom, ?_⟩
    rw [take_overwriteAt_add (by omega), take_resize hle (by omega)]
  · next hfits =>
    have hroom : buf.bytesWritten + bytes.length ≤ buf.vector.length := by
      rw [available] at hfits
      omega
    refine ⟨(length_overwriteAt hroom).symm ▸ hroom, ?_⟩
    rw [take_overwriteAt_add hle]

/-- Cutting the vector off leaves what is at the front. -/
theorem finish_eq (hle : buf.bytesWritten ≤ buf.vector.length) :
    finish buf = buf.vector.take buf.bytesWritten := by
  have hlen : buf.vector.length - buf.available = buf.bytesWritten := by
    rw [available]
    omega
  rw [finish, hlen, resize, Nat.sub_eq_zero_of_le hle, List.replicate_zero, List.append_nil]

end VectorBuffer

namespace Session.Holds

variable {s s' : Session} {written chunk : List UInt8}

theorem start (v : List UInt8) : (Session.start v).Holds [] where
  le := Nat.zero_le _
  front := List.take_zero
  lent a ha := absurd ha (by simp [Session.start])

/-- **A step keeps the invariant**, with its chunk appended. -/
theorem step (h : s.Holds written) (hstep : Step s chunk s') :
    s'.Holds (written ++ chunk) := by
  cases hstep with
  | getWriteBuffer =>
    rw [List.append_nil]
    refine ⟨h.le, h.front, fun a ha => ?_⟩
    exact (Option.some.inj ha).symm
  | @fill a bytes hlent hsize =>
    -- the write buffer starts behind what has been written
    obtain rfl := h.lent a hlent
    have hroom : s.buf.bytesWritten + bytes.length ≤ s.buf.vector.length := by
      have hle := h.le
      have hsize' : bytes.length ≤ s.buf.vector.length - s.buf.bytesWritten := hsize
      omega
    have hlen := length_overwriteAt hroom
    rw [List.append_nil]
    refine ⟨hlen.symm ▸ h.le, ?_, fun a ha => ?_⟩
    · exact (take_overwriteAt h.le).trans h.front
    · rw [h.lent a ha]
      exact congrArg (fun n => ArrayPtr.mk s.buf.bytesWritten (n - s.buf.bytesWritten)) hlen.symm
  | @writeFilled a size buf' hlent hsize hwrite =>
    obtain rfl := h.lent a hlent
    obtain rfl : _ = buf' := congrArg Prod.snd (VectorBuffer.write_own.symm.trans hwrite)
    have hsize' : size ≤ s.buf.vector.length - s.buf.bytesWritten := hsize
    have hle := h.le
    refine ⟨?_, ?_, fun a ha => absurd ha (by simp)⟩
    · show s.buf.bytesWritten + size ≤ s.buf.vector.length
      omega
    · show s.buf.vector.take (s.buf.bytesWritten + size) = _
      rw [List.take_add, h.front]
      rfl
  | @write _ buf' hwrite =>
    obtain ⟨vector, heq, hroom, htake⟩ := VectorBuffer.write_external_spec chunk h.le
    obtain rfl : _ = buf' := congrArg Prod.snd (heq.symm.trans hwrite)
    refine ⟨hroom, ?_, fun a ha => absurd ha (by simp)⟩
    rw [← h.front]
    exact htake

/-- **A sequence of steps keeps it.** -/
theorem steps {chunks : List (List UInt8)} (h : s.Holds written) (hsteps : Steps s chunks s') :
    s'.Holds (written ++ chunks.flatten) := by
  induction hsteps with
  | nil => rwa [List.flatten_nil, List.append_nil]
  | @snoc chunks s₁ chunk s₂ _ hstep ih =>
    rw [List.flatten_append, ← List.append_assoc, List.flatten_singleton]
    exact ih.step hstep

/-- No write of the client fails. -/
theorem write_ok (h : s.Holds written) :
    (∀ bytes : List UInt8, (VectorBuffer.write (.external bytes) bytes.length s.buf).1 = ok ()) ∧
      ∀ a size, s.lent = some a → (VectorBuffer.write (.own a.begin) size s.buf).1 = ok () := by
  constructor
  · intro bytes
    rw [VectorBuffer.write_external]
  · intro a size hlent
    obtain rfl := h.lent a hlent
    exact congrArg Prod.fst VectorBuffer.write_own

end Session.Holds

/-- **The stream loses nothing**: whatever the vector was and whatever the client does, the
bytes written fit in the vector, the client's next write succeeds, and the vector that is left
holds exactly the chunks, in their order. -/
theorem stream_loses_nothing {v : List UInt8} {chunks : List (List UInt8)} {s : Session}
    (h : Steps (.start v) chunks s) :
    s.buf.bytesWritten ≤ s.buf.vector.length ∧
      (∀ bytes : List UInt8,
        (VectorBuffer.write (.external bytes) bytes.length s.buf).1 = ok ()) ∧
      (∀ a size, s.lent = some a → size ≤ a.size →
        (VectorBuffer.write (.own a.begin) size s.buf).1 = ok ()) ∧
      s.buf.finish = chunks.flatten := by
  have hs := (Session.Holds.start v).steps h
  obtain ⟨hexternal, hown⟩ := hs.write_ok
  refine ⟨hs.le, hexternal, fun a size hlent _ => hown a size hlent, ?_⟩
  rw [VectorBuffer.finish_eq hs.le, hs.front, List.nil_append]

/-- A client that fills two bytes of a vector of three, and then writes two others. -/
theorem stream_loses_nothing_sample :
    ∃ s : Session, Steps (.start [0, 0, 0]) [[], [], [7, 8], [9, 9]] s ∧
      s.buf.bytesWritten ≤ s.buf.vector.length ∧ s.buf.finish = [7, 8, 9, 9] := by
  have hsteps : Steps (.start [0, 0, 0]) [[], [], [7, 8], [9, 9]]
      ⟨⟨[7, 8, 9, 9, 0], 4⟩, none⟩ := by
    have hlend : Step (.start [0, 0, 0]) [] ⟨⟨[0, 0, 0], 0⟩, some ⟨0, 3⟩⟩ := .getWriteBuffer
    have hfill : Step ⟨⟨[0, 0, 0], 0⟩, some ⟨0, 3⟩⟩ [] ⟨⟨[7, 8, 0], 0⟩, some ⟨0, 3⟩⟩ :=
      @Step.fill _ ⟨0, 3⟩ [7, 8] rfl (by decide)
    have hwrite : Step ⟨⟨[7, 8, 0], 0⟩, some ⟨0, 3⟩⟩ [7, 8] ⟨⟨[7, 8, 0], 2⟩, none⟩ :=
      @Step.writeFilled _ ⟨0, 3⟩ 2 _ rfl (by decide) rfl
    -- one byte is left for two
    have hgrow : Step ⟨⟨[7, 8, 0], 2⟩, none⟩ [9, 9] ⟨⟨[7, 8, 9, 9, 0], 4⟩, none⟩ := .write rfl
    exact (((Steps.nil.snoc hlend).snoc hfill).snoc hwrite).snoc hgrow
  obtain ⟨hle, -, -, hfinish⟩ := stream_loses_nothing hsteps
  exact ⟨_, hsteps, hle, hfinish⟩

end Commelec
