/-
Commelec/Lib/Stream.lean

Reading from a buffer that is used again and again.  The library names nothing of the
program it is used for.

* `StreamReader` — a decoder that takes symbols from the front of its input until it has
  decided on a result; what follows no longer matters (`stable`).
* `Buffer` — a fixed number of symbols; `overwrite` replaces the first ones and leaves the
  rest as it was.

A reader that decides within the symbols just written gives a result that does not depend
on what the buffer held before (`read_overwrite`).

For buffers that grow, `overwriteAt l i src` replaces the symbols of `l` from position `i` on.
-/
import Mathlib.Data.List.TakeDrop

namespace Effectful

variable {β ρ : Type}

/-- A decoder that reads its input from left to right, and only as far as it needs. -/
structure StreamReader (β ρ : Type) where
  /-- the result, if the input is long enough to decide on one -/
  decided : List β → Option ρ
  stable {input rest : List β} {r : ρ} :
    decided input = some r → decided (input ++ rest) = some r

/-- The result on a finite input; `eof` if it ends too early. -/
def StreamReader.read (reader : StreamReader β ρ) (eof : ρ) (input : List β) : ρ :=
  (reader.decided input).getD eof

theorem StreamReader.read_append {reader : StreamReader β ρ} {input : List β}
    (h : (reader.decided input).isSome) (eof : ρ) (rest : List β) :
    reader.read eof (input ++ rest) = reader.read eof input := by
  obtain ⟨r, hr⟩ := Option.isSome_iff_exists.mp h
  rw [StreamReader.read, StreamReader.read, hr, reader.stable hr]

/-- The reader that knows one input. -/
def StreamReader.ofInput [BEq β] [LawfulBEq β] (input : List β) (r : ρ) : StreamReader β ρ where
  decided l := if input.isPrefixOf l then some r else none
  stable := by
    intro l rest r' h
    split at h
    · next hpre =>
      rw [List.isPrefixOf_iff_prefix] at hpre
      rw [if_pos (List.isPrefixOf_iff_prefix.mpr (hpre.trans (List.prefix_append l rest)))]
      exact h
    · exact absurd h (by simp)

theorem StreamReader.read_ofInput [BEq β] [LawfulBEq β] (input : List β) (r eof : ρ) :
    (ofInput input r).read eof input = r := by
  have hpre : input.isPrefixOf input = true := List.isPrefixOf_iff_prefix.mpr List.prefix_rfl
  show (if input.isPrefixOf input then some r else none).getD eof = r
  rw [if_pos hpre, Option.getD_some]

/-- An array of `size` symbols. -/
structure Buffer (β : Type) (size : ℕ) where
  data : List β
  length_data : data.length = size

namespace Buffer

variable {size : ℕ}

/-- Write the input to the front of the buffer; what does not fit is lost. -/
def overwrite (b : Buffer β size) (input : List β) : Buffer β size where
  data := (input ++ b.data.drop input.length).take size
  length_data := by
    rw [List.length_take, List.length_append, List.length_drop, b.length_data]
    omega

/-- An input that fits is followed by the old symbols. -/
theorem data_overwrite (b : Buffer β size) {input : List β} (h : input.length ≤ size) :
    (b.overwrite input).data = input ++ b.data.drop input.length := by
  refine List.take_of_length_le ?_
  rw [List.length_append, List.length_drop, b.length_data]
  omega

/-- What is read behind a short input is what the buffer held there. -/
theorem exists_data_overwrite {input rest : List β} (h : input.length + rest.length = size) :
    ∃ b : Buffer β size, (b.overwrite input).data = input ++ rest := by
  refine ⟨⟨input ++ rest, by rw [List.length_append, h]⟩, ?_⟩
  rw [data_overwrite _ (by omega), List.drop_left]

/-- **A reader that decides within the input does not see the old symbols**; nor does any
reader when the input fills the buffer. -/
theorem read_overwrite (reader : StreamReader β ρ) (eof : ρ) (b : Buffer β size)
    {input : List β} (hle : input.length ≤ size)
    (h : (reader.decided input).isSome ∨ input.length = size) :
    reader.read eof (b.overwrite input).data = reader.read eof input := by
  rw [data_overwrite b hle]
  rcases h with hdec | hfull
  · exact StreamReader.read_append hdec eof _
  · have hrest : b.data.drop input.length = [] :=
      List.drop_eq_nil_of_le (Nat.le_of_eq (b.length_data.trans hfull.symm))
    rw [hrest, List.append_nil]

end Buffer

/-! ### Writing at a position -/

/-- The list `src` in place of the elements of `l` from position `i` on. -/
def overwriteAt (l : List β) (i : ℕ) (src : List β) : List β :=
  l.take i ++ (src ++ l.drop (i + src.length))

section OverwriteAt

variable {l src : List β} {i : ℕ}

/-- What is written inside the list does not change its length. -/
theorem length_overwriteAt (h : i + src.length ≤ l.length) :
    (overwriteAt l i src).length = l.length := by
  rw [overwriteAt, List.length_append, List.length_append, List.length_take, List.length_drop]
  omega

/-- What is before the position stays. -/
theorem take_overwriteAt (h : i ≤ l.length) : (overwriteAt l i src).take i = l.take i :=
  List.take_left' (List.length_take_of_le h)

/-- Up to its end, what is written follows what was before the position. -/
theorem take_overwriteAt_add (h : i ≤ l.length) :
    (overwriteAt l i src).take (i + src.length) = l.take i ++ src := by
  rw [overwriteAt, ← List.append_assoc]
  apply List.take_left'
  rw [List.length_append, List.length_take_of_le h]

end OverwriteAt

end Effectful
