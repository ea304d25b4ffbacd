/-
Commelec/Lib/LinkedList.lean

Doubly linked lists in two arrays of indices.  The library names nothing of the program it
is used for.

The cells are the indices below a bound `m`, the cell `0` comes first, and the successor of
the last cell is written `m`.

* `Linked order n next prev` — the first `n` links of the cells of `order` are in the arrays;
  `Linked.set` adds a link;
* `Chain m next prev` — the arrays link every cell once, in both directions.

An order of all the cells whose links are all in the arrays gives a chain (`Linked.chain`).
-/
import Mathlib.Data.List.Nodup

namespace LinkedList

variable {order next prev : List ℕ} {n m a b : ℕ}

/-- For each of the first `n` neighbours in `order`, the arrays have the link. -/
structure Linked (order : List ℕ) (n : ℕ) (next prev : List ℕ) : Prop where
  forward {t a b : ℕ} : t < n → order[t]? = some a → order[t + 1]? = some b → next[a]? = some b
  backward {t a b : ℕ} : t < n → order[t]? = some a → order[t + 1]? = some b → prev[b]? = some a

theorem Linked.zero (order next prev : List ℕ) : Linked order 0 next prev where
  forward h := absurd h (Nat.not_lt_zero _)
  backward h := absurd h (Nat.not_lt_zero _)

/-- Cells at different places of the order are different. -/
theorem ne_of_place (hnd : order.Nodup) {s t : ℕ} (hst : s ≠ t) (ha : order[s]? = some a)
    (hb : order[t]? = some b) : a ≠ b := by
  rintro rfl
  exact hst ((List.getElem?_inj (List.getElem?_eq_some_iff.mp ha).1 hnd).mp (ha.trans hb.symm))

/-- A new link spares the earlier ones. -/
theorem Linked.set (hnd : order.Nodup) (h : Linked order n next prev)
    (ha : order[n]? = some a) (hb : order[n + 1]? = some b)
    (hna : a < next.length) (hpb : b < prev.length) :
    Linked order (n + 1) (next.set a b) (prev.set b a) where
  forward {t a' b'} ht ha' hb' := by
    rcases Nat.lt_succ_iff_lt_or_eq.mp ht with ht | rfl
    · rw [List.getElem?_set_ne (ne_of_place hnd (by omega) ha ha')]
      exact h.forward ht ha' hb'
    · obtain rfl : a = a' := Option.some.inj (ha.symm.trans ha')
      obtain rfl : b = b' := Option.some.inj (hb.symm.trans hb')
      exact List.getElem?_set_self hna
  backward {t a' b'} ht ha' hb' := by
    rcases Nat.lt_succ_iff_lt_or_eq.mp ht with ht | rfl
    · rw [List.getElem?_set_ne (ne_of_place hnd (by omega) hb hb')]
      exact h.backward ht ha' hb'
    · obtain rfl : a = a' := Option.some.inj (ha.symm.trans ha')
      obtain rfl : b = b' := Option.some.inj (hb.symm.trans hb')
      exact List.getElem?_set_self hpb

/-- Writing behind the last cell spares every link. -/
theorem Linked.set_last (hnd : order.Nodup) (h : Linked order n next prev)
    (ha : order[n]? = some a) (b : ℕ) : Linked order n (next.set a b) prev where
  forward {t a' b'} ht ha' hb' := by
    rw [List.getElem?_set_ne (ne_of_place hnd (by omega) ha ha')]
    exact h.forward ht ha' hb'
  backward := h.backward

/-! ### Following the links -/

/-- Where `t` steps along `next` lead from the cell `0`; `none` once a step leaves the array. -/
def walk (next : List ℕ) : ℕ → Option ℕ
  | 0 => some 0
  | t + 1 => (walk next t).bind (next[·]?)

/-- The arrays link the cells `0, ..., m - 1` to one list. -/
structure Chain (m : ℕ) (next prev : List ℕ) : Prop where
  /-- the first `m` cells met are all the cells, each once -/
  visits : ((List.range m).map (walk next)).Perm ((List.range m).map some)
  ends : walk next m = some m
  backward {i j : ℕ} : i < m → next[i]? = some j → j ≠ m → prev[j]? = some i

theorem Linked.walk_eq (h : Linked order n next prev) (h0 : order[0]? = some 0) {t : ℕ}
    (ht : t ≤ n) (hlen : t < order.length) : walk next t = order[t]? := by
  induction t with
  | zero => exact h0.symm
  | succ t ih =>
    have ha : order[t]? = some order[t] := List.getElem?_eq_getElem _
    have hb : order[t + 1]? = some order[t + 1] := List.getElem?_eq_getElem hlen
    rw [walk, ih (by omega) (by omega), ha, hb]
    exact h.forward (by omega) ha hb

/-- **Linking every cell.**  `a` is the last cell of the order. -/
theorem Linked.chain (horder : order.Perm (List.range (n + 1))) (h : Linked order n next prev)
    (h0 : order[0]? = some 0) (ha : order[n]? = some a) (hend : next[a]? = some (n + 1)) :
    Chain (n + 1) next prev := by
  have hlen : order.length = n + 1 := by rw [horder.length_eq, List.length_range]
  have hwalk : ∀ t < n + 1, walk next t = order[t]? := fun t ht =>
    h.walk_eq h0 (Nat.le_of_lt_succ ht) (by omega)
  refine ⟨?_, ?_, ?_⟩
  · have hmap : (List.range (n + 1)).map (walk next) = order.map some := by
      apply List.ext_getElem?
      intro t
      rw [List.getElem?_map, List.getElem?_map]
      by_cases ht : t < n + 1
      · rw [List.getElem?_range ht, Option.map_some, hwalk t ht,
          List.getElem?_eq_getElem (by omega), Option.map_some]
      · rw [List.getElem?_eq_none (by rw [List.length_range]; omega),
          List.getElem?_eq_none (by omega)]
        rfl
    rw [hmap]
    exact horder.map some
  · rw [walk, hwalk n (by omega), ha]
    exact hend
  · intro i j hi hij hj
    obtain ⟨t, ht, rfl⟩ := List.getElem_of_mem (horder.mem_iff.mpr (List.mem_range.mpr hi))
    have hti : order[t]? = some order[t] := List.getElem?_eq_getElem ht
    by_cases htn : t < n
    · have hb : order[t + 1]? = some order[t + 1] := List.getElem?_eq_getElem (by omega)
      obtain rfl := Option.some.inj (hij.symm.trans (h.forward htn hti hb))
      exact h.backward htn hti hb
    · obtain rfl : t = n := by omega
      rw [hti] at ha
      rw [Option.some.inj ha, hend] at hij
      exact absurd (Option.some.inj hij).symm hj

end LinkedList
