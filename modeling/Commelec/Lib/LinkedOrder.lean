/-
Commelec/Lib/LinkedOrder.lean

The order of a doubly linked list in two arrays, and what becomes of it when a cell is moved.
The library names nothing of the program it is used for.

* `Lists m order next prev` — following `next` from the first cell of `order` gives the cells
  of `order`, and then the end `m`; `prev` leads back;
* `Chain.lists`, `Lists.chain` — a chain of all cells lists them in some order, and conversely;
* `Lists.toFront` — the assignments that take a cell out and put it behind the first cell do
  this to the order, and to nothing else.
-/
import Mathlib.Data.List.Perm.Basic
import Mathlib.Data.List.Range
import Commelec.Lib.LinkedList

namespace LinkedList

variable {order next prev l u v w : List ℕ} {m i a b f p q z : ℕ}

/-- The links of `l` are in `next`. -/
abbrev Forward (next l : List ℕ) : Prop := l.IsChain fun a b => next[a]? = some b

/-- The links of `l` are in `prev`. -/
abbrev Backward (prev l : List ℕ) : Prop := l.IsChain fun a b => prev[b]? = some a

/-- Only the last cell of `l` may have a new successor. -/
theorem Forward.set (h : Forward next l) (hi : i ∉ l.dropLast) : Forward (next.set i a) l := by
  induction l with
  | nil => exact .nil
  | cons b l ih =>
    cases l with
    | nil => exact .singleton _
    | cons c l =>
      rw [List.dropLast_cons_cons, List.mem_cons, not_or] at hi
      rw [Forward, List.isChain_cons_cons] at h ⊢
      exact ⟨by rw [List.getElem?_set_ne hi.1]; exact h.1, ih h.2 hi.2⟩

/-- Only the first cell of `l` may have a new predecessor. -/
theorem Backward.set (h : Backward prev l) (hi : i ∉ l.tail) : Backward (prev.set i a) l := by
  refine List.IsChain.imp_of_mem_tail_imp (fun b c _ hc hbc => ?_) h
  rw [List.getElem?_set_ne (fun hic : i = c => hi (hic.symm ▸ hc))]
  exact hbc

/-! ### Taking a cell out and putting it in -/

/-- The cell before `i` gets the successor of `i`. -/
theorem Forward.bypass (h : Forward next (u ++ i :: v)) (hnd : (u ++ i :: v).Nodup)
    (hp : u.getLast? = some p) (hq : v.head? = some q) (hlen : p < next.length) :
    Forward (next.set p q) (u ++ v) := by
  obtain ⟨u', rfl⟩ : ∃ u', u = u' ++ [p] :=
    ⟨u.dropLast, (List.dropLast_append_getLast? p hp).symm⟩
  obtain ⟨hndu, hndv, hdisj⟩ := List.nodup_append.mp hnd
  refine List.isChain_append.mpr ⟨?_, ?_, fun a ha b hb => ?_⟩
  · refine Forward.set h.left_of_append ?_
    rw [List.dropLast_concat]
    exact fun hp' => (List.nodup_append.mp hndu).2.2 p hp' p (List.mem_singleton_self p) rfl
  · refine Forward.set h.right_of_append.tail fun hp' => ?_
    exact hdisj p (by simp) p (List.mem_cons_of_mem _ (List.dropLast_subset _ hp')) rfl
  · obtain rfl : p = a := Option.some.inj (hp.symm.trans ha)
    obtain rfl : q = b := Option.some.inj (hq.symm.trans hb)
    exact List.getElem?_set_self hlen

/-- The cell behind `i`, if there is one, gets the predecessor of `i`. -/
theorem Backward.bypass (h : Backward prev (u ++ i :: v)) (hnd : (u ++ i :: v).Nodup)
    (hp : u.getLast? = some p) (hlen : ∀ q ∈ v.head?, q < prev.length) :
    Backward (v.head?.elim prev fun q => prev.set q p) (u ++ v) := by
  cases v with
  | nil => exact List.isChain_append.mpr ⟨h.left_of_append, .nil, fun _ _ _ hb => nomatch hb⟩
  | cons q v =>
    obtain ⟨hndu, hndv, hdisj⟩ := List.nodup_append.mp hnd
    refine List.isChain_append.mpr ⟨?_, ?_, fun a ha b hb => ?_⟩
    · refine Backward.set h.left_of_append fun hq => ?_
      exact hdisj q (List.mem_of_mem_tail hq) q (by simp) rfl
    · refine Backward.set h.right_of_append.tail fun hq => ?_
      exact (List.nodup_cons.mp (List.nodup_cons.mp hndv).2).1 hq
    · obtain rfl : p = a := Option.some.inj (hp.symm.trans ha)
      obtain rfl : q = b := Option.some.inj hb
      exact List.getElem?_set_self (hlen q rfl)

/-- A new cell between `z` and the cell `f` behind it. -/
theorem Forward.insert (h : Forward next (z :: l)) (hnd : (z :: i :: l).Nodup)
    (hf : l.head? = some f) (hz : z < next.length) (hi : i < next.length) :
    Forward ((next.set i f).set z i) (z :: i :: l) := by
  obtain ⟨hzl, hndl⟩ := List.nodup_cons.mp hnd
  rw [List.mem_cons, not_or] at hzl
  rw [Forward, List.isChain_cons_cons, List.isChain_cons]
  refine ⟨?_, fun b hb => ?_, ?_⟩
  · exact List.getElem?_set_self (by rwa [List.length_set])
  · obtain rfl : f = b := Option.some.inj (hf.symm.trans hb)
    rw [List.getElem?_set_ne hzl.1, List.getElem?_set_self hi]
  · refine (Forward.set h.tail fun hi' => ?_).set fun hz' => ?_
    · exact (List.nodup_cons.mp hndl).1 (List.dropLast_subset _ hi')
    · exact hzl.2 (List.dropLast_subset _ hz')

theorem Backward.insert (h : Backward prev (z :: l)) (hnd : (z :: i :: l).Nodup)
    (hf : l.head? = some f) (hi : i < prev.length) (hfl : f < prev.length) :
    Backward ((prev.set i z).set f i) (z :: i :: l) := by
  obtain ⟨hzl, hndl⟩ := List.nodup_cons.mp hnd
  obtain ⟨hil, hndl⟩ := List.nodup_cons.mp hndl
  have hfi : f ≠ i := fun hfi => hil (hfi ▸ List.mem_of_head? hf)
  rw [Backward, List.isChain_cons_cons, List.isChain_cons]
  refine ⟨?_, fun b hb => ?_, ?_⟩
  · rw [List.getElem?_set_ne hfi, List.getElem?_set_self hi]
  · obtain rfl : f = b := Option.some.inj (hf.symm.trans hb)
    exact List.getElem?_set_self (by rwa [List.length_set])
  · refine (Backward.set h.tail fun hi' => ?_).set fun hf' => ?_
    · exact hil (List.mem_of_mem_tail hi')
    · cases l with
      | nil => cases hf
      | cons c l =>
        obtain rfl : c = f := Option.some.inj hf
        exact (List.nodup_cons.mp hndl).1 hf'

/-! ### All cells -/

/-- The arrays link the cells `0, ..., m - 1` in this order. -/
structure Lists (m : ℕ) (order next prev : List ℕ) : Prop where
  perm : order.Perm (List.range m)
  head : order.head? = some 0
  forward : Forward next (order ++ [m])
  backward : Backward prev order

namespace Lists

theorem nodup (h : Lists m order next prev) : order.Nodup :=
  h.perm.nodup_iff.mpr List.nodup_range

theorem lt (h : Lists m order next prev) (hi : i ∈ order) : i < m :=
  List.mem_range.mp (h.perm.mem_iff.mp hi)

/-- The end is none of the cells. -/
theorem nodup_end (h : Lists m order next prev) {l : List ℕ} (hl : l.Perm order) :
    (l ++ [m]).Nodup := by
  refine List.nodup_append.mpr ⟨hl.nodup_iff.mpr h.nodup, List.nodup_singleton m, ?_⟩
  intro a ha b hb hab
  rw [List.mem_singleton.mp hb] at hab
  exact lt_irrefl m (h.lt (hab ▸ hl.mem_iff.mp ha))

/-- The successor of a cell is the next one of the order, or the end. -/
theorem next_eq (h : Lists m (u ++ i :: v) next prev) : next[i]? = (v ++ [m]).head? := by
  have hsplit := h.forward
  rw [List.append_assoc, List.cons_append, Forward, List.isChain_split] at hsplit
  have hlink := hsplit.2
  cases v with
  | nil => exact (List.isChain_cons_cons.mp hlink).1
  | cons b v => exact (List.isChain_cons_cons.mp hlink).1

/-- The predecessor of a cell is the one before it. -/
theorem prev_eq (h : Lists m (u ++ i :: v) next prev) (hu : u.getLast? = some a) :
    prev[i]? = some a := by
  have hback := h.backward
  rw [Backward, List.isChain_append] at hback
  exact hback.2.2 a hu i rfl

theorem next_lt (h : Lists m (u ++ i :: v) next prev) : i < next.length := by
  have hnext := h.next_eq
  by_contra hi
  rw [List.getElem?_eq_none (not_lt.mp hi)] at hnext
  cases v with
  | nil => cases hnext
  | cons b v => cases hnext

theorem prev_lt (h : Lists m (u ++ i :: v) next prev) (hu : u ≠ []) : i < prev.length :=
  (List.getElem?_eq_some_iff.mp (h.prev_eq (List.getLast?_eq_some_getLast hu))).1

/-- **A cell is put behind the first one.**  `p` and `q` are its neighbours, `f` is the cell
that was in second place. -/
theorem toFront (h : Lists m (z :: (w ++ i :: v)) next prev) (hf : w.head? = some f)
    (hp : w.getLast? = some p) (hq : (v ++ [m]).head? = some q) :
    Lists m (z :: i :: (w ++ v)) (((next.set p q).set i f).set z i)
      (((v.head?.elim prev fun q => prev.set q p).set i z).set f i) := by
  have hperm : (z :: i :: (w ++ v)).Perm (z :: (w ++ i :: v)) := List.perm_middle.symm.cons z
  have hlast : (z :: w).getLast? = some p := by
    rw [List.getLast?_cons, hp, Option.getD_some]
  obtain ⟨w', hw⟩ : ∃ w', w = w' ++ [p] :=
    ⟨w.dropLast, (List.dropLast_append_getLast? p hp).symm⟩
  have hz : z < next.length := Lists.next_lt (u := []) h
  have hp' : p < next.length := by
    have h' : Lists m ((z :: w') ++ p :: i :: v) next prev := by rwa [hw, List.append_assoc] at h
    exact h'.next_lt
  have hi : i < next.length := Lists.next_lt (u := z :: w) h
  have hi' : i < prev.length := Lists.prev_lt (u := z :: w) h (List.cons_ne_nil _ _)
  have hf' : f < prev.length := by
    obtain ⟨w', rfl⟩ : ∃ w', w = f :: w' := ⟨w.tail, (List.cons_head?_tail hf).symm⟩
    exact Lists.prev_lt (u := [z]) (v := w' ++ i :: v) h (List.cons_ne_nil _ _)
  refine ⟨hperm.trans h.perm, h.head, ?_, ?_⟩
  · have hforward : Forward next ((z :: w) ++ i :: (v ++ [m])) := by
      have hforward := h.forward
      rwa [← List.cons_append, List.append_assoc] at hforward
    have hnd : ((z :: w) ++ i :: (v ++ [m])).Nodup := by
      have hnd := h.nodup_end (List.Perm.refl _)
      rwa [← List.cons_append, List.append_assoc] at hnd
    have hnd' : (z :: i :: (w ++ (v ++ [m]))).Nodup := by
      have hnd' := h.nodup_end hperm
      rwa [List.cons_append, List.cons_append, List.append_assoc] at hnd'
    have hfirst : (w ++ (v ++ [m])).head? = some f := by
      rw [List.head?_append, hf, Option.some_or]
    -- `i` is taken out of its place, and then put in behind `z`
    have hbypass : Forward (next.set p q) (z :: (w ++ (v ++ [m]))) :=
      hforward.bypass hnd hlast hq hp'
    rw [List.cons_append, List.cons_append, List.append_assoc]
    exact hbypass.insert hnd' hfirst (by rwa [List.length_set]) (by rwa [List.length_set])
  · have hq' : ∀ q ∈ v.head?, q < prev.length := by
      intro q hq
      obtain ⟨v', rfl⟩ : ∃ v', v = q :: v' := ⟨v.tail, (List.cons_head?_tail hq).symm⟩
      have h' : Lists m ((z :: w ++ [i]) ++ q :: v') next prev := by rwa [List.append_assoc]
      exact h'.prev_lt (by simp)
    have hfirst : (w ++ v).head? = some f := by
      rw [List.head?_append, hf, Option.some_or]
    have hlen : (v.head?.elim prev fun q => prev.set q p).length = prev.length := by
      cases v with
      | nil => rfl
      | cons q v => exact List.length_set
    -- the entry of the end mark is not written
    have hback : Backward (v.head?.elim prev fun q => prev.set q p) ((z :: w) ++ v) :=
      Backward.bypass h.backward h.nodup hlast hq'
    exact hback.insert (hperm.nodup_iff.mpr h.nodup) hfirst (by rwa [hlen]) (by rwa [hlen])

end Lists

/-- **A chain lists the cells in the order of the walk.** -/
theorem Chain.lists (h : Chain m next prev) (hm : 0 < m) : ∃ order, Lists m order next prev := by
  let cell (t : ℕ) : ℕ := (walk next t).getD 0
  have hcell : ∀ t < m, walk next t = some (cell t) := by
    intro t ht
    have hmem : walk next t ∈ (List.range m).map some :=
      h.visits.mem_iff.mp (List.mem_map_of_mem (List.mem_range.mpr ht))
    obtain ⟨a, -, ha⟩ := List.mem_map.mp hmem
    show walk next t = some ((walk next t).getD 0)
    rw [← ha, Option.getD_some]
  have hend : walk next m = some (cell m) := by
    show walk next m = some ((walk next m).getD 0)
    rw [h.ends, Option.getD_some]
  have hlt : ∀ t < m, cell t < m := by
    intro t ht
    have hmem : some (cell t) ∈ (List.range m).map some := by
      rw [← hcell t ht]
      exact h.visits.mem_iff.mp (List.mem_map_of_mem (List.mem_range.mpr ht))
    obtain ⟨a, ha, hat⟩ := List.mem_map.mp hmem
    exact Option.some.inj hat ▸ List.mem_range.mp ha
  have hnext : ∀ t < m, next[cell t]? = some (cell (t + 1)) := by
    intro t ht
    have hstep : walk next (t + 1) = next[cell t]? := by rw [walk, hcell t ht, Option.bind_some]
    rw [← hstep]
    rcases Nat.lt_or_eq_of_le (Nat.succ_le_of_lt ht) with hlt | heq
    · exact hcell (t + 1) hlt
    · rw [show t + 1 = m from heq, hend]
  obtain ⟨n, rfl⟩ : ∃ n, m = n + 1 := ⟨m - 1, by omega⟩
  -- the order is that in which the walk comes to the cells
  refine ⟨(List.range (n + 1)).map cell, ?_, ?_, ?_, ?_⟩
  · rw [← List.map_perm_map_iff fun a b : ℕ => Option.some.inj, List.map_map]
    refine (List.Perm.of_eq (List.map_congr_left fun t ht => ?_)).trans h.visits
    exact (hcell t (List.mem_range.mp ht)).symm
  · rw [List.range_succ_eq_map]
    rfl
  · have hcells : (List.range (n + 1)).map cell ++ [n + 1] = (List.range (n + 2)).map cell := by
      have hlast : cell (n + 1) = n + 1 := Option.some.inj (hend.symm.trans h.ends)
      rw [List.range_succ (n := n + 1), List.map_append, List.map_singleton, hlast]
    rw [hcells, Forward, List.isChain_map, List.isChain_range_succ]
    exact hnext
  · rw [Backward, List.isChain_map, List.isChain_range_succ]
    intro t ht
    exact h.backward (hlt t (by omega)) (hnext t (by omega)) (Nat.ne_of_lt (hlt (t + 1) (by omega)))

/-- The links of `l`, one by one. -/
theorem Forward.getElem? (h : Forward next l) {t : ℕ} (ha : l[t]? = some a)
    (hb : l[t + 1]? = some b) : next[a]? = some b := by
  obtain ⟨ht, rfl⟩ := List.getElem?_eq_some_iff.mp ha
  obtain ⟨ht', rfl⟩ := List.getElem?_eq_some_iff.mp hb
  exact List.isChain_iff_getElem.mp h t ht'

theorem Backward.getElem? (h : Backward prev l) {t : ℕ} (ha : l[t]? = some a)
    (hb : l[t + 1]? = some b) : prev[b]? = some a := by
  obtain ⟨ht, rfl⟩ := List.getElem?_eq_some_iff.mp ha
  obtain ⟨ht', rfl⟩ := List.getElem?_eq_some_iff.mp hb
  exact List.isChain_iff_getElem.mp h t ht'

/-- Conversely, the cells of an order make a chain. -/
theorem Lists.chain (h : Lists m order next prev) : Chain m next prev := by
  obtain ⟨rest, a, rfl⟩ : ∃ rest a, order = rest ++ [a] := by
    rcases List.eq_nil_or_concat order with rfl | ⟨rest, a, rfl⟩
    · exact absurd h.head (by simp)
    · exact ⟨rest, a, List.concat_eq_append⟩
  obtain rfl : m = rest.length + 1 := by
    have hlen := h.perm.length_eq
    rw [List.length_range, List.length_append, List.length_singleton] at hlen
    exact hlen.symm
  refine Linked.chain h.perm ⟨fun {t _ _} _ ha hb => ?_, fun _ ha hb => h.backward.getElem? ha hb⟩
    ?_ List.getElem?_concat_length h.next_eq
  · refine h.forward.getElem? (t := t) ?_ ?_
    · rw [List.getElem?_append_left (List.getElem?_eq_some_iff.mp ha).1, ha]
    · rw [List.getElem?_append_left (List.getElem?_eq_some_iff.mp hb).1, hb]
  · rw [← List.head?_eq_getElem?]
    exact h.head

end LinkedList
