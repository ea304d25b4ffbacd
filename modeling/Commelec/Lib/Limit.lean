/-
Commelec/Lib/Limit.lean

Getting rid of fuel.  A function with a fuel argument gives one outcome per
fuel, a `Chain`.  If more fuel never changes an outcome (`Chain.Mono`), the
chain has a `limit`: the outcome it settles on, or `outOfFuel` when it never
settles, that is, when the recursion does not end.

Chains are themselves a monad with effects, so a function written against
`Effects` runs on chains.  Two relations tie that run to ordinary outcomes:

* `atFuel n` — a chain and its outcome at fuel `n`;
* `settles` — a monotone chain and its limit.

Together they turn the recursion equation of a fuelled function into the same
equation for the limit, without fuel.
-/
import Mathlib.Order.Lattice
import Mathlib.Order.Nat
import Mathlib.Order.MinMax
import Commelec.Lib.Effects

namespace Effectful

open Outcome

variable {ε α β : Type}

/-! ### Definedness order -/

/-- `x` is `y`, or was cut off. -/
def Outcome.Le (x y : Outcome ε α) : Prop := x = outOfFuel ∨ x = y

theorem Outcome.Le.refl (x : Outcome ε α) : x.Le x := Or.inr rfl

theorem Outcome.Le.bot (x : Outcome ε α) : (outOfFuel : Outcome ε α).Le x := Or.inl rfl

theorem Outcome.Le.trans {x y z : Outcome ε α} (h : x.Le y) (h' : y.Le z) : x.Le z := by
  rcases h with rfl | rfl
  · exact .bot z
  · exact h'

theorem Outcome.Le.eq {x y : Outcome ε α} (h : x.Le y) (hx : x ≠ outOfFuel) : x = y :=
  h.resolve_left hx

/-- The order is respected by every effectful function. -/
def defined : EffectRel ε (Outcome ε) (Outcome ε) where
  rel x y := x.Le y
  rel_pure a := .refl (ok a)
  rel_raise e := .refl (.throw e)
  rel_bind := by
    intro α β x y f g hx hf
    rcases hx with rfl | rfl
    · exact .bot _
    · cases x with
      | ok a => exact hf a
      | throw e => exact .refl _
      | outOfFuel => exact .refl _

/-- The same for runs: from every state, the first run is the second or was cut off. -/
def definedRun {σ : Type} : EffectRel ε (Run σ ε) (Run σ ε) where
  rel x y := ∀ s, (x s).1 = outOfFuel ∨ x s = y s
  rel_pure _ _ := Or.inr rfl
  rel_raise _ _ := Or.inr rfl
  rel_bind := by
    intro α β x y f g hx hf s
    rcases hxs : x s with ⟨o, s'⟩
    cases o with
    | ok a =>
      have hys : y s = (ok a, s') := by simpa [hxs, eq_comm] using hx s
      rw [Run.bind_ok hxs, Run.bind_ok hys]
      exact hf a s'
    | throw e =>
      have hys : y s = (.throw e, s') := by simpa [hxs, eq_comm] using hx s
      rw [Run.bind_throw hxs, Run.bind_throw hys]
      exact Or.inr rfl
    | outOfFuel =>
      rw [Run.bind_outOfFuel hxs]
      exact Or.inl rfl

/-! ### Chains -/

/-- One outcome per fuel. -/
def Chain (ε α : Type) : Type := ℕ → Outcome ε α

namespace Chain

instance : Effects ε (Chain ε) where
  pure a := fun _ => ok a
  bind c f := fun n => c n >>= fun a => f a n
  raise e := fun _ => .throw e
  stop := fun _ => outOfFuel

theorem bind_apply (c : Chain ε α) (f : α → Chain ε β) (n : ℕ) :
    (c >>= f) n = c n >>= fun a => f a n := rfl

/-- The chain that gives `x` whatever the fuel. -/
def const (x : Outcome ε α) : Chain ε α := fun _ => x

/-- More fuel does not change an outcome. -/
def Mono (c : Chain ε α) : Prop := ∀ n k, n ≤ k → (c n).Le (c k)

/-- A chain is monotone if one more unit of fuel never changes an outcome. -/
theorem mono_of_succ {c : Chain ε α} (h : ∀ n, (c n).Le (c (n + 1))) : Mono c := by
  intro n k hnk
  induction hnk with
  | refl => exact .refl _
  | step _ ih => exact ih.trans (h _)

theorem mono_const (x : Outcome ε α) : (const x).Mono := fun _ _ _ => .refl x

open Classical in
/-- The outcome a chain settles on. -/
noncomputable def limit (c : Chain ε α) : Outcome ε α :=
  if h : ∃ n, c n ≠ outOfFuel then c h.choose else outOfFuel

theorem limit_eq {c : Chain ε α} (hc : c.Mono) {n : ℕ} (h : c n ≠ outOfFuel) :
    c.limit = c n := by
  have hex : ∃ n, c n ≠ outOfFuel := ⟨n, h⟩
  rw [limit, dif_pos hex]
  rcases Nat.le_total hex.choose n with hle | hle
  · exact (hc _ _ hle).eq hex.choose_spec
  · exact ((hc _ _ hle).eq h).symm

theorem limit_eq_outOfFuel_iff {c : Chain ε α} :
    c.limit = outOfFuel ↔ ∀ n, c n = outOfFuel := by
  constructor
  · intro h n
    by_contra hn
    have hex : ∃ n, c n ≠ outOfFuel := ⟨n, hn⟩
    rw [limit, dif_pos hex] at h
    exact hex.choose_spec h
  · intro h
    rw [limit, dif_neg (by simpa using h)]

/-- Every outcome short of the cut-off is the limit. -/
theorem le_limit {c : Chain ε α} (hc : c.Mono) (n : ℕ) : (c n).Le c.limit := by
  by_cases h : c n = outOfFuel
  · exact Or.inl h
  · exact Or.inr (limit_eq hc h).symm

/-- A limit other than the cut-off is reached. -/
theorem exists_eq_limit {c : Chain ε α} (h : c.limit ≠ outOfFuel) :
    ∃ n, c n = c.limit := by
  by_cases hex : ∃ n, c n ≠ outOfFuel
  · exact ⟨hex.choose, by rw [limit, dif_pos hex]⟩
  · exact absurd (limit_eq_outOfFuel_iff.mpr (by simpa using hex)) h

/-- From some fuel on, the outcome is the limit. -/
theorem exists_forall_eq {c : Chain ε α} (hc : c.Mono) {a : α} (h : c.limit = ok a) :
    ∃ n, ∀ k, n ≤ k → c k = ok a := by
  obtain ⟨n, hn⟩ := exists_eq_limit (c := c) (by rw [h]; simp)
  rw [h] at hn
  refine ⟨n, fun k hk => ?_⟩
  rw [← (hc n k hk).eq (by rw [hn]; simp), hn]

/-- The limit does not see the first outcome. -/
theorem limit_succ {c : Chain ε α} (hc : c.Mono) :
    limit (fun n => c (n + 1)) = c.limit := by
  by_cases h : c.limit = outOfFuel
  · rw [h]
    have hall := limit_eq_outOfFuel_iff.mp h
    exact limit_eq_outOfFuel_iff.mpr fun n => hall (n + 1)
  · obtain ⟨n, hn⟩ := exists_eq_limit h
    have hn1 : c n = c (n + 1) := (hc n (n + 1) (by omega)).eq (hn ▸ h)
    have hmono : Mono (fun n => c (n + 1)) := fun i j hij => hc _ _ (by omega)
    have hne : c (n + 1) ≠ outOfFuel := by rw [← hn1, hn]; exact h
    rw [limit_eq hmono hne, ← hn1, hn]

theorem limit_const (x : Outcome ε α) : (const x).limit = x := by
  by_cases h : x = outOfFuel
  · rw [h]
    exact limit_eq_outOfFuel_iff.mpr fun _ => rfl
  · exact limit_eq (mono_const x) (n := 0) h

end Chain

open Chain

/-! ### Chains against outcomes -/

/-- A chain and its outcome at fuel `n`. -/
def atFuel (n : ℕ) : EffectRel ε (Chain ε) (Outcome ε) where
  rel c y := c n = y
  rel_pure _ := rfl
  rel_raise _ := rfl
  rel_bind := by
    intro α β x y f g hx hf
    rw [Chain.bind_apply, hx]
    exact congrArg (y >>= ·) (funext hf)

/-- A monotone chain and its limit. -/
def settles : EffectRel ε (Chain ε) (Outcome ε) where
  rel c y := c.Mono ∧ c.limit = y
  rel_pure a := ⟨mono_const (ok a), limit_const (ok a)⟩
  rel_raise e := ⟨mono_const (.throw e), limit_const (.throw e)⟩
  rel_bind := by
    intro α β x y f g hx hf
    obtain ⟨hmono, rfl⟩ := hx
    have hbind : Mono (x >>= f) := fun n k hnk =>
      defined.rel_bind (hmono n k hnk) fun a => (hf a).1 n k hnk
    refine ⟨hbind, ?_⟩
    by_cases h : x.limit = outOfFuel
    · -- the first part never settles, so neither does the sequence
      have hall := limit_eq_outOfFuel_iff.mp h
      rw [h]
      exact limit_eq_outOfFuel_iff.mpr fun n => by rw [Chain.bind_apply, hall n]; rfl
    · obtain ⟨n, hn⟩ := exists_eq_limit h
      have hx : ∀ k, n ≤ k → x k = x.limit := fun k hk =>
        ((hmono n k hk).eq (hn ▸ h)).symm.trans hn
      cases hlim : x.limit with
      | outOfFuel => exact absurd hlim h
      | throw e =>
        have hne : (x >>= f) n ≠ outOfFuel := by
          rw [Chain.bind_apply, hn, hlim]; simp
        rw [limit_eq hbind hne, Chain.bind_apply, hn, hlim]
        rfl
      | ok a =>
        -- from fuel `n` on, the sequence is the second part's chain
        have htail : ∀ k, n ≤ k → (x >>= f) k = f a k := fun k hk => by
          rw [Chain.bind_apply, hx k hk, hlim]; rfl
        rw [ok_bind, ← (hf a).2]
        by_cases hfa : (f a).limit = outOfFuel
        · rw [hfa]
          refine limit_eq_outOfFuel_iff.mpr fun k => ?_
          have hk := hbind k (max n k) (le_max_right n k)
          rw [htail _ (le_max_left n k), limit_eq_outOfFuel_iff.mp hfa] at hk
          rcases hk with hk | hk <;> exact hk
        · obtain ⟨k, hk⟩ := exists_eq_limit hfa
          have hmax : f a (max n k) = (f a).limit :=
            (((hf a).1 k _ (le_max_right n k)).eq (hk ▸ hfa)).symm.trans hk
          have hne : (x >>= f) (max n k) ≠ outOfFuel := by
            rw [htail _ (le_max_left n k), hmax]; exact hfa
          rw [limit_eq hbind hne, htail _ (le_max_left n k), hmax]

end Effectful
