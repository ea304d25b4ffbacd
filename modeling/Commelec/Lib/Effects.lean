/-
Commelec/Lib/Effects.lean

Computations that may return, throw, or run out of fuel.  The library names
nothing of the program it is used for.

* `Outcome ε α` — what is left of a computation: a value, an exception, or
  `outOfFuel` (the recursion was cut off before it ended);
* `Run σ ε α` — a computation over a mutable state `σ`.  The state survives an
  exception and a cut-off, as the fields of a C++ object do;
* `Effects ε m` — the interface both share, so that a function is written once
  and run in either.

`EffectRel m m'` is a relation between computations of two such monads that is
closed under the operations a function can be built from.  A function written
against `Effects` maps related arguments to related results; proving that once
per function gives fuel monotonicity, state invariants and the comparison of a
guarded with an unguarded run by instantiating the relation.
-/
import Mathlib.Data.List.Forall2

namespace Effectful

/-- What is left of a computation. -/
inductive Outcome (ε α : Type) where
  | ok (a : α)
  | throw (e : ε)
  | outOfFuel
  deriving DecidableEq, Repr

/-- A computation over a state that survives exceptions. -/
def Run (σ ε α : Type) : Type := σ → Outcome ε α × σ

/-- A monad whose computations may throw or be cut off. -/
class Effects (ε : outParam Type) (m : Type → Type) extends Monad m where
  raise {α : Type} : ε → m α
  stop {α : Type} : m α

export Effects (raise stop)

variable {σ σ' ε α β : Type}

/-! ### Outcomes -/

namespace Outcome

/-- Continue with the value, if there is one. -/
protected def bind : Outcome ε α → (α → Outcome ε β) → Outcome ε β
  | ok a, f => f a
  | throw e, _ => throw e
  | outOfFuel, _ => outOfFuel

instance : Effects ε (Outcome ε) where
  pure := ok
  bind := Outcome.bind
  raise := throw
  stop := outOfFuel

@[simp] theorem pure_eq (a : α) : (pure a : Outcome ε α) = ok a := rfl
@[simp] theorem raise_eq (e : ε) : (raise e : Outcome ε α) = throw e := rfl
@[simp] theorem stop_eq : (stop : Outcome ε α) = outOfFuel := rfl

@[simp] theorem ok_bind (a : α) (f : α → Outcome ε β) : (ok a >>= f) = f a := rfl
@[simp] theorem throw_bind (e : ε) (f : α → Outcome ε β) :
    (throw e >>= f) = throw e := rfl
@[simp] theorem outOfFuel_bind (f : α → Outcome ε β) :
    (outOfFuel >>= f) = outOfFuel := rfl

theorem bind_assoc {γ : Type} (x : Outcome ε α) (f : α → Outcome ε β) (g : β → Outcome ε γ) :
    ((x >>= f) >>= g) = x >>= fun a => f a >>= g := by
  cases x <;> rfl

/-- A sequence returns exactly when both parts do. -/
theorem bind_eq_ok {x : Outcome ε α} {f : α → Outcome ε β} {b : β} :
    (x >>= f) = ok b ↔ ∃ a, x = ok a ∧ f a = ok b := by
  cases x <;> simp

/-- A sequence throws when one of the parts does. -/
theorem bind_eq_throw {x : Outcome ε α} {f : α → Outcome ε β} {e : ε} :
    (x >>= f) = throw e ↔ x = throw e ∨ ∃ a, x = ok a ∧ f a = throw e := by
  cases x <;> simp

/-- Replay an outcome in any monad with the same effects. -/
def lift {m : Type → Type} [Effects ε m] : Outcome ε α → m α
  | ok a => pure a
  | throw e => raise e
  | outOfFuel => stop

@[simp] theorem lift_self (x : Outcome ε α) : (x.lift : Outcome ε α) = x := by
  cases x <;> rfl

/-! ### Loops -/

theorem foldlM_concat (f : β → α → Outcome ε β) (b : β) (l : List α) (a : α) :
    (l ++ [a]).foldlM f b = l.foldlM f b >>= (f · a) := by
  induction l generalizing b with
  | nil =>
    rw [List.nil_append, List.foldlM_cons, List.foldlM_nil, pure_eq, ok_bind]
    cases f b a <;> rfl
  | cons c l ih =>
    rw [List.cons_append, List.foldlM_cons, List.foldlM_cons, bind_assoc]
    exact congrArg _ (funext ih)

/-- A loop over the numbers below `n` ends, and keeps what each of its turns keeps. -/
theorem foldlM_range_ok {f : β → ℕ → Outcome ε β} {n : ℕ} (P : ℕ → β → Prop)
    (step : ∀ i < n, ∀ b, P i b → ∃ b', f b i = ok b' ∧ P (i + 1) b') {b : β} (h : P 0 b) :
    ∃ b', (List.range n).foldlM f b = ok b' ∧ P n b' := by
  induction n with
  | zero => exact ⟨b, rfl, h⟩
  | succ n ih =>
    obtain ⟨b', hb', hP⟩ := ih fun i hi => step i (Nat.lt_succ_of_lt hi)
    obtain ⟨b'', hb'', hP'⟩ := step n n.lt_succ_self b' hP
    refine ⟨b'', ?_, hP'⟩
    rw [List.range_succ, foldlM_concat, hb', ok_bind, hb'']

end Outcome

open Outcome

/-- The computation does not throw `e`. -/
def Outcome.Spares (e : ε) (x : Outcome ε α) : Prop := x ≠ throw e

namespace Outcome.Spares

variable {e e' : ε} {x y : Outcome ε α}

theorem pure (a : α) : Spares e (Pure.pure a : Outcome ε α) := by
  rw [Spares, pure_eq]
  simp

theorem raise (h : e ≠ e') : Spares e (Effects.raise e' : Outcome ε α) := by
  rw [Spares, raise_eq]
  simpa using h.symm

theorem stop : Spares e (Effects.stop : Outcome ε α) := by
  rw [Spares, stop_eq]
  simp

theorem bind {f : α → Outcome ε β} (hx : Spares e x) (hf : ∀ a, Spares e (f a)) :
    Spares e (x >>= f) := by
  cases x with
  | ok a => exact hf a
  | throw e' =>
    intro h
    apply hx
    simpa using h
  | outOfFuel => exact stop

/-- A sequence whose first part does not throw `e`. -/
theorem bind_eq_throw {f : α → Outcome ε β} (hx : Spares e x) :
    (x >>= f) = throw e ↔ ∃ a, x = ok a ∧ f a = throw e := by
  rw [Outcome.bind_eq_throw, or_iff_right hx]

/-- A sequence whose second part throws `e` whatever the first one returns, or never. -/
theorem bind_eq_throw_iff {f : α → Outcome ε β} {q : Prop} (hx : Spares e x)
    (hf : ∀ a, x = ok a → (f a = throw e ↔ q)) :
    (x >>= f) = throw e ↔ (∃ a, x = ok a) ∧ q := by
  rw [hx.bind_eq_throw]
  constructor
  · rintro ⟨a, ha, h⟩
    exact ⟨⟨a, ha⟩, (hf a ha).mp h⟩
  · rintro ⟨⟨a, ha⟩, hq⟩
    exact ⟨a, ha, (hf a ha).mpr hq⟩

/-- Applying a function to the result. -/
theorem map (hx : Spares e x) (f : α → β) : Spares e (do let a ← x; Pure.pure (f a)) :=
  hx.bind fun a => pure (f a)

theorem ite {p : Prop} [Decidable p] (hx : Spares e x) (hy : Spares e y) :
    Spares e (if p then x else y) := by
  split
  · exact hx
  · exact hy

end Outcome.Spares

/-- The computation does not throw `e`, and what it returns is in `p`. -/
def Outcome.Ensures (e : ε) (p : α → Prop) (x : Outcome ε α) : Prop :=
  Spares e x ∧ ∀ a, x = ok a → p a

namespace Outcome.Ensures

variable {e : ε} {p : α → Prop} {q : β → Prop} {x : Outcome ε α}

theorem pure {a : α} (h : p a) : Ensures e p (Pure.pure a : Outcome ε α) := by
  refine ⟨.pure a, fun b hb => ?_⟩
  obtain rfl := Outcome.ok.inj hb
  exact h

theorem bind {f : α → Outcome ε β} (hx : Ensures e p x) (hf : ∀ a, p a → Ensures e q (f a)) :
    Ensures e q (x >>= f) := by
  cases x with
  | ok a => exact hf a (hx.2 a rfl)
  | throw e' => exact ⟨fun h => hx.1 (congrArg throw (Outcome.throw.inj h)), by simp⟩
  | outOfFuel => exact ⟨.stop, by simp⟩

theorem ite {c : Prop} [Decidable c] {y : Outcome ε α} (hx : Ensures e p x)
    (hy : Ensures e p y) : Ensures e p (if c then x else y) := by
  split
  · exact hx
  · exact hy

end Outcome.Ensures

/-- What the computation returns, if it returns, is in `p`. -/
def Outcome.OnlyYields (p : α → Prop) (x : Outcome ε α) : Prop := ∀ a, x = ok a → p a

namespace Outcome.OnlyYields

variable {p : α → Prop} {x : Outcome ε α}

theorem pure {a : α} (h : p a) : OnlyYields p (Pure.pure a : Outcome ε α) := by
  intro b hb
  obtain rfl := Outcome.ok.inj hb
  exact h

theorem bind {y : Outcome ε β} {f : β → Outcome ε α} (h : ∀ b, y = ok b → OnlyYields p (f b)) :
    OnlyYields p (y >>= f) := by
  intro a ha
  obtain ⟨b, hb, ha⟩ := bind_eq_ok.mp ha
  exact h b hb a ha

theorem mono {q : α → Prop} (h : OnlyYields p x) (hpq : ∀ a, p a → q a) : OnlyYields q x :=
  fun a ha => hpq a (h a ha)

end Outcome.OnlyYields

theorem Outcome.Spares.ensures {e : ε} {x : Outcome ε α} (h : Spares e x) :
    Ensures e (fun _ => True) x := ⟨h, fun _ _ => trivial⟩

/-! ### Stateful runs -/

namespace Run

instance : Effects ε (Run σ ε) where
  pure a := fun s => (ok a, s)
  bind x f := fun s =>
    match x s with
    | (ok a, s') => f a s'
    | (.throw e, s') => (.throw e, s')
    | (outOfFuel, s') => (outOfFuel, s')
  raise e := fun s => (.throw e, s)
  stop := fun s => (outOfFuel, s)

@[simp] theorem pure_apply (a : α) (s : σ) : (pure a : Run σ ε α) s = (ok a, s) := rfl
@[simp] theorem raise_apply (e : ε) (s : σ) :
    (raise e : Run σ ε α) s = (.throw e, s) := rfl
@[simp] theorem stop_apply (s : σ) : (stop : Run σ ε α) s = (outOfFuel, s) := rfl

theorem bind_apply (x : Run σ ε α) (f : α → Run σ ε β) (s : σ) :
    (x >>= f) s = match x s with
      | (ok a, s') => f a s'
      | (.throw e, s') => (.throw e, s')
      | (outOfFuel, s') => (outOfFuel, s') := rfl

theorem bind_ok {x : Run σ ε α} {f : α → Run σ ε β} {s s' : σ} {a : α}
    (h : x s = (ok a, s')) : (x >>= f) s = f a s' := by
  rw [bind_apply, h]

theorem bind_throw {x : Run σ ε α} {f : α → Run σ ε β} {s s' : σ} {e : ε}
    (h : x s = (.throw e, s')) : (x >>= f) s = (.throw e, s') := by
  rw [bind_apply, h]

theorem bind_outOfFuel {x : Run σ ε α} {f : α → Run σ ε β} {s s' : σ}
    (h : x s = (outOfFuel, s')) : (x >>= f) s = (outOfFuel, s') := by
  rw [bind_apply, h]

/-- A sequence returns exactly when both parts do. -/
theorem bind_eq_ok {x : Run σ ε α} {f : α → Run σ ε β} {s t : σ} {b : β} :
    (x >>= f) s = (ok b, t) ↔ ∃ a s', x s = (ok a, s') ∧ f a s' = (ok b, t) := by
  rw [bind_apply]
  rcases x s with ⟨a | e | -, s'⟩ <;> simp

/-- What a sequence that returns consists of. -/
theorem of_bind_ok {x : Run σ ε α} {f : α → Run σ ε β} {s : σ} {b : β}
    (h : ((x >>= f) s).1 = ok b) : ∃ a s', x s = (ok a, s') ∧ (f a s').1 = ok b := by
  rw [bind_apply] at h
  rcases hx : x s with ⟨a | e | -, s'⟩
  · rw [hx] at h
    exact ⟨a, s', rfl, h⟩
  · rw [hx] at h
    exact absurd h (by simp)
  · rw [hx] at h
    exact absurd h (by simp)

/-- A sequence whose first part does not return throws what that part throws. -/
theorem fst_bind_eq_throw {x : Run σ ε α} {f : α → Run σ ε β} {s : σ} {e : ε}
    (h : ∀ a, (x s).1 ≠ ok a) : ((x >>= f) s).1 = .throw e ↔ (x s).1 = .throw e := by
  rw [bind_apply]
  rcases hx : x s with ⟨a | e' | -, s'⟩
  · exact absurd (congrArg Prod.fst hx) (h a)
  · simp
  · simp

theorem fst_bind_outOfFuel {x : Run σ ε α} {f : α → Run σ ε β} {s : σ}
    (h : (x s).1 = outOfFuel) : ((x >>= f) s).1 = outOfFuel := by
  rw [bind_outOfFuel (Prod.ext h rfl)]

/-- Return `a` instead of throwing; what the computation has done before stays done. -/
def catchAll (a : α) (x : Run σ ε α) : Run σ ε α := fun s =>
  match x s with
  | (.throw _, s') => (ok a, s')
  | result => result

theorem catchAll_ok {a b : α} {x : Run σ ε α} {s s' : σ} (h : x s = (ok b, s')) :
    catchAll a x s = (ok b, s') := by
  rw [catchAll, h]

theorem pure_bind (a : α) (f : α → Run σ ε β) : (pure a >>= f) = f a := rfl

/-- An outcome that is replayed leaves the state alone. -/
theorem lift_apply (x : Outcome ε α) (s : σ) : (x.lift : Run σ ε α) s = (x, s) := by
  cases x <;> rfl

theorem bind_assoc {γ : Type} (x : Run σ ε α) (f : α → Run σ ε β) (g : β → Run σ ε γ) :
    ((x >>= f) >>= g) = x >>= fun a => f a >>= g := by
  funext s
  rw [bind_apply, bind_apply, bind_apply]
  rcases x s with ⟨a | e | -, s'⟩
  · rfl
  · rfl
  · rfl

theorem mapM_loop_ok {P : σ → Prop} {Q : α → β → Prop} {f : α → Run σ ε β}
    (hf : ∀ a s b s', P s → f a s = (ok b, s') → P s' ∧ Q a b) {as : List α} {acc bs : List β}
    {s s' : σ} (hs : P s) (h : List.mapM.loop f as acc s = (ok bs, s')) :
    P s' ∧ ∃ cs, bs = acc.reverse ++ cs ∧ List.Forall₂ Q as cs := by
  induction as generalizing acc s with
  | nil =>
    obtain ⟨rfl, rfl⟩ : acc.reverse = bs ∧ s = s' := by simpa [List.mapM.loop] using h
    exact ⟨hs, [], (List.append_nil _).symm, .nil⟩
  | cons a as ih =>
    obtain ⟨b, s₁, hb, h⟩ := bind_eq_ok.mp h
    obtain ⟨hs₁, hab⟩ := hf _ _ _ _ hs hb
    obtain ⟨hs', cs, rfl, hcs⟩ := ih hs₁ h
    refine ⟨hs', b :: cs, ?_, .cons hab hcs⟩
    rw [List.reverse_cons, List.append_assoc]
    rfl

/-- **A loop over a list** keeps the invariant `P`, and returns for each element what `Q` says. -/
theorem mapM_ok {P : σ → Prop} {Q : α → β → Prop} {f : α → Run σ ε β}
    (hf : ∀ a s b s', P s → f a s = (ok b, s') → P s' ∧ Q a b) {as : List α} {bs : List β}
    {s s' : σ} (hs : P s) (h : (as.mapM f : Run σ ε (List β)) s = (ok bs, s')) :
    P s' ∧ List.Forall₂ Q as bs := by
  have hloop : List.mapM.loop f as [] s = (ok bs, s') := h
  obtain ⟨hs', cs, rfl, hcs⟩ := mapM_loop_ok hf hs hloop
  exact ⟨hs', hcs⟩

/-- A loop whose rounds return, returns. -/
theorem exists_mapM {P : σ → Prop} {f : α → Run σ ε β}
    (hf : ∀ a s, P s → ∃ b s', f a s = (ok b, s') ∧ P s') (as : List α) {s : σ} (hs : P s) :
    ∃ bs s', (as.mapM f : Run σ ε (List β)) s = (ok bs, s') ∧ P s' := by
  have hloop (acc : List β) : ∃ bs s', List.mapM.loop f as acc s = (ok bs, s') ∧ P s' := by
    induction as generalizing acc s with
    | nil => exact ⟨_, s, rfl, hs⟩
    | cons a as ih =>
      obtain ⟨b, s₁, hb, hs₁⟩ := hf a s hs
      obtain ⟨bs, s', hbs, hs'⟩ := ih hs₁ (b :: acc)
      exact ⟨bs, s', bind_eq_ok.mpr ⟨b, s₁, hb, hbs⟩, hs'⟩
  exact hloop []

end Run

/-! ### Running a list of computations -/

section Sequence

variable {m m' : Type → Type} [Effects ε m] [Effects ε m']

/-- Run the computations from left to right and collect their values. -/
def collect : List (m α) → m (List α)
  | [] => pure []
  | x :: xs => do
    let a ← x
    let as ← collect xs
    pure (a :: as)

@[simp] theorem collect_nil : collect ([] : List (m α)) = pure [] := rfl

@[simp] theorem collect_cons (x : m α) (xs : List (m α)) :
    collect (x :: xs) = x >>= fun a => collect xs >>= fun as => pure (a :: as) := rfl

/-- Computations that all return are collected in order. -/
theorem collect_map_ok (f : α → β) (as : List α) :
    collect (as.map fun a => (ok (f a) : Outcome ε β)) = ok (as.map f) := by
  induction as with
  | nil => rfl
  | cons a as ih => simp [ih]

/-- What a collected list of outcomes consists of. -/
theorem collect_eq_ok {xs : List (Outcome ε α)} {as : List α} :
    collect xs = ok as ↔ List.Forall₂ (fun x a => x = ok a) xs as := by
  induction xs generalizing as with
  | nil => cases as <;> simp
  | cons x xs ih =>
    simp only [collect_cons, bind_eq_ok, pure_eq, ih]
    constructor
    · rintro ⟨a, rfl, as', h, hs⟩
      cases hs
      exact List.Forall₂.cons rfl h
    · intro h
      cases h with
      | cons hx h => exact ⟨_, hx, _, h, rfl⟩

/-- Where a list of computations returns, each of them does. -/
theorem exists_of_collect_map {f : α → Outcome ε β} {as : List α} {bs : List β}
    (h : collect (as.map f) = ok bs) {a : α} (ha : a ∈ as) : ∃ b, f a = ok b := by
  induction as generalizing bs with
  | nil => simp at ha
  | cons c as ih =>
    rw [List.map_cons, collect_cons] at h
    obtain ⟨b, hb, h⟩ := bind_eq_ok.mp h
    obtain ⟨bs', hbs, -⟩ := bind_eq_ok.mp h
    rcases List.mem_cons.mp ha with rfl | ha
    · exact ⟨b, hb⟩
    · exact ih hbs ha

/-- A list of computations returns exactly when each of them does. -/
theorem exists_collect_map_iff {f : α → Outcome ε β} {as : List α} :
    (∃ bs, collect (as.map f) = ok bs) ↔ ∀ a ∈ as, ∃ b, f a = ok b := by
  constructor
  · rintro ⟨bs, h⟩ a ha
    exact exists_of_collect_map h ha
  · intro h
    induction as with
    | nil => exact ⟨[], rfl⟩
    | cons a as ih =>
      obtain ⟨b, hb⟩ := h a (by simp)
      obtain ⟨bs, hbs⟩ := ih fun a ha => h a (by simp [ha])
      refine ⟨b :: bs, ?_⟩
      rw [List.map_cons, collect_cons, hb, ok_bind, hbs]
      rfl

/-- Where only one exception may be thrown, it is thrown exactly if one of the computations
throws it. -/
theorem collect_eq_throw {e : ε} {xs : List (Outcome ε α)}
    (h : ∀ x ∈ xs, (∃ a, x = ok a) ∨ x = .throw e) :
    collect xs = .throw e ↔ .throw e ∈ xs := by
  induction xs with
  | nil => simp
  | cons x xs ih =>
    rw [List.forall_mem_cons] at h
    rw [collect_cons, List.mem_cons]
    rcases h.1 with ⟨a, rfl⟩ | rfl
    · rw [ok_bind, bind_eq_throw, or_iff_left (by simp), ih h.2, or_iff_right (by simp)]
    · exact iff_of_true rfl (.inl rfl)

theorem collect_spares {e : ε} {xs : List (Outcome ε α)} (h : ∀ x ∈ xs, Spares e x) :
    Spares e (collect xs) := by
  induction xs with
  | nil => exact .pure []
  | cons x xs ih =>
    exact (h x (by simp)).bind fun a => (ih fun x hx => h x (by simp [hx])).map _

theorem collect_length {xs : List (Outcome ε α)} {as : List α}
    (h : collect xs = ok as) : as.length = xs.length :=
  (collect_eq_ok.mp h).length_eq.symm

theorem Run.collect_length {xs : List (Run σ ε α)} {as : List α} {s s' : σ}
    (h : collect xs s = (ok as, s')) : as.length = xs.length := by
  induction xs generalizing as s s' with
  | nil =>
    obtain rfl : [] = as := Outcome.ok.inj (congrArg Prod.fst h)
    rfl
  | cons x xs ih =>
    obtain ⟨a, s₁, -, hxs⟩ := Run.of_bind_ok (congrArg Prod.fst h)
    obtain ⟨as, s₂, has, heq⟩ := Run.of_bind_ok hxs
    obtain rfl := Outcome.ok.inj heq
    rw [List.length_cons, List.length_cons, ih has]

end Sequence

/-! ### Relations closed under the effects -/

/-- A relation between the computations of two monads that everything written
against `Effects` respects. -/
structure EffectRel (ε : Type) (m m' : Type → Type) [Effects ε m] [Effects ε m'] where
  rel : ∀ {α : Type}, m α → m' α → Prop
  rel_pure : ∀ {α : Type} (a : α), rel (pure a : m α) (pure a : m' α)
  rel_raise : ∀ {α : Type} (e : ε), rel (raise e : m α) (raise e : m' α)
  rel_bind : ∀ {α β : Type} {x : m α} {y : m' α} {f : α → m β} {g : α → m' β},
    rel x y → (∀ a, rel (f a) (g a)) → rel (x >>= f) (y >>= g)

namespace EffectRel

variable {m m' : Type → Type} [Effects ε m] [Effects ε m'] (S : EffectRel ε m m')

theorem rel_collect {xs : List (m α)} {ys : List (m' α)}
    (h : List.Forall₂ S.rel xs ys) : S.rel (collect xs) (collect ys) := by
  induction h with
  | nil => exact S.rel_pure []
  | cons hx _ ih =>
    exact S.rel_bind hx fun a => S.rel_bind ih fun as => S.rel_pure (a :: as)

theorem rel_ite {p : Prop} [Decidable p] {x x' : m α} {y y' : m' α}
    (h : S.rel x y) (h' : S.rel x' y') :
    S.rel (if p then x else x') (if p then y else y') := by
  split
  · exact h
  · exact h'

/-- Applying one function to both sides of equal values. -/
theorem rel_map {x : m α} {y : m' α} (h : S.rel x y) (f : α → β) :
    S.rel (do let a ← x; pure (f a)) (do let a ← y; pure (f a)) :=
  S.rel_bind h fun a => S.rel_pure (f a)

/-- The same list on both sides, computed by related functions. -/
theorem forall₂_map {γ : Type} {f : γ → m α} {g : γ → m' α} {l : List γ}
    (h : ∀ c ∈ l, S.rel (f c) (g c)) :
    List.Forall₂ S.rel (l.map f) (l.map g) := by
  rw [List.forall₂_map_left_iff, List.forall₂_map_right_iff, List.forall₂_same]
  exact h

end EffectRel

/-- From every state, the first run is the second one, unless the second one throws `e`. -/
def unlessThrows (e : ε) : EffectRel ε (Run σ ε) (Run σ ε) where
  rel x y := ∀ s, (y s).1 = .throw e ∨ x s = y s
  rel_pure _ _ := Or.inr rfl
  rel_raise _ _ := Or.inr rfl
  rel_bind := by
    intro α β x y f g hx hf s
    rcases hys : y s with ⟨o, s'⟩
    have hout := hx s
    rw [hys] at hout
    cases o with
    | ok a =>
      have hxs : x s = (ok a, s') := hout.resolve_left (by simp)
      rw [Run.bind_ok hxs, Run.bind_ok hys]
      exact hf a s'
    | throw e' =>
      rw [Run.bind_throw hys]
      rcases hout with hthrow | hxs
      · exact Or.inl (congrArg Outcome.throw (Outcome.throw.inj hthrow))
      · exact Or.inr (Run.bind_throw hxs)
    | outOfFuel =>
      have hxs : x s = (outOfFuel, s') := hout.resolve_left (by simp)
      rw [Run.bind_outOfFuel hxs, Run.bind_outOfFuel hys]
      exact Or.inr rfl

/-- An outcome, and a run that has this outcome and leaves the state alone. -/
def stateless : EffectRel ε (Outcome ε) (Run σ ε) where
  rel x y := ∀ s, y s = (x, s)
  rel_pure _ _ := rfl
  rel_raise _ _ := rfl
  rel_bind := by
    intro α β x y f g hx hf s
    rw [Run.bind_apply, hx s]
    cases x with
    | ok a => exact hf a s
    | throw e => rfl
    | outOfFuel => rfl

end Effectful
