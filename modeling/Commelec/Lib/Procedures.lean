/-
Commelec/Lib/Procedures.lean

Mutually recursive procedures that may throw.  The library names nothing of the program it
is used for.

A family of procedures is given by one function, `body`: what the procedure `t` does, when
`call t'` is the call of the procedure `t'`.  The body is written against `Effects`, so it
cannot look into its calls, and it respects every relation between two monads.

* `P.sem t`: the outcome of `t`, where `outOfFuel` means that the recursion does not end;
* `P.Invokes t t'`: the body of `t` makes the call `t'`;
* `P.Raises t e`: the body of `t` throws `e`, and none of the calls it makes does.

Nothing catches an exception, so `t` throws `e` exactly if it comes, through calls, to a
procedure whose own body raises `e` (`sem_eq_throw_iff`).
-/
import Mathlib.Logic.Relation
import Commelec.Lib.Limit

namespace Effectful

open Outcome

/-- Mutually recursive procedures; `t : T` is a procedure with its arguments. -/
structure Procedures (ε T : Type) (Res : T → Type) where
  body {m : Type → Type} [Effects ε m] (call : (t : T) → m (Res t)) (t : T) : m (Res t)
  rel_body {m m' : Type → Type} [Effects ε m] [Effects ε m'] (S : EffectRel ε m m')
    (hstop : ∀ {α : Type}, S.rel (stop : m α) stop)
    {call : (t : T) → m (Res t)} {call' : (t : T) → m' (Res t)}
    (h : ∀ t, S.rel (call t) (call' t)) (t : T) : S.rel (body call t) (body call' t)

namespace Procedures

variable {ε T : Type} {Res : T → Type} (P : Procedures ε T Res)

/-! ### Recursion -/

/-- The procedure, with recursive calls up to depth `fuel`. -/
def run {m : Type → Type} [Effects ε m] : ℕ → (t : T) → m (Res t)
  | 0, _ => stop
  | fuel + 1, t => P.body (run fuel) t

/-- The outcome of the procedure, without a bound on the depth. -/
noncomputable def sem (t : T) : Outcome ε (Res t) := Chain.limit fun n => P.run n t

theorem run_mono (t : T) : Chain.Mono fun n => (P.run n t : Outcome ε (Res t)) := by
  refine Chain.mono_of_succ fun n => ?_
  have h : defined.rel (P.run n t : Outcome ε (Res t)) (P.run (n + 1) t) := by
    induction n generalizing t with
    | zero => exact .bot _
    | succ n ih => exact P.rel_body defined (.bot _) ih t
  exact h

/-- What is thrown at some depth is the outcome. -/
theorem sem_of_run {n : ℕ} {t : T} (h : (P.run n t : Outcome ε (Res t)) ≠ outOfFuel) :
    P.sem t = P.run n t :=
  Chain.limit_eq (P.run_mono t) h

/-- An outcome is had at some depth. -/
theorem exists_run_eq_sem {t : T} (h : P.sem t ≠ outOfFuel) :
    ∃ n, (P.run n t : Outcome ε (Res t)) = P.sem t :=
  Chain.exists_eq_limit (c := fun n => (P.run n t : Outcome ε (Res t))) h

/-- **The recursion equation.** -/
theorem sem_eq (t : T) : P.sem t = P.body P.sem t := by
  let chains : (t : T) → Chain ε (Res t) := fun t n => P.run n t
  have hsettle : settles.rel (P.body chains t) (P.body P.sem t) :=
    P.rel_body settles ⟨Chain.mono_const _, Chain.limit_const _⟩
      (fun t => ⟨P.run_mono t, rfl⟩) t
  have hstep : P.body chains t = fun n => P.run (n + 1) t :=
    funext fun n => P.rel_body (atFuel n) rfl (fun _ => rfl) t
  rw [hstep] at hsettle
  rw [← hsettle.2, Chain.limit_succ (P.run_mono t)]
  rfl

/-! ### The calls that a body makes -/

/-- A call that is written down. -/
def logging (call : (t : T) → Outcome ε (Res t)) (t : T) : Run (List T) ε (Res t) :=
  fun τ => (call t, τ ++ [t])

/-- The calls of a body, in order. -/
def log (call : (t : T) → Outcome ε (Res t)) (t : T) : List T :=
  (P.body (logging call) t []).2

/-- The body of `t` makes the call `t'`. -/
def Invokes (t t' : T) : Prop := t' ∈ P.log P.sem t

/-- The procedure comes to `t'`, through calls. -/
def Reaches : T → T → Prop := Relation.ReflTransGen P.Invokes

/-- The body of `t` throws `e`, and none of its calls does. -/
def Raises (t : T) (e : ε) : Prop :=
  P.sem t = .throw e ∧ ∀ t', P.Invokes t t' → P.sem t' ≠ .throw e

/-- The outcome of a run whose log only grows, and that of the run in which the calls in `bad`
are cut off: it is the same one, if the log has no such call. -/
def cutting (bad : T → Prop) : EffectRel ε (Run (List T) ε) (Outcome ε) where
  rel x y := ∀ τ, ∃ new, (x τ).2 = τ ++ new ∧
    ((∃ t ∈ new, bad t) ∧ y = outOfFuel ∨ (∀ t ∈ new, ¬ bad t) ∧ (x τ).1 = y)
  rel_pure _ τ := ⟨[], (List.append_nil τ).symm, Or.inr ⟨by simp, rfl⟩⟩
  rel_raise _ τ := ⟨[], (List.append_nil τ).symm, Or.inr ⟨by simp, rfl⟩⟩
  rel_bind := by
    intro α β x y f g hx hf τ
    obtain ⟨new, hlog, hout⟩ := hx τ
    rcases hxτ : x τ with ⟨o, τ'⟩
    rw [hxτ] at hlog hout
    obtain rfl : τ' = τ ++ new := hlog
    cases o with
    | ok a =>
      rw [Run.bind_ok hxτ]
      obtain ⟨new', hlog', hout'⟩ := hf a (τ ++ new)
      refine ⟨new ++ new', by rw [hlog', List.append_assoc], ?_⟩
      rcases hout with ⟨⟨t, ht, hbad⟩, rfl⟩ | ⟨hgood, hout⟩
      · exact Or.inl ⟨⟨t, List.mem_append_left _ ht, hbad⟩, rfl⟩
      · obtain rfl : ok a = y := hout
        refine hout'.imp ?_ ?_
        · rintro ⟨⟨t, ht, hbad⟩, hy⟩
          exact ⟨⟨t, List.mem_append_right _ ht, hbad⟩, hy⟩
        · rintro ⟨hgood', hy⟩
          exact ⟨fun t ht => (List.mem_append.mp ht).elim (hgood t) (hgood' t), hy⟩
    | throw e =>
      rw [Run.bind_throw hxτ]
      refine ⟨new, rfl, hout.imp ?_ ?_⟩
      · rintro ⟨hbad, rfl⟩
        exact ⟨hbad, rfl⟩
      · rintro ⟨hgood, rfl⟩
        exact ⟨hgood, rfl⟩
    | outOfFuel =>
      rw [Run.bind_outOfFuel hxτ]
      refine ⟨new, rfl, hout.imp ?_ ?_⟩
      · rintro ⟨hbad, rfl⟩
        exact ⟨hbad, rfl⟩
      · rintro ⟨hgood, rfl⟩
        exact ⟨hgood, rfl⟩

theorem cutting_stop (bad : T → Prop) {α : Type} :
    (cutting bad).rel (stop : Run (List T) ε α) stop :=
  fun τ => ⟨[], (List.append_nil τ).symm, Or.inr ⟨by simp, rfl⟩⟩

/-- A logged run has the outcome of the run. -/
theorem logging_fst (call : (t : T) → Outcome ε (Res t)) (t : T) :
    (P.body (logging call) t []).1 = P.body call t := by
  have hlogging : ∀ t, (cutting fun _ => False).rel (logging call t) (call t) :=
    fun t τ => ⟨[t], rfl, Or.inr ⟨fun _ _ => id, rfl⟩⟩
  obtain ⟨new, -, ⟨⟨t', -, hbad⟩, -⟩ | ⟨-, hout⟩⟩ :=
    P.rel_body _ (cutting_stop _) hlogging t []
  · exact hbad.elim
  · exact hout

/-- Every call that is written down is in `p`. -/
def logsOnly (p : T → Prop) : EffectRel ε (Run (List T) ε) (Outcome ε) where
  rel x _ := ∀ τ, (∀ t ∈ τ, p t) → ∀ t ∈ (x τ).2, p t
  rel_pure _ _ hτ := hτ
  rel_raise _ _ hτ := hτ
  rel_bind := by
    intro α β x y f g hx hf τ hτ
    have hlog := hx τ hτ
    rcases hxτ : x τ with ⟨a | e | -, τ'⟩
    · rw [Run.bind_ok hxτ]
      rw [hxτ] at hlog
      exact hf a τ' hlog
    · rw [Run.bind_throw hxτ]
      rwa [hxτ] at hlog
    · rw [Run.bind_outOfFuel hxτ]
      rwa [hxτ] at hlog

theorem logsOnly_stop (p : T → Prop) {α : Type} :
    (logsOnly p).rel (stop : Run (List T) ε α) stop := fun _ hτ => hτ

theorem logsOnly_logging {p : T → Prop} (call : (t : T) → Outcome ε (Res t)) {t : T} (h : p t) :
    (logsOnly p).rel (logging call t) (call t) := by
  intro τ hτ t' ht'
  rcases List.mem_append.mp ht' with ht' | ht'
  · exact hτ t' ht'
  · obtain rfl := List.mem_singleton.mp ht'
    exact h

/-- What the calls of a body have in common. -/
theorem of_invokes {p : T → Prop} {t t' : T} {y : Outcome ε (Res t)}
    (h : (logsOnly p).rel (P.body (logging P.sem) t) y) (hcall : P.Invokes t t') : p t' :=
  h [] (by simp) t' hcall

open Classical in
/-- The procedure, cut off if it throws `e`. -/
noncomputable def sparing (e : ε) (t : T) : Outcome ε (Res t) :=
  if P.sem t = .throw e then outOfFuel else P.sem t

theorem spares_sparing (e : ε) (t : T) : Spares e (P.sparing e t) := by
  rw [sparing]
  split
  · exact .stop
  · next h => exact h

theorem sparing_eq_ok {e : ε} {t : T} {a : Res t} : P.sparing e t = ok a ↔ P.sem t = ok a := by
  rw [sparing]
  split
  · next h => simp [h]
  · rfl

/-- **What a body throws by itself** is what it throws on calls that do not throw it. -/
theorem raises_iff {t : T} {e : ε} : P.Raises t e ↔ P.body (P.sparing e) t = .throw e := by
  have hlogging : ∀ t', (cutting fun t' => P.sem t' = .throw e).rel (logging P.sem t')
      (P.sparing e t') := by
    refine fun t' τ => ⟨[t'], rfl, ?_⟩
    by_cases hbad : P.sem t' = .throw e
    · exact Or.inl ⟨⟨t', List.mem_singleton_self _, hbad⟩, if_pos hbad⟩
    · exact Or.inr ⟨by simpa using hbad, (if_neg hbad).symm⟩
  obtain ⟨new, hlog, hout⟩ := P.rel_body _ (cutting_stop _) hlogging t []
  have hinvokes : ∀ t', P.Invokes t t' ↔ t' ∈ new := by
    intro t'
    show t' ∈ (P.body (logging P.sem) t []).2 ↔ _
    rw [hlog, List.nil_append]
  rcases hout with ⟨⟨t', ht', hbad⟩, hcut⟩ | ⟨hgood, hout⟩
  · -- a call throws `e`
    refine iff_of_false ?_ (by rw [hcut]; simp)
    rintro ⟨-, hcalls⟩
    exact hcalls t' ((hinvokes t').mpr ht') hbad
  · rw [Raises, sem_eq, ← logging_fst, hout]
    exact and_iff_left fun t' ht' => hgood t' ((hinvokes t').mp ht')

/-- A body that does not throw `e` on calls that do not. -/
theorem not_raises {t : T} {e : ε}
    (h : ∀ call : (t : T) → Outcome ε (Res t), (∀ t', Spares e (call t')) →
      Spares e (P.body call t)) : ¬ P.Raises t e := by
  rw [raises_iff]
  exact h _ (P.spares_sparing e)

/-! ### Where an exception comes from -/

/-- The outcome of a run, which throws if one of its calls does. -/
def throwing (call : (t : T) → Outcome ε (Res t)) :
    EffectRel ε (Run (List T) ε) (Outcome ε) where
  rel x y := ∀ τ, (x τ).1 = y ∧ ∃ new, (x τ).2 = τ ++ new ∧
    ∀ t ∈ new, ∀ e, call t = .throw e → y = .throw e
  rel_pure _ τ := ⟨rfl, [], (List.append_nil τ).symm, by simp⟩
  rel_raise _ τ := ⟨rfl, [], (List.append_nil τ).symm, by simp⟩
  rel_bind := by
    intro α β x y f g hx hf τ
    obtain ⟨hout, new, hlog, hthrow⟩ := hx τ
    rcases hxτ : x τ with ⟨o, τ'⟩
    rw [hxτ] at hout hlog
    obtain rfl : o = y := hout
    obtain rfl : τ' = τ ++ new := hlog
    cases o with
    | ok a =>
      rw [Run.bind_ok hxτ]
      obtain ⟨hout', new', hlog', hthrow'⟩ := hf a (τ ++ new)
      refine ⟨hout', new ++ new', by rw [hlog', List.append_assoc], fun t ht e he => ?_⟩
      rcases List.mem_append.mp ht with ht | ht
      · -- a call that throws is the last one
        exact absurd (hthrow t ht e he) (by simp)
      · exact hthrow' t ht e he
    | throw e' =>
      rw [Run.bind_throw hxτ]
      refine ⟨rfl, new, rfl, fun t ht e he => ?_⟩
      obtain rfl : e' = e := by simpa using hthrow t ht e he
      rfl
    | outOfFuel =>
      rw [Run.bind_outOfFuel hxτ]
      exact ⟨rfl, new, rfl, fun t ht e he => absurd (hthrow t ht e he) (by simp)⟩

/-- An exception leaves the caller too. -/
theorem throw_of_invokes {t t' : T} {e : ε} (hcall : P.Invokes t t')
    (h : P.sem t' = .throw e) : P.sem t = .throw e := by
  have hlogging : ∀ t, (throwing P.sem).rel (logging P.sem t) (P.sem t) := by
    refine fun t τ => ⟨rfl, [t], rfl, fun t' ht' e he => ?_⟩
    obtain rfl := List.mem_singleton.mp ht'
    exact he
  obtain ⟨-, new, hlog, hthrow⟩ := P.rel_body (throwing P.sem)
    (fun τ => ⟨rfl, [], (List.append_nil τ).symm, by simp⟩) hlogging t []
  rw [sem_eq]
  refine hthrow t' ?_ e h
  have hmem : t' ∈ (P.body (logging P.sem) t []).2 := hcall
  rwa [hlog] at hmem

theorem throw_of_reaches {t t' : T} {e : ε} (hreach : P.Reaches t t')
    (h : P.sem t' = .throw e) : P.sem t = .throw e := by
  induction hreach using Relation.ReflTransGen.head_induction_on with
  | refl => exact h
  | head hcall _ ih => exact P.throw_of_invokes hcall ih

/-- Two runs of which the first is cut off, or all its calls have returned or thrown and the
second is the same. -/
def complete (call : (t : T) → Outcome ε (Res t)) :
    EffectRel ε (Run (List T) ε) (Run (List T) ε) where
  rel x y := ∀ τ, (∀ t ∈ τ, call t ≠ outOfFuel) →
    (x τ).1 = outOfFuel ∨ x τ = y τ ∧ ∀ t ∈ (x τ).2, call t ≠ outOfFuel
  rel_pure _ _ hτ := Or.inr ⟨rfl, hτ⟩
  rel_raise _ _ hτ := Or.inr ⟨rfl, hτ⟩
  rel_bind := by
    intro α β x y f g hx hf τ hτ
    rcases hxτ : x τ with ⟨o, τ'⟩
    rcases hx τ hτ with hcut | ⟨heq, hlog⟩
    · rw [hxτ] at hcut
      obtain rfl : o = outOfFuel := hcut
      rw [Run.bind_outOfFuel hxτ]
      exact Or.inl rfl
    · have hyτ := heq.symm.trans hxτ
      rw [hxτ] at hlog
      cases o with
      | ok a =>
        rw [Run.bind_ok hxτ, Run.bind_ok hyτ]
        exact hf a τ' hlog
      | throw e =>
        rw [Run.bind_throw hxτ, Run.bind_throw hyτ]
        exact Or.inr ⟨rfl, hlog⟩
      | outOfFuel =>
        rw [Run.bind_outOfFuel hxτ]
        exact Or.inl rfl

/-- The calls of a body that is not cut off return or throw at the same depth. -/
theorem run_of_invokes {n : ℕ} {t t' : T}
    (h : (P.run (n + 1) t : Outcome ε (Res t)) ≠ outOfFuel) (hcall : P.Invokes t t') :
    P.sem t' = P.run n t' := by
  let call : (t : T) → Outcome ε (Res t) := P.run n
  have hlogging : ∀ t, (complete call).rel (logging call t) (logging P.sem t) := by
    intro t τ hτ
    by_cases hcut : call t = outOfFuel
    · exact Or.inl hcut
    · refine Or.inr ⟨?_, fun t' ht' => ?_⟩
      · show (call t, τ ++ [t]) = (P.sem t, τ ++ [t])
        rw [P.sem_of_run hcut]
      · rcases List.mem_append.mp ht' with ht' | ht'
        · exact hτ t' ht'
        · obtain rfl := List.mem_singleton.mp ht'
          exact hcut
  rcases P.rel_body (complete call) (fun _ _ => Or.inl rfl) hlogging t []
    (by simp) with hcut | ⟨heq, hlog⟩
  · rw [logging_fst] at hcut
    exact absurd hcut h
  · refine P.sem_of_run (hlog t' ?_)
    rw [heq]
    exact hcall

/-- **Where an exception comes from**: a procedure throws `e` exactly if it comes to one
whose own body raises `e`. -/
theorem sem_eq_throw_iff {t : T} {e : ε} :
    P.sem t = .throw e ↔ ∃ t', P.Reaches t t' ∧ P.Raises t' e := by
  constructor
  · intro h
    obtain ⟨n, hn⟩ : ∃ n, (P.run n t : Outcome ε (Res t)) = .throw e := by
      obtain ⟨n, hn⟩ := P.exists_run_eq_sem (t := t) (by rw [h]; simp)
      exact ⟨n, hn.trans h⟩
    induction n generalizing t with
    | zero => exact absurd hn (by simp [run])
    | succ n ih =>
      by_cases hown : P.Raises t e
      · exact ⟨t, .refl, hown⟩
      · -- one of the calls throws `e`, at a smaller depth
        have hex : ∃ t', P.Invokes t t' ∧ P.sem t' = .throw e := by
          by_contra hnone
          exact hown ⟨h, fun t' hcall hbad => hnone ⟨t', hcall, hbad⟩⟩
        obtain ⟨t', hcall, hbad⟩ := hex
        have hrun := P.run_of_invokes (by rw [hn]; simp) hcall
        obtain ⟨t'', hreach, hown'⟩ := ih hbad (hrun.symm.trans hbad)
        exact ⟨t'', .head hcall hreach, hown'⟩
  · rintro ⟨t', hreach, hown⟩
    exact P.throw_of_reaches hreach hown.1

end Procedures

end Effectful
