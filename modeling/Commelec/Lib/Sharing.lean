/-
Commelec/Lib/Sharing.lean

Two relays that work on the same data, and take turns.  The library names nothing of the program
it is used for.

In `sharing`, either relay may take the next event, as long as neither has come to an end that
stops both, and may look at all of the data and change them.  A relay `KeepsTo` a part of the data
if nothing else makes a difference to it, and if it leaves the others' part as it is.

* `keepingTo` — for computations; everything that is put together of them keeps to the part, too;
* `run_sharing` — relays that keep to different parts **run as if each were alone**;
* `run_sharing_iff` — and the events of two such runs may be interleaved in any way.
-/
import Commelec.Lib.Relay

namespace Effectful

open Outcome

variable {σ ε α A B : Type}

/-! ### Computations that keep to a part of the state -/

/-- From states that agree in `mine`, both have the same outcome and end in states that agree
there; the first one leaves `others` as it was. -/
def keepingTo (mine : σ → A) (others : σ → B) : EffectRel ε (Run σ ε) (Run σ ε) where
  rel x y := ∀ s t, mine s = mine t →
    (x s).1 = (y t).1 ∧ mine (x s).2 = mine (y t).2 ∧ others (x s).2 = others s
  rel_pure _ _ _ h := ⟨rfl, h, rfl⟩
  rel_raise _ _ _ h := ⟨rfl, h, rfl⟩
  rel_bind := by
    intro α β x y f g hx hf s t hst
    have hxy := hx s t hst
    rcases hxs : x s with ⟨o, s'⟩
    rcases hyt : y t with ⟨o', t'⟩
    rw [hxs, hyt] at hxy
    obtain ⟨rfl, hmine, hothers⟩ : o = o' ∧ mine s' = mine t' ∧ others s' = others s := hxy
    cases o with
    | ok a =>
      rw [Run.bind_ok hxs, Run.bind_ok hyt]
      obtain ⟨hfst, hmine', hothers'⟩ := hf a s' t' hmine
      exact ⟨hfst, hmine', hothers'.trans hothers⟩
    | throw e =>
      rw [Run.bind_throw hxs, Run.bind_throw hyt]
      exact ⟨rfl, hmine, hothers⟩
    | outOfFuel =>
      rw [Run.bind_outOfFuel hxs, Run.bind_outOfFuel hyt]
      exact ⟨rfl, hmine, hothers⟩

/-- The computation reads and writes `mine` only, and nothing of `others`. -/
def Run.KeepsTo (mine : σ → A) (others : σ → B) (x : Run σ ε α) : Prop :=
  (keepingTo mine others).rel x x

theorem Run.KeepsTo.lift (mine : σ → A) (others : σ → B) (x : Outcome ε α) :
    (x.lift : Run σ ε α).KeepsTo mine others := by
  intro s t h
  rw [Run.lift_apply, Run.lift_apply]
  exact ⟨rfl, h, rfl⟩

/-- The first computation does with the state what the second one does with its part. -/
def workingOn (part : σ → A) : EffectRel ε (Run σ ε) (Run A ε) where
  rel x y := ∀ s, y (part s) = ((x s).1, part (x s).2)
  rel_pure _ _ := rfl
  rel_raise _ _ := rfl
  rel_bind := by
    intro α β x y f g hx hf s
    rcases hxs : x s with ⟨a | e | -, s'⟩
    · have hy : y (part s) = (ok a, part s') := by rw [hx s, hxs]
      rw [Run.bind_ok hxs, Run.bind_ok hy]
      exact hf a s'
    · have hy : y (part s) = (.throw e, part s') := by rw [hx s, hxs]
      rw [Run.bind_throw hxs, Run.bind_throw hy]
    · have hy : y (part s) = (.outOfFuel, part s') := by rw [hx s, hxs]
      rw [Run.bind_outOfFuel hxs, Run.bind_outOfFuel hy]

namespace Relay

variable {ι τ ο ι' τ' α' ο' : Type}

/-! ### Relays that keep to a part of the data -/

/-- The work on the inputs keeps to the part, and what is sent depends on it only. -/
structure KeepsTo (mine : σ → A) (others : σ → B) (r : Relay σ ι τ α ο ε) : Prop where
  accept (i : ι) : (r.accept i).KeepsTo mine others
  emit (send : τ) {d d' : σ} : mine d = mine d' → r.emit send d = r.emit send d'

theorem KeepsTo.fanOut {mine : σ → A} {others : σ → B} {π κ : Type} {destinations : List κ}
    {accept : ι → Run σ ε π} {packet : π → σ → ο} {check : π → α → Option ε}
    (haccept : ∀ i, (accept i).KeepsTo mine others)
    (hpacket : ∀ p d d', mine d = mine d' → packet p d = packet p d') :
    (fanOut destinations accept packet check).KeepsTo mine others where
  accept i := (keepingTo mine others).rel_map (haccept i) _
  emit send d d' h := congrArg (·, send.2) (hpacket send.1 d d' h)

section Alone

variable {mine : σ → A} {others : σ → B} {r : Relay σ ι τ α ο ε} {d d' : σ} {mode : Mode τ ε}
variable {s₁ : State σ τ ε} {os : List ο}

/-- **A step** is the same from any data that agree in the part. -/
theorem KeepsTo.step (hr : r.KeepsTo mine others) (hd : mine d = mine d') {e : Event ι α ε}
    (h : r.step e ⟨d, mode⟩ = some (s₁, os)) :
    others s₁.data = others d ∧
      ∃ a, r.step e ⟨d', mode⟩ = some (⟨a, s₁.mode⟩, os) ∧ mine s₁.data = mine a := by
  cases e with
  | input i =>
    cases mode with
    | waiting =>
      obtain ⟨rfl, rfl⟩ := Prod.mk.inj (Option.some.inj h)
      obtain ⟨hfst, hmine, hothers⟩ := hr.accept i d d' hd
      refine ⟨hothers, (r.accept i d').2, ?_, hmine⟩
      show some (State.mk _ (.ofOutcome (r.accept i d').1), _) = _
      rw [← hfst]
    | sending send rest => cases h
    | ended e => cases h
    | hung => cases h
  | answer a =>
    cases mode with
    | waiting => cases h
    | sending send rest =>
      obtain ⟨rfl, rfl⟩ := Prod.mk.inj (Option.some.inj h)
      refine ⟨rfl, d', ?_, hd⟩
      rw [hr.emit send hd]
      rfl
    | ended e => cases h
    | hung => cases h
  | fault e =>
    cases mode with
    | waiting =>
      obtain ⟨rfl, rfl⟩ := Prod.mk.inj (Option.some.inj h)
      exact ⟨rfl, d', rfl, hd⟩
    | sending send rest =>
      obtain ⟨rfl, rfl⟩ := Prod.mk.inj (Option.some.inj h)
      exact ⟨rfl, d', rfl, hd⟩
    | ended e' => cases h
    | hung => cases h

/-- So is **a run**. -/
theorem KeepsTo.run (hr : r.KeepsTo mine others) (hd : mine d = mine d')
    {es : List (Event ι α ε)} (h : r.step.run es ⟨d, mode⟩ = some (s₁, os)) :
    others s₁.data = others d ∧
      ∃ a, r.step.run es ⟨d', mode⟩ = some (⟨a, s₁.mode⟩, os) ∧ mine s₁.data = mine a := by
  induction es generalizing d d' mode os with
  | nil =>
    obtain ⟨rfl, rfl⟩ : ⟨d, mode⟩ = s₁ ∧ [] = os := by simpa [Machine.run] using h
    exact ⟨rfl, d', rfl, hd⟩
  | cons e es ih =>
    obtain ⟨s₂, os₁, os₂, he, hes, rfl⟩ := Machine.run_cons.mp h
    obtain ⟨hothers, a, hstep, ha⟩ := hr.step hd he
    obtain ⟨hothers', b, hrun, hb⟩ := ih ha hes
    exact ⟨hothers'.trans hothers, b, Machine.run_cons.mpr ⟨_, _, _, hstep, hrun, rfl⟩, hb⟩

end Alone

/-! ### Two relays on the same data -/

/-- The data, and where the two relays are suspended. -/
structure Shared (σ τ τ' ε : Type) where
  data : σ
  left : Mode τ ε
  right : Mode τ' ε

/-- Either relay takes the next event.  After one has come to an end that stops both, there is
none. -/
def sharing (stops : Mode τ ε → Bool) (stops' : Mode τ' ε → Bool) (r : Relay σ ι τ α ο ε)
    (r' : Relay σ ι' τ' α' ο' ε) :
    Machine (Shared σ τ τ' ε) (Event ι α ε ⊕ Event ι' α' ε) (ο ⊕ ο') := fun e s =>
  if stops s.left || stops' s.right then none
  else
    match e with
    | .inl e =>
      (r.step e ⟨s.data, s.left⟩).map fun x => (⟨x.1.data, x.1.mode, s.right⟩, x.2.map .inl)
    | .inr e =>
      (r'.step e ⟨s.data, s.right⟩).map fun x => (⟨x.1.data, s.left, x.1.mode⟩, x.2.map .inr)

section Sharing

variable {stops : Mode τ ε → Bool} {stops' : Mode τ' ε → Bool} {r : Relay σ ι τ α ο ε}
variable {r' : Relay σ ι' τ' α' ο' ε} {mine : σ → A} {mine' : σ → B} {d d' : σ}
variable {m n : Mode τ ε} {m' n' : Mode τ' ε} {s s' : Shared σ τ τ' ε}
variable {es : List (Event ι α ε ⊕ Event ι' α' ε)} {os : List (ο ⊕ ο')}

theorem sharing_inl {e : Event ι α ε} :
    sharing stops stops' r r' (.inl e) s = some (s', os) ↔
      (stops s.left = false ∧ stops' s.right = false) ∧
        ∃ s₁ sent, r.step e ⟨s.data, s.left⟩ = some (s₁, sent) ∧
          s' = ⟨s₁.data, s₁.mode, s.right⟩ ∧ os = sent.map .inl := by
  rw [sharing]
  rcases stops s.left with - | - <;> rcases stops' s.right with - | -
  · rcases r.step e ⟨s.data, s.left⟩ with - | ⟨s₁, sent⟩
    · simp
    · simp [eq_comm]
  all_goals simp

theorem sharing_inr {e : Event ι' α' ε} :
    sharing stops stops' r r' (.inr e) s = some (s', os) ↔
      (stops s.left = false ∧ stops' s.right = false) ∧
        ∃ s₁ sent, r'.step e ⟨s.data, s.right⟩ = some (s₁, sent) ∧
          s' = ⟨s₁.data, s.left, s₁.mode⟩ ∧ os = sent.map .inr := by
  rw [sharing]
  rcases stops s.left with - | - <;> rcases stops' s.right with - | -
  · rcases r'.step e ⟨s.data, s.right⟩ with - | ⟨s₁, sent⟩
    · simp
    · simp [eq_comm]
  all_goals simp

theorem filterMap_getLeft?_inl (sent : List ο) :
    (sent.map (.inl : ο → ο ⊕ ο')).filterMap Sum.getLeft? = sent := by
  simp [List.filterMap_map, Function.comp_def]

theorem filterMap_getRight?_inl (sent : List ο) :
    (sent.map (.inl : ο → ο ⊕ ο')).filterMap Sum.getRight? = [] := by
  simp [List.filterMap_map, Function.comp_def]

theorem filterMap_getLeft?_inr (sent : List ο') :
    (sent.map (.inr : ο' → ο ⊕ ο')).filterMap Sum.getLeft? = [] := by
  simp [List.filterMap_map, Function.comp_def]

theorem filterMap_getRight?_inr (sent : List ο') :
    (sent.map (.inr : ο' → ο ⊕ ο')).filterMap Sum.getRight? = sent := by
  simp [List.filterMap_map, Function.comp_def]

/-- **Each relay runs as if it were alone**: with its own events it sends the same, and leaves its
part of the data the same; the other part stays as it was. -/
theorem run_sharing (hr : r.KeepsTo mine mine') (hr' : r'.KeepsTo mine' mine)
    (h : (sharing stops stops' r r').run es ⟨d, m, m'⟩ = some (⟨d', n, n'⟩, os)) :
    (∃ a, r.step.run (es.filterMap Sum.getLeft?) ⟨d, m⟩
          = some (⟨a, n⟩, os.filterMap Sum.getLeft?) ∧ mine a = mine d' ∧ mine' a = mine' d) ∧
      ∃ b, r'.step.run (es.filterMap Sum.getRight?) ⟨d, m'⟩
          = some (⟨b, n'⟩, os.filterMap Sum.getRight?) ∧ mine' b = mine' d' ∧ mine b = mine d := by
  induction es generalizing d m m' os with
  | nil =>
    obtain ⟨⟨rfl, rfl, rfl⟩, rfl⟩ : (d = d' ∧ m = n ∧ m' = n') ∧ [] = os := by
      simpa [Machine.run] using h
    exact ⟨⟨d, rfl, rfl, rfl⟩, d, rfl, rfl, rfl⟩
  | cons e es ih =>
    obtain ⟨s₁, os₁, os₂, he, hes, rfl⟩ := Machine.run_cons.mp h
    obtain ⟨⟨a, hrun, ha, ha'⟩, b, hrun', hb', hb⟩ := ih hes
    rw [List.filterMap_append, List.filterMap_append]
    cases e with
    | inl e =>
      obtain ⟨-, s₂, sent, hstep, rfl, rfl⟩ := sharing_inl.mp he
      -- the step belongs to this relay, and does not touch the other's part
      obtain ⟨hothers, -⟩ := hr.step rfl hstep
      rw [filterMap_getLeft?_inl, filterMap_getRight?_inl]
      refine ⟨⟨a, Machine.run_cons.mpr ⟨_, _, _, hstep, hrun, rfl⟩, ha, ha'.trans hothers⟩, ?_⟩
      -- the other relay does the same from the data before the step
      obtain ⟨hframe, b', hrun'', hb''⟩ := hr'.run hothers hrun'
      obtain ⟨hframe', -⟩ := hr'.run rfl hrun''
      exact ⟨b', hrun'', hb''.symm.trans hb', hframe'⟩
    | inr e =>
      obtain ⟨-, s₂, sent, hstep, rfl, rfl⟩ := sharing_inr.mp he
      obtain ⟨hothers, -⟩ := hr'.step rfl hstep
      rw [filterMap_getLeft?_inr, filterMap_getRight?_inr]
      refine ⟨?_, b, Machine.run_cons.mpr ⟨_, _, _, hstep, hrun', rfl⟩, hb', hb.trans hothers⟩
      obtain ⟨-, a', hrun'', ha''⟩ := hr.run hothers hrun
      obtain ⟨hframe, -⟩ := hr.run rfl hrun''
      exact ⟨a', hrun'', ha''.symm.trans ha, hframe⟩

/-- A relay that has not been stopped at the end of a run was not stopped at its start. -/
theorem stops_start (hstops : ∀ mode, stops mode = true → ¬ mode.Live) {es : List (Event ι α ε)}
    {s₁ : State σ τ ε} {sent : List ο} (h : r.step.run es ⟨d, m⟩ = some (s₁, sent))
    (hend : stops s₁.mode = false) : stops m = false := by
  cases es with
  | nil =>
    obtain ⟨rfl, -⟩ : ⟨d, m⟩ = s₁ ∧ [] = sent := by simpa [Machine.run] using h
    exact hend
  | cons e es =>
    obtain ⟨s₂, sent₁, sent₂, he, -, -⟩ := Machine.run_cons.mp h
    -- a relay that is stopped takes no event
    refine (Bool.not_eq_true _).mp fun hm => ?_
    rw [step_eq_none e (hstops m hm)] at he
    cases he

/-- Two runs after which neither relay has been stopped may take turns in any way. -/
theorem exists_run_sharing (hr : r.KeepsTo mine mine') (hr' : r'.KeepsTo mine' mine)
    (hstops : ∀ mode, stops mode = true → ¬ mode.Live)
    (hstops' : ∀ mode, stops' mode = true → ¬ mode.Live) {d₁ d₂ a b : σ} {sent : List ο}
    {sent' : List ο'} (hd : mine d₁ = mine d) (hd' : mine' d₂ = mine' d)
    (hrun : r.step.run (es.filterMap Sum.getLeft?) ⟨d₁, m⟩ = some (⟨a, n⟩, sent))
    (hrun' : r'.step.run (es.filterMap Sum.getRight?) ⟨d₂, m'⟩ = some (⟨b, n'⟩, sent'))
    (hend : stops n = false) (hend' : stops' n' = false) :
    ∃ d' os, (sharing stops stops' r r').run es ⟨d, m, m'⟩ = some (⟨d', n, n'⟩, os) ∧
      mine d' = mine a ∧ mine' d' = mine' b := by
  have hm := stops_start hstops hrun hend
  have hm' := stops_start hstops' hrun' hend'
  induction es generalizing d d₁ d₂ m m' sent sent' with
  | nil =>
    obtain ⟨⟨rfl, rfl⟩, -⟩ : (d₁ = a ∧ m = n) ∧ [] = sent := by simpa [Machine.run] using hrun
    obtain ⟨⟨rfl, rfl⟩, -⟩ : (d₂ = b ∧ m' = n') ∧ [] = sent' := by simpa [Machine.run] using hrun'
    exact ⟨d, [], rfl, hd.symm, hd'.symm⟩
  | cons e es ih =>
    cases e with
    | inl e =>
      obtain ⟨s₁, sent₁, sent₂, he, hes, -⟩ := Machine.run_cons.mp hrun
      -- the step from the shared data; the other relay's part is as before
      obtain ⟨-, x, hstep, hx⟩ := hr.step hd he
      obtain ⟨hothers, -⟩ := hr.step rfl hstep
      obtain ⟨d', os, hos, hmine⟩ := ih hx (hd'.trans hothers.symm) hes hrun'
        (stops_start hstops hes hend) hm'
      exact ⟨d', _, Machine.run_cons.mpr
        ⟨_, _, _, sharing_inl.mpr ⟨⟨hm, hm'⟩, _, _, hstep, rfl, rfl⟩, hos, rfl⟩, hmine⟩
    | inr e =>
      obtain ⟨s₁, sent₁, sent₂, he, hes, -⟩ := Machine.run_cons.mp hrun'
      obtain ⟨-, x, hstep, hx⟩ := hr'.step hd' he
      obtain ⟨hothers, -⟩ := hr'.step rfl hstep
      obtain ⟨d', os, hos, hmine⟩ := ih (hd.trans hothers.symm) hx hrun hes hm
        (stops_start hstops' hes hend')
      exact ⟨d', _, Machine.run_cons.mpr
        ⟨_, _, _, sharing_inr.mpr ⟨⟨hm, hm'⟩, _, _, hstep, rfl, rfl⟩, hos, rfl⟩, hmine⟩

/-- **Taking turns makes no difference**, as long as nothing stops both.  The two parts are all of
the data. -/
theorem run_sharing_iff (hr : r.KeepsTo mine mine') (hr' : r'.KeepsTo mine' mine)
    (hall : ∀ d d', mine d = mine d' → mine' d = mine' d' → d = d')
    (hstops : ∀ mode, stops mode = true → ¬ mode.Live)
    (hstops' : ∀ mode, stops' mode = true → ¬ mode.Live) {sent : List ο} {sent' : List ο'}
    (hend : stops n = false) (hend' : stops' n' = false) :
    (∃ os, (sharing stops stops' r r').run es ⟨d, m, m'⟩ = some (⟨d', n, n'⟩, os) ∧
        os.filterMap Sum.getLeft? = sent ∧ os.filterMap Sum.getRight? = sent') ↔
      (∃ a, r.step.run (es.filterMap Sum.getLeft?) ⟨d, m⟩ = some (⟨a, n⟩, sent) ∧
          mine a = mine d' ∧ mine' a = mine' d) ∧
        ∃ b, r'.step.run (es.filterMap Sum.getRight?) ⟨d, m'⟩ = some (⟨b, n'⟩, sent') ∧
          mine' b = mine' d' ∧ mine b = mine d := by
  constructor
  · rintro ⟨os, hrun, rfl, rfl⟩
    exact run_sharing hr hr' hrun
  · rintro ⟨⟨a, hrun, ha, -⟩, b, hrun', hb, -⟩
    obtain ⟨d'', os, hos, hmine, hmine'⟩ :=
      exists_run_sharing hr hr' hstops hstops' rfl rfl hrun hrun' hend hend'
    -- the two parts determine the data in which the merged run ends
    obtain rfl := hall d'' d' (hmine.trans ha) (hmine'.trans hb)
    obtain ⟨⟨a', hleft, -⟩, b', hright, -⟩ := run_sharing hr hr' hos
    rw [hrun] at hleft
    rw [hrun'] at hright
    obtain ⟨-, rfl⟩ := Prod.mk.inj (Option.some.inj hleft)
    obtain ⟨-, rfl⟩ := Prod.mk.inj (Option.some.inj hright)
    exact ⟨os, hos, rfl, rfl⟩

end Sharing

end Relay

end Effectful
