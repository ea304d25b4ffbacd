/-
Commelec/Lib/CallTree.lean

The calls that a procedure comes to, in the order in which they begin.  The library names
nothing of the program it is used for.

Without a bound on the depth the calls may be infinitely many, so the order is given by two
relations:

* `P.Takes ts k`: the calls `ts`, one after the other, return or throw, after `k` calls in all;
* `P.Comes ts i t'`: while the calls `ts` are carried out, call number `i` is `t'`.

A run that notes each call when it begins has the calls of some depth in its notes
(`noting_eq`), and every call that begins is in the notes of some run
(`exists_begun_iff_comes`).
-/
import Commelec.Lib.Procedures

namespace Effectful

open Outcome

namespace Procedures

variable {ε T V : Type} {Res : T → Type} (P : Procedures ε T Res)

/-! ### Runs that note their calls -/

/-- The procedure, with recursive calls up to depth `fuel`, each of which is noted when it
begins. -/
def noting (note : T → V) : ℕ → (t : T) → Run (List V) ε (Res t)
  | 0, _ => stop
  | fuel + 1, t => fun τ => P.body (noting note fuel) t (τ ++ [note t])

/-- The calls, in the order in which they begin. -/
def begun : ℕ → T → List T
  | 0, _ => []
  | fuel + 1, t => t :: (P.log (P.run fuel) t).flatMap (begun fuel)

/-- What a run notes and what a logged run logs, if the calls note `begun`. -/
def notes (note : T → V) (begun : T → List T) :
    EffectRel ε (Run (List V) ε) (Run (List T) ε) where
  rel x y := ∀ τ σ, (x τ).1 = (y σ).1 ∧ ∃ calls, (y σ).2 = σ ++ calls ∧
    (x τ).2 = τ ++ (calls.flatMap begun).map note
  rel_pure _ τ σ := ⟨rfl, [], (List.append_nil σ).symm, (List.append_nil τ).symm⟩
  rel_raise _ τ σ := ⟨rfl, [], (List.append_nil σ).symm, (List.append_nil τ).symm⟩
  rel_bind := by
    intro α β x y f g hx hf τ σ
    obtain ⟨hout, calls, hlog, hnotes⟩ := hx τ σ
    rcases hyσ : y σ with ⟨o, σ'⟩
    rcases hxτ : x τ with ⟨o', τ'⟩
    rw [hyσ, hxτ] at hout
    rw [hyσ] at hlog
    rw [hxτ] at hnotes
    obtain rfl : o' = o := hout
    obtain rfl : σ' = σ ++ calls := hlog
    obtain rfl : τ' = τ ++ _ := hnotes
    cases o' with
    | ok a =>
      rw [Run.bind_ok hxτ, Run.bind_ok hyσ]
      obtain ⟨hout', calls', hlog', hnotes'⟩ :=
        hf a (τ ++ (calls.flatMap begun).map note) (σ ++ calls)
      refine ⟨hout', calls ++ calls', by rw [hlog', List.append_assoc], ?_⟩
      rw [hnotes', List.flatMap_append, List.map_append, List.append_assoc]
    | throw e =>
      rw [Run.bind_throw hxτ, Run.bind_throw hyσ]
      exact ⟨rfl, calls, rfl, rfl⟩
    | outOfFuel =>
      rw [Run.bind_outOfFuel hxτ, Run.bind_outOfFuel hyσ]
      exact ⟨rfl, calls, rfl, rfl⟩

/-- **What a run notes.** -/
theorem noting_eq (note : T → V) (n : ℕ) (t : T) (τ : List V) :
    P.noting note n t τ = (P.run n t, τ ++ (P.begun n t).map note) := by
  induction n generalizing t τ with
  | zero => exact congrArg (Outcome.outOfFuel, ·) (List.append_nil τ).symm
  | succ n ih =>
    have hcall : ∀ t, (notes note (P.begun n)).rel (P.noting note n t)
        (logging (P.run n) t) := by
      intro t τ σ
      rw [ih]
      exact ⟨rfl, [t], rfl, by rw [List.flatMap_singleton]⟩
    -- the body notes what its calls note, in the order in which it logs them
    obtain ⟨hout, calls, hlog, hnotes⟩ := P.rel_body (notes note (P.begun n))
      (fun τ σ => ⟨rfl, [], (List.append_nil σ).symm, (List.append_nil τ).symm⟩) hcall t
      (τ ++ [note t]) []
    have hcalls : calls = P.log (P.run n) t := hlog.symm
    rw [logging_fst] at hout
    refine Prod.ext hout ?_
    show (P.body (P.noting note n) t (τ ++ [note t])).2 = τ ++ (P.begun (n + 1) t).map note
    rw [hnotes, hcalls, begun, List.map_cons, List.append_assoc]
    rfl

/-! ### Calls that are cut off -/

/-- The calls up to the first one that is cut off at the depth. -/
def upTo (n : ℕ) : List T → List T
  | [] => []
  | t :: ts =>
    match (P.run n t : Outcome ε (Res t)) with
    | outOfFuel => [t]
    | _ => t :: upTo n ts

/-- No call is cut off. -/
def Complete (n : ℕ) (ts : List T) : Prop :=
  ∀ t ∈ ts, (P.run n t : Outcome ε (Res t)) ≠ outOfFuel

section UpTo

variable {P} {n : ℕ} {t : T} {ts us : List T}

theorem upTo_cons_of_cut (h : (P.run n t : Outcome ε (Res t)) = outOfFuel) :
    P.upTo n (t :: ts) = [t] := by
  rw [upTo, h]

theorem upTo_cons (h : (P.run n t : Outcome ε (Res t)) ≠ outOfFuel) :
    P.upTo n (t :: ts) = t :: P.upTo n ts := by
  rw [upTo]
  split
  · next hcut => exact absurd hcut h
  · rfl

theorem Complete.upTo_append (h : P.Complete n ts) : P.upTo n (ts ++ us) = ts ++ P.upTo n us := by
  induction ts with
  | nil => rfl
  | cons t ts ih =>
    obtain ⟨ht, hts⟩ := List.forall_mem_cons.mp h
    rw [List.cons_append, upTo_cons ht, ih hts, List.cons_append]

theorem Complete.upTo (h : P.Complete n ts) : P.upTo n ts = ts := by
  simpa [Procedures.upTo] using (h.upTo_append : P.upTo n (ts ++ []) = ts ++ P.upTo n [])

/-- What follows a call that is cut off is not called. -/
theorem upTo_append_of_not_complete (h : ¬ P.Complete n ts) :
    P.upTo n (ts ++ us) = P.upTo n ts := by
  induction ts with
  | nil => exact absurd (fun _ ht => absurd ht (by simp)) h
  | cons t ts ih =>
    rw [List.cons_append]
    by_cases ht : (P.run n t : Outcome ε (Res t)) = outOfFuel
    · rw [upTo_cons_of_cut ht, upTo_cons_of_cut ht]
    · rw [upTo_cons ht, upTo_cons ht, ih fun hts => h (List.forall_mem_cons.mpr ⟨ht, hts⟩)]

end UpTo

/-- A run in which calls may be cut off, and the run in which they are not. -/
def cutAt (n : ℕ) : EffectRel ε (Run (List T) ε) (Run (List T) ε) where
  rel x y := ∀ τ, ∃ calls, (y τ).2 = τ ++ calls ∧ (x τ).2 = τ ++ P.upTo n calls ∧
    (P.Complete n calls ∧ (x τ).1 = (y τ).1 ∨ ¬ P.Complete n calls ∧ (x τ).1 = outOfFuel)
  rel_pure _ τ := ⟨[], (List.append_nil τ).symm, (List.append_nil τ).symm,
    .inl ⟨fun _ ht => absurd ht (by simp), rfl⟩⟩
  rel_raise _ τ := ⟨[], (List.append_nil τ).symm, (List.append_nil τ).symm,
    .inl ⟨fun _ ht => absurd ht (by simp), rfl⟩⟩
  rel_bind := by
    intro α β x y f g hx hf τ
    obtain ⟨calls, hlog, hcut, hout⟩ := hx τ
    rcases hxτ : x τ with ⟨o, τ'⟩
    rcases hyτ : y τ with ⟨o', σ'⟩
    rw [hxτ] at hcut hout
    rw [hyτ] at hlog hout
    obtain rfl : σ' = τ ++ calls := hlog
    obtain rfl : τ' = τ ++ P.upTo n calls := hcut
    rcases hout with ⟨hcomplete, hout⟩ | ⟨hnot, hout⟩
    · obtain rfl : o = o' := hout
      rw [hcomplete.upTo] at hxτ
      cases o with
      | ok a =>
        rw [Run.bind_ok hxτ, Run.bind_ok hyτ]
        obtain ⟨calls', hlog', hcut', hout'⟩ := hf a (τ ++ calls)
        refine ⟨calls ++ calls', by rw [hlog', List.append_assoc],
          by rw [hcut', hcomplete.upTo_append, List.append_assoc], hout'.imp ?_ ?_⟩
        · rintro ⟨hcomplete', hout'⟩
          exact ⟨List.forall_mem_append.mpr ⟨hcomplete, hcomplete'⟩, hout'⟩
        · rintro ⟨hnot, hout'⟩
          exact ⟨fun h => hnot (List.forall_mem_append.mp h).2, hout'⟩
      | throw e =>
        rw [Run.bind_throw hxτ, Run.bind_throw hyτ]
        exact ⟨calls, rfl, by rw [hcomplete.upTo], .inl ⟨hcomplete, rfl⟩⟩
      | outOfFuel =>
        rw [Run.bind_outOfFuel hxτ, Run.bind_outOfFuel hyτ]
        exact ⟨calls, rfl, by rw [hcomplete.upTo], .inl ⟨hcomplete, rfl⟩⟩
    · -- the run with the cut has ended, the other one may go on
      obtain rfl : o = outOfFuel := hout
      rw [Run.bind_outOfFuel hxτ]
      have hnot' : ∀ calls', ¬ P.Complete n (calls ++ calls') :=
        fun calls' h => hnot (List.forall_mem_append.mp h).1
      cases o' with
      | ok a =>
        rw [Run.bind_ok hyτ]
        obtain ⟨calls', hlog', -, -⟩ := hf a (τ ++ calls)
        exact ⟨calls ++ calls', by rw [hlog', List.append_assoc],
          by rw [upTo_append_of_not_complete hnot], .inr ⟨hnot' calls', rfl⟩⟩
      | throw e =>
        rw [Run.bind_throw hyτ]
        exact ⟨calls, rfl, rfl, .inr ⟨hnot, rfl⟩⟩
      | outOfFuel =>
        rw [Run.bind_outOfFuel hyτ]
        exact ⟨calls, rfl, rfl, .inr ⟨hnot, rfl⟩⟩

theorem cutAt_logging (n : ℕ) (t : T) :
    (P.cutAt n).rel (logging (P.run n) t) (logging P.sem t) := by
  refine fun τ => ⟨[t], rfl, ?_, ?_⟩
  · show τ ++ [t] = τ ++ P.upTo n [t]
    by_cases ht : (P.run n t : Outcome ε (Res t)) = outOfFuel
    · rw [upTo_cons_of_cut ht]
    · rw [upTo_cons ht, upTo]
  · by_cases ht : (P.run n t : Outcome ε (Res t)) = outOfFuel
    · exact .inr ⟨fun h => h t (by simp) ht, ht⟩
    · exact .inl ⟨by simpa [Complete] using ht, (P.sem_of_run ht).symm⟩

/-- **The calls that a body makes at a depth** are those it makes, up to the first that is cut
off. -/
theorem log_run (n : ℕ) (t : T) : P.log (P.run n) t = P.upTo n (P.log P.sem t) ∧
    ((P.run (n + 1) t : Outcome ε (Res t)) ≠ outOfFuel → P.Complete n (P.log P.sem t)) := by
  obtain ⟨calls, hlog, hcut, hout⟩ := P.rel_body (P.cutAt n)
    (fun τ => ⟨[], (List.append_nil τ).symm, (List.append_nil τ).symm,
      .inl ⟨fun _ ht => absurd ht (by simp), rfl⟩⟩) (P.cutAt_logging n) t []
  have hcalls : P.log P.sem t = calls := hlog
  rw [hcalls]
  refine ⟨hcut, fun hne => (hout.resolve_right ?_).1⟩
  rintro ⟨-, hstop⟩
  rw [logging_fst] at hstop
  exact hne hstop

/-! ### The order of the calls -/

/-- The calls `ts`, one after the other, return or throw, after `k` calls in all. -/
inductive Takes : List T → ℕ → Prop
  | nil : Takes [] 0
  | cons {t : T} {ts : List T} {k n : ℕ} : P.sem t ≠ outOfFuel → Takes (P.log P.sem t) k →
      Takes ts n → Takes (t :: ts) (k + 1 + n)

/-- While the calls `ts` are carried out, one after the other, call number `i` is `t'`. -/
inductive Comes : List T → ℕ → T → Prop
  | here {t : T} {ts : List T} : Comes (t :: ts) 0 t
  | inside {t t' : T} {ts : List T} {i : ℕ} :
      Comes (P.log P.sem t) i t' → Comes (t :: ts) (i + 1) t'
  | after {t t' : T} {ts : List T} {k i : ℕ} :
      Takes P [t] k → Comes ts i t' → Comes (t :: ts) (k + i) t'

variable {P} in
theorem Takes.unique {ts : List T} {k k' : ℕ} (h : P.Takes ts k) (h' : P.Takes ts k') :
    k = k' := by
  induction h generalizing k' with
  | nil =>
    cases h'
    rfl
  | cons _ _ _ ih ih' =>
    -- both count the calls of the first one, and those of the others
    obtain - | ⟨-, hcalls, hrest⟩ := h'
    rw [ih hcalls, ih' hrest]

/-- The calls that begin while `ts` are carried out, at a depth. -/
def begunAll (n : ℕ) (ts : List T) : List T := (P.upTo n ts).flatMap (P.begun n)

section Order

variable {P} {n : ℕ} {t t' : T} {ts : List T}

theorem begun_succ : P.begun (n + 1) t = t :: P.begunAll n (P.log P.sem t) := by
  rw [begun, (P.log_run n t).1]
  rfl

theorem begunAll_cons_of_cut (h : (P.run n t : Outcome ε (Res t)) = outOfFuel) :
    P.begunAll n (t :: ts) = P.begun n t := by
  rw [begunAll, upTo_cons_of_cut h, List.flatMap_singleton]

theorem begunAll_cons (h : (P.run n t : Outcome ε (Res t)) ≠ outOfFuel) :
    P.begunAll n (t :: ts) = P.begun n t ++ P.begunAll n ts := by
  rw [begunAll, upTo_cons h, List.flatMap_cons]
  rfl

/-- What is not cut off has taken all its calls. -/
theorem takes_of_complete (h : P.Complete n ts) : P.Takes ts (P.begunAll n ts).length := by
  -- on the depth, and then on the calls
  induction n generalizing ts with
  | zero =>
    cases ts with
    | nil => exact .nil
    | cons t ts => exact absurd rfl (h t (by simp))
  | succ n ih =>
    induction ts with
    | nil => exact .nil
    | cons t ts ihts =>
      obtain ⟨ht, hts⟩ := List.forall_mem_cons.mp h
      rw [begunAll_cons ht, begun_succ, List.length_append, List.length_cons]
      refine .cons ?_ (ih ((P.log_run n t).2 ht)) (ihts hts)
      rw [P.sem_of_run ht]
      exact ht

/-- What is not cut off at a depth is not cut off at a larger one. -/
theorem run_ne_of_le {k : ℕ} (hle : n ≤ k) (h : (P.run n t : Outcome ε (Res t)) ≠ outOfFuel) :
    (P.run k t : Outcome ε (Res t)) ≠ outOfFuel := by
  have heq : (P.run n t : Outcome ε (Res t)) = P.run k t := (P.run_mono t n k hle).eq h
  exact heq ▸ h

theorem Complete.of_le {k : ℕ} (hle : n ≤ k) (h : P.Complete n ts) : P.Complete k ts :=
  fun t ht => run_ne_of_le hle (h t ht)

/-- More depth brings no calls in between, if it does not for a single call. -/
theorem begunAll_of_begun (hmono : ∀ t, P.begun n t <+: P.begun (n + 1) t)
    (hsame : ∀ t, (P.run n t : Outcome ε (Res t)) ≠ outOfFuel → P.begun (n + 1) t = P.begun n t)
    (ts : List T) : P.begunAll n ts <+: P.begunAll (n + 1) ts ∧
      (P.Complete n ts → P.begunAll (n + 1) ts = P.begunAll n ts) := by
  induction ts with
  | nil => exact ⟨List.prefix_rfl, fun _ => rfl⟩
  | cons t ts ih =>
    by_cases ht : (P.run n t : Outcome ε (Res t)) = outOfFuel
    · refine ⟨?_, fun h => absurd ht (h t (by simp))⟩
      rw [begunAll_cons_of_cut ht]
      by_cases ht' : (P.run (n + 1) t : Outcome ε (Res t)) = outOfFuel
      · rw [begunAll_cons_of_cut ht']
        exact hmono t
      · rw [begunAll_cons ht']
        exact (hmono t).trans (List.prefix_append _ _)
    · rw [begunAll_cons ht, begunAll_cons (run_ne_of_le n.le_succ ht), hsame t ht]
      refine ⟨(List.prefix_append_right_inj _).mpr ih.1, fun h => ?_⟩
      rw [ih.2 (List.forall_mem_cons.mp h).2]

/-- **More depth brings no calls in between.** -/
theorem begun_step (n : ℕ) : (∀ t, P.begun n t <+: P.begun (n + 1) t) ∧
    ∀ t, (P.run n t : Outcome ε (Res t)) ≠ outOfFuel → P.begun (n + 1) t = P.begun n t := by
  induction n with
  | zero => exact ⟨fun t => List.nil_prefix, fun t h => absurd rfl h⟩
  | succ n ih =>
    have hall := begunAll_of_begun ih.1 ih.2
    refine ⟨fun t => ?_, fun t ht => ?_⟩
    · rw [begun_succ, begun_succ]
      exact List.cons_prefix_cons.mpr ⟨rfl, (hall _).1⟩
    · rw [begun_succ, begun_succ, (hall _).2 ((P.log_run n t).2 ht)]

theorem begunAll_mono {k : ℕ} (h : n ≤ k) : P.begunAll n ts <+: P.begunAll k ts := by
  induction h with
  | refl => exact List.prefix_rfl
  | @step k _ ih => exact ih.trans (begunAll_of_begun (begun_step k).1 (begun_step k).2 ts).1

/-- What has taken its calls is not cut off at some depth. -/
theorem Takes.complete {k : ℕ} (h : P.Takes ts k) : ∃ n, P.Complete n ts := by
  induction h with
  | nil => exact ⟨0, fun _ ht => absurd ht (by simp)⟩
  | @cons t ts k n hsem _ _ _ ih =>
    obtain ⟨m, hm⟩ := ih
    obtain ⟨m', hm'⟩ := P.exists_run_eq_sem hsem
    refine ⟨max m m', List.forall_mem_cons.mpr ⟨?_, hm.of_le (Nat.le_max_left _ _)⟩⟩
    refine run_ne_of_le (Nat.le_max_right _ _) ?_
    rw [hm']
    exact hsem

/-- The calls of one of several calls are among those of all. -/
theorem begun_prefix_begunAll : P.begun n t <+: P.begunAll n (t :: ts) := by
  by_cases ht : (P.run n t : Outcome ε (Res t)) = outOfFuel
  · exact (begunAll_cons_of_cut ht).symm ▸ List.prefix_rfl
  · rw [begunAll_cons ht]
    exact List.prefix_append _ _

theorem begunAll_singleton : P.begunAll n [t] = P.begun n t := by
  by_cases ht : (P.run n t : Outcome ε (Res t)) = outOfFuel
  · exact begunAll_cons_of_cut ht
  · rw [begunAll_cons ht]
    exact List.append_nil _

/-- A call that is not cut off has taken as many calls as have begun. -/
theorem takes_singleton (h : (P.run n t : Outcome ε (Res t)) ≠ outOfFuel) :
    P.Takes [t] (P.begun n t).length := by
  rw [← begunAll_singleton]
  exact takes_of_complete (List.forall_mem_singleton.mpr h)

theorem getElem?_of_prefix {l l' : List T} {i : ℕ} (h : l <+: l') (hi : l[i]? = some t) :
    l'[i]? = some t := by
  obtain ⟨rest, rfl⟩ := h
  rw [List.getElem?_append_left (List.getElem?_eq_some_iff.mp hi).1, hi]

/-- What begins at some depth is one of the calls that the calls come to. -/
theorem comes_of_begunAll {i : ℕ} (h : (P.begunAll n ts)[i]? = some t') : P.Comes ts i t' := by
  induction n generalizing ts i with
  | zero =>
    cases ts with
    | nil => exact absurd h (by simp [begunAll, upTo])
    | cons t ts =>
      rw [begunAll_cons_of_cut rfl, begun] at h
      exact absurd h (by simp)
  | succ n ih =>
    -- the first of the calls, and those that it makes
    have hbegun : ∀ {t : T} {ts : List T} {i : ℕ}, (P.begun (n + 1) t)[i]? = some t' →
        P.Comes (t :: ts) i t' := by
      intro t ts i hi
      rw [begun_succ] at hi
      cases i with
      | zero =>
        obtain rfl := Option.some.inj hi
        exact .here
      | succ i => exact .inside (ih hi)
    induction ts generalizing i with
    | nil => exact absurd h (by simp [begunAll, upTo])
    | cons t ts ihts =>
      by_cases ht : (P.run (n + 1) t : Outcome ε (Res t)) = outOfFuel
      · rw [begunAll_cons_of_cut ht] at h
        exact hbegun h
      · rw [begunAll_cons ht] at h
        by_cases hi : i < (P.begun (n + 1) t).length
        · rw [List.getElem?_append_left hi] at h
          exact hbegun h
        · -- the first of the calls is over
          rw [List.getElem?_append_right (not_lt.mp hi)] at h
          have hcomes := Comes.after (takes_singleton ht) (ihts h)
          rwa [Nat.add_sub_cancel' (not_lt.mp hi)] at hcomes

/-- Every call that the calls come to begins at some depth. -/
theorem Comes.exists_begunAll {i : ℕ} (h : P.Comes ts i t') :
    ∃ n, (P.begunAll n ts)[i]? = some t' := by
  induction h with
  | @here t ts => exact ⟨1, getElem?_of_prefix begun_prefix_begunAll (by rw [begun_succ]; rfl)⟩
  | @inside t t' ts i _ ih =>
    obtain ⟨n, hn⟩ := ih
    refine ⟨n + 1, getElem?_of_prefix begun_prefix_begunAll ?_⟩
    rw [begun_succ]
    exact hn
  | @after t t' ts k i htakes _ ih =>
    -- a depth at which the first call is over, and the other one has begun
    obtain ⟨n, hn⟩ := ih
    obtain ⟨m, hcomplete⟩ := htakes.complete
    have ht : (P.run (max n m) t : Outcome ε (Res t)) ≠ outOfFuel :=
      hcomplete.of_le (Nat.le_max_right _ _) t List.mem_cons_self
    have hlen : (P.begun (max n m) t).length = k := (takes_singleton ht).unique htakes
    refine ⟨max n m, ?_⟩
    rw [begunAll_cons ht, List.getElem?_append_right (by omega), hlen, Nat.add_sub_cancel_left]
    exact getElem?_of_prefix (begunAll_mono (Nat.le_max_left _ _)) hn

/-- **Which calls a procedure comes to**, whatever the depth. -/
theorem exists_begun_iff_comes {i : ℕ} :
    (∃ n, (P.begun n t)[i]? = some t') ↔ P.Comes [t] i t' := by
  constructor
  · rintro ⟨n, hn⟩
    rw [← begunAll_singleton] at hn
    exact comes_of_begunAll hn
  · intro h
    obtain ⟨n, hn⟩ := h.exists_begunAll
    exact ⟨n, begunAll_singleton (P := P) ▸ hn⟩

end Order

end Procedures

end Effectful
