/-
Commelec/Lib/Framing.lean

Servers on a byte stream.  The library names nothing of the program it is used for.

A server reads a request with a sequence of reads, each for a number of bytes that may depend on
what it has read before, and writes a reply.  The bytes arrive in pieces that have nothing to do
with the reads: a read waits until there are enough of them, and bytes that arrive during a write
wait until they are read.

* `Reads.advance_append` — a sequence of reads can be interrupted anywhere;
* `Server.serve` — the replies to a stream of which all bytes are there;
* `Server.run_serves` — **pieces make no difference**: what a server has written is the first
  part of the replies to the bytes received, and all of them when it waits for more;
* `Server.run_completes` — nothing but the writes delays the replies.
-/
import Commelec.Lib.Machine
import Mathlib.Data.List.TakeDrop

namespace Effectful

variable {β ρ ω : Type}

/-- A sequence of reads, each for `n` symbols, and its result. -/
inductive Reads (β ρ : Type) where
  | done (r : ρ)
  | read (n : ℕ) (next : List β → Reads β ρ)

namespace Reads

/-- Make the reads for which there are enough symbols. -/
def advance : Reads β ρ → List β → Reads β ρ × List β
  | done r, input => (done r, input)
  | read n next, input =>
    if n ≤ input.length then (next (input.take n)).advance (input.drop n)
    else (read n next, input)

/-- **Interrupting the reads makes no difference.** -/
theorem advance_append (p : Reads β ρ) (a b : List β) :
    p.advance (a ++ b) = (p.advance a).1.advance ((p.advance a).2 ++ b) := by
  induction p generalizing a with
  | done r => rfl
  | read n next ih =>
    by_cases h : n ≤ a.length
    · have h' : n ≤ (a ++ b).length := by
        rw [List.length_append]
        omega
      rw [advance, if_pos h', List.take_append_of_le_length h, List.drop_append_of_le_length h, ih,
        advance, if_pos h]
    · -- the read waits for `b`
      rw [show (read n next).advance a = (read n next, a) from if_neg h]

/-- What is left when the reads have been made is not enough for the next one. -/
theorem advance_waits {p : Reads β ρ} {input rest : List β} {n : ℕ} {next : List β → Reads β ρ}
    (h : p.advance input = (read n next, rest)) : rest.length < n := by
  induction p generalizing input with
  | done r => cases h
  | read m next' ih =>
    rw [advance] at h
    split at h
    · exact ih _ h
    · next hlt =>
      obtain ⟨hread, rfl⟩ := Prod.mk.inj h
      obtain ⟨rfl, -⟩ := Reads.read.inj hread
      omega

/-- A read takes its symbols from the front of the input. -/
theorem advance_read {n : ℕ} {taken : List β} (h : taken.length = n) (next : List β → Reads β ρ)
    (rest : List β) : (read n next).advance (taken ++ rest) = (next taken).advance rest := by
  rw [advance, if_pos (by rw [List.length_append]; omega), List.take_left' h, List.drop_left' h]

theorem length_advance_le (p : Reads β ρ) (input : List β) :
    (p.advance input).2.length ≤ input.length := by
  induction p generalizing input with
  | done r => exact Nat.le_refl _
  | read n next ih =>
    rw [advance]
    split
    · apply Nat.le_trans (ih _ _)
      rw [List.length_drop]
      exact Nat.sub_le _ _
    · exact Nat.le_refl _

/-- A first read for at least one symbol makes the input shorter. -/
theorem advance_lt {n : ℕ} (hn : 0 < n) {next : List β → Reads β ρ} {input rest : List β} {r : ρ}
    (h : (read n next).advance input = (done r, rest)) : rest.length < input.length := by
  rw [advance] at h
  split at h
  · next hle =>
    have hrest : rest.length ≤ (input.drop n).length := by
      have hadvance := length_advance_le (next (input.take n)) (input.drop n)
      rwa [h] at hadvance
    rw [List.length_drop] at hrest
    show rest.length < input.length
    omega
  · cases h

end Reads

/-- A server that replies to one request after the other. -/
structure Server (β ρ ω : Type) where
  request : Reads β ρ
  /-- without a reply, the connection is closed -/
  reply : ρ → Option ω
  progress {input rest : List β} {r : ρ} :
    request.advance input = (.done r, rest) → rest.length < input.length

namespace Server

inductive Mode (β ρ ω : Type) where
  | reading (p : Reads β ρ)
  | writing (w : ω)
  | closed

/-- The symbols in `unread` have arrived. -/
structure State (β ρ ω : Type) where
  mode : Mode β ρ ω
  unread : List β

inductive Event (β : Type) where
  | receive (piece : List β)
  /-- the write under way is over -/
  | written
  /-- the connection is lost, or closed by a timer -/
  | hangUp

variable (server : Server β ρ ω)

/-- Go on with the reads `p`.  The client is told `none` when the connection is closed. -/
def proceed (p : Reads β ρ) (input : List β) : State β ρ ω × List (Option ω) :=
  match p.advance input with
  | (.done r, rest) =>
    match server.reply r with
    | some w => (⟨.writing w, rest⟩, [])
    | none => (⟨.closed, rest⟩, [none])
  | (p, rest) => (⟨.reading p, rest⟩, [])

def step : Machine (State β ρ ω) (Event β) (Option ω)
  | .receive piece, ⟨.reading p, unread⟩ => some (server.proceed p (unread ++ piece))
  | .receive piece, ⟨.writing w, unread⟩ => some (⟨.writing w, unread ++ piece⟩, [])
  | .written, ⟨.writing w, unread⟩ =>
    let next := server.proceed server.request unread
    some (next.1, some w :: next.2)
  | .hangUp, ⟨.reading _, unread⟩ => some (⟨.closed, unread⟩, [])
  | .hangUp, ⟨.writing _, unread⟩ => some (⟨.closed, unread⟩, [])
  | _, _ => none

def start : State β ρ ω := (server.proceed server.request []).1

/-- The symbols that have arrived. -/
def received (es : List (Event β)) : List β :=
  es.flatMap fun
    | .receive piece => piece
    | _ => []

/-! ### The replies to a stream -/

/-- The replies to the requests in the input; `none` if there is a request without reply. -/
def serve (input : List β) : List (Option ω) :=
  match _h : server.request.advance input with
  | (.done r, rest) =>
    match server.reply r with
    | some w => some w :: serve rest
    | none => [none]
  | (.read _ _, _) => []
termination_by input.length
decreasing_by exact server.progress _h

/-- The replies, from the middle of a request on. -/
def serveFrom (p : Reads β ρ) (input : List β) : List (Option ω) :=
  match p.advance input with
  | (.done r, rest) =>
    match server.reply r with
    | some w => some w :: server.serve rest
    | none => [none]
  | (.read _ _, _) => []

variable {server}

theorem serveFrom_request (input : List β) :
    server.serveFrom server.request input = server.serve input := by
  rw [serve, serveFrom]
  split
  · next h => rw [h]
  · next h => rw [h]

/-- A request that has been read. -/
theorem serve_done {input rest : List β} {r : ρ}
    (h : server.request.advance input = (.done r, rest)) :
    server.serve input = (server.reply r).elim [none] fun w => some w :: server.serve rest := by
  rw [← serveFrom_request, serveFrom, h]
  dsimp only
  cases server.reply r <;> rfl

theorem serve_nil : server.serve [] = [] := by
  rw [← serveFrom_request, serveFrom]
  rcases hp : server.request.advance [] with ⟨r | ⟨n, next⟩, rest⟩
  · exact absurd (server.progress hp) (Nat.not_lt_zero _)
  · rfl

/-- What a server is going to write when the symbols `more` arrive. -/
def State.replies (server : Server β ρ ω) (s : State β ρ ω) (more : List β) : List (Option ω) :=
  match s.mode with
  | .reading p => server.serveFrom p (s.unread ++ more)
  | .writing w => some w :: server.serve (s.unread ++ more)
  | .closed => []

/-- What going on with `p` can lead to. -/
inductive Proceeds (server : Server β ρ ω) (p : Reads β ρ) (input : List β) :
    State β ρ ω × List (Option ω) → Prop
  | waits {n next rest} : p.advance input = (.read n next, rest) → rest.length < n →
      Proceeds server p input (⟨.reading (.read n next), rest⟩, [])
  | replies {r w rest} : p.advance input = (.done r, rest) → server.reply r = some w →
      Proceeds server p input (⟨.writing w, rest⟩, [])
  | closes {r rest} : p.advance input = (.done r, rest) → server.reply r = none →
      Proceeds server p input (⟨.closed, rest⟩, [none])

theorem proceed_cases {p : Reads β ρ} {input : List β} {x : State β ρ ω × List (Option ω)}
    (h : server.proceed p input = x) : Proceeds server p input x := by
  rw [← h, proceed]
  rcases hp : p.advance input with ⟨r | ⟨n, next⟩, rest⟩
  · dsimp only
    rcases hr : server.reply r with - | w
    · exact .closes hp hr
    · exact .replies hp hr
  · exact .waits hp (Reads.advance_waits hp)

theorem replies_proceed (p : Reads β ρ) (input more : List β) :
    (server.proceed p input).2 ++ (server.proceed p input).1.replies server more
      = server.serveFrom p (input ++ more) := by
  rw [serveFrom, Reads.advance_append]
  generalize hx : server.proceed p input = x
  cases proceed_cases hx with
  | waits hp _ =>
    rw [hp]
    rfl
  | replies hp hr =>
    rw [hp]
    simp [State.replies, Reads.advance, hr]
  | closes hp hr =>
    rw [hp]
    simp [State.replies, Reads.advance, hr]

/-- At the start there is nothing to reply to. -/
theorem proceed_start : server.proceed server.request [] = (server.start, []) := by
  rw [start]
  generalize hx : server.proceed server.request [] = x
  cases proceed_cases hx with
  | waits _ _ => rfl
  | replies hp _ => exact absurd (server.progress hp) (Nat.not_lt_zero _)
  | closes hp _ => exact absurd (server.progress hp) (Nat.not_lt_zero _)

theorem replies_start (more : List β) : server.start.replies server more = server.serve more := by
  have h : (server.proceed server.request []).2
      ++ (server.proceed server.request []).1.replies server more
        = server.serveFrom server.request ([] ++ more) := replies_proceed _ _ _
  rwa [proceed_start, List.nil_append, List.nil_append, serveFrom_request] at h

/-! ### Runs -/

variable {s s' : State β ρ ω} {e : Event β} {es : List (Event β)} {os : List (Option ω)}

/-- What a step can be. -/
inductive Step (server : Server β ρ ω) :
    State β ρ ω → Event β → State β ρ ω → List (Option ω) → Prop
  | read {p unread piece} : Step server ⟨.reading p, unread⟩ (.receive piece)
      (server.proceed p (unread ++ piece)).1 (server.proceed p (unread ++ piece)).2
  | queue {w unread piece} : Step server ⟨.writing w, unread⟩ (.receive piece)
      ⟨.writing w, unread ++ piece⟩ []
  | write {w unread} : Step server ⟨.writing w, unread⟩ .written
      (server.proceed server.request unread).1
      (some w :: (server.proceed server.request unread).2)
  | hangUp {mode unread} : mode ≠ .closed → Step server ⟨mode, unread⟩ .hangUp ⟨.closed, unread⟩ []

theorem step_cases (h : server.step e s = some (s', os)) : Step server s e s' os := by
  obtain ⟨mode, unread⟩ := s
  cases e with
  | receive piece =>
    cases mode with
    | reading p =>
      obtain ⟨rfl, rfl⟩ := Prod.mk.inj (Option.some.inj h)
      exact .read
    | writing w =>
      obtain ⟨rfl, rfl⟩ := Prod.mk.inj (Option.some.inj h)
      exact .queue
    | closed => cases h
  | written =>
    cases mode with
    | writing w =>
      obtain ⟨rfl, rfl⟩ := Prod.mk.inj (Option.some.inj h)
      exact .write
    | reading p => cases h
    | closed => cases h
  | hangUp =>
    cases mode with
    | closed => cases h
    | _ =>
      obtain ⟨rfl, rfl⟩ := Prod.mk.inj (Option.some.inj h)
      exact .hangUp (by simp)

/-- **A step** takes nothing away from the replies, unless the connection is lost. -/
theorem Step.serves (h : Step server s e s' os) (more : List β) :
    s.replies server (received [e] ++ more) = os ++ s'.replies server more ∨
      s'.mode = .closed ∧ os = [] := by
  cases h with
  | @read p unread piece =>
    left
    rw [replies_proceed, List.append_assoc, received, List.flatMap_singleton]
    rfl
  | @queue w unread piece =>
    left
    show some w :: server.serve (unread ++ (piece ++ [] ++ more)) = some w :: server.serve _
    rw [List.append_nil, List.append_assoc]
  | write =>
    left
    rw [List.cons_append, replies_proceed, serveFrom_request]
    rfl
  | hangUp _ => exact .inr ⟨rfl, rfl⟩

/-- A closed connection stays closed. -/
theorem run_closed (h : server.step.run es s = some (s', os)) (hclosed : s.mode = .closed) :
    s' = s ∧ os = [] := by
  cases es with
  | nil =>
    obtain ⟨rfl, rfl⟩ : s = s' ∧ [] = os := by simpa [Machine.run] using h
    exact ⟨rfl, rfl⟩
  | cons e es =>
    obtain ⟨s₁, os₁, os₂, he, -, -⟩ := Machine.run_cons.mp h
    cases step_cases he with
    | hangUp hlive => exact absurd hclosed hlive
    | _ => cases hclosed

theorem received_cons (e : Event β) (es : List (Event β)) :
    received (e :: es) = received [e] ++ received es := by
  rw [received, received, received, List.flatMap_cons, List.flatMap_singleton]

/-- **A run**: what has been written, and what is going to be, are the replies to what has
arrived. -/
theorem run_replies (h : server.step.run es s = some (s', os)) (more : List β) :
    s.replies server (received es ++ more) = os ++ s'.replies server more ∨
      s'.mode = .closed ∧ os <+: s.replies server (received es ++ more) := by
  induction es generalizing s os with
  | nil =>
    obtain ⟨rfl, rfl⟩ : s = s' ∧ [] = os := by simpa [Machine.run] using h
    exact .inl rfl
  | cons e es ih =>
    obtain ⟨s₁, os₁, os₂, he, hes, rfl⟩ := Machine.run_cons.mp h
    rw [received_cons, List.append_assoc]
    rcases (step_cases he).serves (received es ++ more) with hstep | ⟨hclosed, rfl⟩
    · rw [hstep, List.append_assoc]
      rcases ih hes with hrun | ⟨hclosed, hrun⟩
      · exact .inl (by rw [hrun])
      · exact .inr ⟨hclosed, (List.prefix_append_right_inj os₁).mpr hrun⟩
    · -- nothing happens after the connection has been lost
      obtain ⟨rfl, rfl⟩ := run_closed hes hclosed
      exact .inr ⟨hclosed, List.nil_prefix⟩

/-- A server that waits for symbols has made all the reads it can make. -/
def State.Settled (s : State β ρ ω) : Prop :=
  ∀ p, s.mode = .reading p → ∃ n next, p = .read n next ∧ s.unread.length < n

theorem settled_proceed (p : Reads β ρ) (input : List β) :
    (server.proceed p input).1.Settled := by
  generalize hx : server.proceed p input = x
  intro q hq
  cases proceed_cases hx with
  | waits _ hlt => exact ⟨_, _, (Mode.reading.inj hq).symm, hlt⟩
  | replies _ _ => cases hq
  | closes _ _ => cases hq

/-- What a step leaves: it has made the reads, and `none` has been said only at the end. -/
theorem Step.settled (h : Step server s e s' os) :
    s'.Settled ∧ (none ∈ os → s'.mode = .closed) := by
  have hnone (p : Reads β ρ) (input : List β) (hmem : none ∈ (server.proceed p input).2) :
      (server.proceed p input).1.mode = .closed := by
    generalize hx : server.proceed p input = x at hmem ⊢
    cases proceed_cases hx with
    | closes _ _ => rfl
    | waits _ _ => exact absurd hmem List.not_mem_nil
    | replies _ _ => exact absurd hmem List.not_mem_nil
  cases h with
  | read => exact ⟨settled_proceed _ _, hnone _ _⟩
  | queue => exact ⟨fun p hp => (by cases hp), fun h => absurd h List.not_mem_nil⟩
  | write =>
    refine ⟨settled_proceed _ _, fun h => hnone _ _ ?_⟩
    simpa using h
  | hangUp _ => exact ⟨fun p hp => (by cases hp), fun h => absurd h List.not_mem_nil⟩

theorem run_settled (h : server.step.run es s = some (s', os)) (hs : s.Settled) :
    s'.Settled ∧ (none ∈ os → s'.mode = .closed) := by
  induction es generalizing s os with
  | nil =>
    obtain ⟨rfl, rfl⟩ : s = s' ∧ [] = os := by simpa [Machine.run] using h
    exact ⟨hs, fun h => absurd h List.not_mem_nil⟩
  | cons e es ih =>
    obtain ⟨s₁, os₁, os₂, he, hes, rfl⟩ := Machine.run_cons.mp h
    obtain ⟨hsettled, hnone⟩ := (step_cases he).settled
    obtain ⟨hsettled', hnone'⟩ := ih hes hsettled
    refine ⟨hsettled', fun hmem => ?_⟩
    rcases List.mem_append.mp hmem with hmem | hmem
    · have hclosed := hnone hmem
      obtain ⟨rfl, -⟩ := run_closed hes hclosed
      exact hclosed
    · exact hnone' hmem

theorem settled_start : server.start.Settled := settled_proceed _ _

/-- A server that does not write has replied to everything. -/
theorem replies_idle (hs : s.Settled) (hidle : ∀ w, s.mode ≠ .writing w) :
    s.replies server [] = [] := by
  rcases hmode : s.mode with p | w | -
  · obtain ⟨n, next, rfl, hlt⟩ := hs p hmode
    rw [State.replies, hmode, List.append_nil]
    dsimp only
    rw [serveFrom, Reads.advance, if_neg (by omega)]
  · exact absurd hmode (hidle w)
  · rw [State.replies, hmode]

/-- **Pieces make no difference.**  What has been written is the first part of the replies to the
symbols received; and when the server waits for more, it is all of them. -/
theorem run_serves (h : server.step.run es server.start = some (s', os)) :
    os <+: server.serve (received es) ∧
      ∀ p, s'.mode = .reading p → os = server.serve (received es) ∧ none ∉ os := by
  have hrun := run_replies h []
  rw [List.append_nil, replies_start] at hrun
  obtain ⟨hsettled, hnone⟩ := run_settled h settled_start
  constructor
  · rcases hrun with hrun | ⟨-, hrun⟩
    · exact ⟨_, hrun.symm⟩
    · exact hrun
  · intro p hp
    refine ⟨?_, fun hmem => by cases hp.symm.trans (hnone hmem)⟩
    rcases hrun with hrun | ⟨hclosed, -⟩
    · have hidle : ∀ w, s'.mode ≠ .writing w := fun w hw => by cases hp.symm.trans hw
      rw [hrun, replies_idle hsettled hidle, List.append_nil]
    · cases hp.symm.trans hclosed

/-- **Nothing but the writes delays the replies**: when they are over, the server has written all
replies to what has arrived. -/
theorem run_drain (hs : s.Settled) :
    ∃ n s', server.step.run (List.replicate n .written) s = some (s', s.replies server []) ∧
      ∀ w, s'.mode ≠ .writing w := by
  induction hlen : s.unread.length using Nat.strongRecOn generalizing s with
  | _ len ih =>
    by_cases hidle : ∀ w, s.mode ≠ .writing w
    · rw [replies_idle hs hidle]
      exact ⟨0, s, rfl, hidle⟩
    obtain ⟨w, hw⟩ := not_forall_not.mp hidle
    obtain ⟨mode, unread⟩ := s
    obtain rfl : mode = .writing w := hw
    have hstep : server.step .written ⟨.writing w, unread⟩
        = some ((server.proceed server.request unread).1,
          some w :: (server.proceed server.request unread).2) := rfl
    have hreplies : (State.mk (.writing w) unread).replies server []
        = (some w :: (server.proceed server.request unread).2)
          ++ (server.proceed server.request unread).1.replies server [] := by
      rw [List.cons_append, replies_proceed, serveFrom_request]
      rfl
    have hsettled : (server.proceed server.request unread).1.Settled := settled_proceed _ _
    -- either this was the last reply, or there is less to be read
    by_cases hnext : ∀ w, (server.proceed server.request unread).1.mode ≠ .writing w
    · refine ⟨1, _, Machine.run_cons.mpr ⟨_, _, [], hstep, rfl, ?_⟩, hnext⟩
      rw [hreplies, replies_idle hsettled hnext]
    · have hlt : (server.proceed server.request unread).1.unread.length < len := by
        rw [← hlen]
        generalize hx : server.proceed server.request unread = x at hnext ⊢
        cases proceed_cases hx with
        | replies hp _ => exact server.progress hp
        | waits _ _ => exact absurd (fun _ => by simp) hnext
        | closes _ _ => exact absurd (fun _ => by simp) hnext
      obtain ⟨n, s', hrun, hidle'⟩ := ih _ hlt hsettled rfl
      exact ⟨n + 1, s', Machine.run_cons.mpr ⟨_, _, _, hstep, hrun, hreplies⟩, hidle'⟩

/-- So, while the connection is open, the replies to everything received can be completed. -/
theorem run_completes (h : server.step.run es server.start = some (s', os))
    (hopen : s'.mode ≠ .closed) :
    ∃ n s'' os', server.step.run (List.replicate n .written) s' = some (s'', os') ∧
      os ++ os' = server.serve (received es) ∧ ∀ w, s''.mode ≠ .writing w := by
  obtain ⟨n, s'', hdrain, hidle⟩ := run_drain (run_settled h settled_start).1
  refine ⟨n, s'', _, hdrain, ?_, hidle⟩
  have hrun := run_replies h []
  rw [List.append_nil, replies_start] at hrun
  rcases hrun with hrun | ⟨hclosed, -⟩
  · exact hrun.symm
  · exact absurd hclosed hopen

end Server

end Effectful
