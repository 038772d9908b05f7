import SyncBridge.Footprints

/-!
# Operations that run alone

One operation after another, with no other thread in between. What happens at a
call is still open: time passes, clients write files, the call may be rejected,
and random bytes are drawn. `serve` answers a call under one such turn, and a
turn is what the machine's outside steps and one resumed call do.
-/

namespace SoloRuns

open AwaitPrograms Entities Database Calls Orchestrator Footprints

/-- The time that passes and the files that are written before a call, and what
is left open about the call itself. -/
structure Turn where
  elapsed : Nat := 0
  written : List (String × Entry) := []
  choice : Choice := {}

def Turn.before (turn : Turn) (s : State) : State :=
  { s with
    host := { s.host with now := s.host.now + turn.elapsed }
    files := turn.written ++ s.files }

/-- A state and the turns of the calls still to come. -/
structure Solo where
  state : State
  turns : Nat → Turn

/-- A call that would wait for a lock; nobody is left to release it. -/
def blocked : Err := .other "QueryFailedError" "canceling statement due to lock timeout"

/-- What is left open about a call, where only some calls are ever rejected. -/
def Turn.choiceFor (turn : Turn) (mayReject : Op → Bool) (op : Op) : Choice :=
  if mayReject op then turn.choice else { turn.choice with fault := none }

def serve (env : Env) (pid : Nat) (mayReject : Op → Bool) (x : Solo) (op : Op) :
    Except Err op.Ans × Solo :=
  let s := (x.turns 0).before x.state
  match exec env pid op ((x.turns 0).choiceFor mayReject op) s with
  | none => (.error blocked, ⟨s, fun n => x.turns (n + 1)⟩)
  | some (a, s') => (a, ⟨s', fun n => x.turns (n + 1)⟩)

/-- Run a program to its end. -/
def runAlone {α : Type} (env : Env) (pid : Nat) (mayReject : Op → Bool) (p : Async α) (x : Solo) :
    Except Err α × Solo :=
  p.run (serve env pid mayReject) x

/-- Any call may be rejected. -/
def anyCall (_ : Op) : Bool := true

@[simp] theorem before_db (turn : Turn) (s : State) : (turn.before s).db = s.db := rfl

@[simp] theorem before_queues (turn : Turn) (s : State) : (turn.before s).queues = s.queues := rfl

@[simp] theorem before_kafka (turn : Turn) (s : State) : (turn.before s).kafka = s.kafka := rfl

@[simp] theorem before_store (turn : Turn) (s : State) : (turn.before s).store = s.store := rfl

section Turns
variable {env : Env} {pid : Nat} {mayReject : Op → Bool} {x : Solo} {op : Op}

theorem serve_eq {a : Except Err op.Ans} {s' : State}
    (h : exec env pid op ((x.turns 0).choiceFor mayReject op) ((x.turns 0).before x.state) =
      some (a, s')) :
    serve env pid mayReject x op = (a, ⟨s', fun n => x.turns (n + 1)⟩) := by
  simp only [serve, h]

/-- A call that is never rejected does what it is for. -/
theorem serve_spared {a : Except Err op.Ans} {y : State} (spared : mayReject op = false)
    (h : perform env pid ((x.turns 0).choiceFor mayReject op) ((x.turns 0).before x.state) op =
      some (a, y)) :
    serve env pid mayReject x op = (a, ⟨y, fun n => x.turns (n + 1)⟩) := by
  refine serve_eq ?_
  have : ((x.turns 0).choiceFor mayReject op).fault = none := by simp [Turn.choiceFor, spared]
  simp only [exec, this]
  exact h

@[simp] theorem serve_turns :
    (serve env pid mayReject x op).2.turns = fun n => x.turns (n + 1) := by
  unfold serve
  dsimp only
  split <;> rfl

/-- A property of states that time, clients and the call keep is kept by the turn. -/
theorem serve_keeps {I : State → Prop} (before : I ((x.turns 0).before x.state))
    (step : ∀ c a s', exec env pid op c ((x.turns 0).before x.state) = some (a, s') → I s') :
    I (serve env pid mayReject x op).2.state := by
  unfold serve
  dsimp only
  split
  · exact before
  · rename_i a s' h
    exact step _ a s' h

/-- A value was answered by the call itself. -/
theorem serve_ok {v : op.Ans} {y : Solo} (h : serve env pid mayReject x op = (.ok v, y)) :
    ∃ c, exec env pid op c ((x.turns 0).before x.state) = some (.ok v, y.state) := by
  unfold serve at h
  dsimp only at h
  split at h
  · cases h
  · rename_i a s' hexec
    cases h
    exact ⟨_, hexec⟩

end Turns

end SoloRuns
