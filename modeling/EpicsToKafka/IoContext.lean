/-
An event loop that serves the waits of one timer: waits are armed, become due
when the timer expires or is cancelled, and one thread calls their handlers
one after the other until no work is left or the loop is told to stop.  What
a handler does is a program of the user, given by its program counters.
-/
import Mathlib.Data.List.Basic

namespace IoContext

universe u

/-- The thread that runs the loop. -/
inductive Runner (P : Type u) where
  | notStarted
  | polling
  | handling (pc : P)
  | returned
deriving Repr, DecidableEq

/-- `due` holds the handlers that can be called, each with whether its wait
was cancelled.  A loop that has run out of work counts as stopped. -/
structure Context (P : Type u) where
  armed : Nat
  due : List Bool
  stopped : Bool
  runner : Runner P
deriving Repr, DecidableEq

variable {P : Type u}

def Runner.active : Runner P → Nat
  | .handling _ => 1
  | _ => 0

def Runner.hasReturned : Runner P → Bool
  | .returned => true
  | _ => false

namespace Context

def initial : Context P := ⟨0, [], false, .notStarted⟩

def asyncWait (io : Context P) : Context P :=
  { io with armed := io.armed + 1 }

/-- The waits that are armed become due, all at once. -/
def complete (io : Context P) (cancelled : Bool) : Context P :=
  { io with armed := 0, due := io.due ++ List.replicate io.armed cancelled }

/-- The time of the timer comes. -/
def expire (io : Context P) : Option (Context P) :=
  if 0 < io.armed then some (io.complete false) else none

def cancel (io : Context P) : Context P :=
  io.complete true

def stop (io : Context P) : Context P :=
  { io with stopped := true }

/-- A new thread enters the loop. -/
def spawn (io : Context P) : Context P :=
  { io with runner := .polling }

/-- The loop between two handlers: it returns when it is stopped or has no
work, and calls the next handler that is due otherwise. -/
def poll (enter : Bool → P) (io : Context P) : Option (Context P) :=
  if io.stopped then some { io with runner := .returned }
  else match io.due with
    | cancelled :: due => some { io with due, runner := .handling (enter cancelled) }
    | [] => if io.armed = 0 then some { io with stopped := true, runner := .returned }
      else none

/-- The handler returns to the loop. -/
def finish (io : Context P) : Context P :=
  { io with runner := .polling }

def goto (io : Context P) (pc : P) : Context P :=
  { io with runner := .handling pc }

/-- Waits that have not been handled to the end. -/
def outstanding (io : Context P) : Nat :=
  io.armed + io.due.length + io.runner.active

@[simp] theorem stopped_asyncWait (io : Context P) : io.asyncWait.stopped = io.stopped := rfl

@[simp] theorem stopped_complete (io : Context P) (cancelled : Bool) :
    (io.complete cancelled).stopped = io.stopped := rfl

@[simp] theorem stopped_cancel (io : Context P) : io.cancel.stopped = io.stopped := rfl

@[simp] theorem stopped_spawn (io : Context P) : io.spawn.stopped = io.stopped := rfl

@[simp] theorem stopped_goto (io : Context P) (pc : P) : (io.goto pc).stopped = io.stopped := rfl

@[simp] theorem stopped_finish (io : Context P) : io.finish.stopped = io.stopped := rfl

@[simp] theorem outstanding_initial : (initial : Context P).outstanding = 0 := rfl

@[simp] theorem outstanding_asyncWait (io : Context P) :
    io.asyncWait.outstanding = io.outstanding + 1 := by
  simp only [outstanding, asyncWait]
  omega

@[simp] theorem outstanding_complete (io : Context P) (cancelled : Bool) :
    (io.complete cancelled).outstanding = io.outstanding := by
  simp only [outstanding, complete, List.length_append, List.length_replicate]
  omega

@[simp] theorem outstanding_cancel (io : Context P) :
    io.cancel.outstanding = io.outstanding :=
  outstanding_complete io true

theorem outstanding_spawn {io : Context P} (hidle : io.runner.active = 0) :
    io.spawn.outstanding = io.outstanding := by
  rw [outstanding, outstanding, hidle]
  rfl

theorem outstanding_goto {io : Context P} {pc : P} (hrunner : io.runner = .handling pc)
    (next : P) : (io.goto next).outstanding = io.outstanding := by
  simp only [outstanding, goto, hrunner, Runner.active]

theorem outstanding_finish {io : Context P} {pc : P} (hrunner : io.runner = .handling pc) :
    io.finish.outstanding + 1 = io.outstanding := by
  simp only [outstanding, finish, hrunner, Runner.active]

theorem outstanding_dispatch {io : Context P} {cancelled : Bool} {due : List Bool}
    (hrunner : io.runner = .polling) (hdue : io.due = cancelled :: due) (pc : P) :
    ({ io with due, runner := .handling pc } : Context P).outstanding = io.outstanding := by
  simp only [outstanding, hrunner, hdue, Runner.active, List.length_cons]
  omega

/-- What the loop can do between two handlers. -/
theorem poll_cases {enter : Bool → P} {io io' : Context P}
    (hpoll : io.poll enter = some io') :
    (io' = { io with stopped := true, runner := .returned } ∧
        (io.stopped = true ∨ io.armed = 0 ∧ io.due = [])) ∨
      ∃ cancelled due, io.stopped = false ∧ io.due = cancelled :: due ∧
        io' = { io with due, runner := .handling (enter cancelled) } := by
  unfold poll at hpoll
  split at hpoll
  · rename_i hstopped
    cases hpoll
    refine Or.inl ⟨?_, Or.inl hstopped⟩
    rw [hstopped]
  · rename_i hstopped
    split at hpoll
    · rename_i cancelled due hdue
      cases hpoll
      exact Or.inr ⟨cancelled, due, by simpa using hstopped, hdue, rfl⟩
    · rename_i hdue
      split at hpoll
      · rename_i harmed
        cases hpoll
        exact Or.inl ⟨rfl, Or.inr ⟨harmed, hdue⟩⟩
      · cases hpoll

end Context

end IoContext
