/-
One `KafkaW::Producer` shared by any number of producer topics.  The threads
that call `ProducerTopic::produce` interleave with polls, which may run on any
thread and deliver the reports of accepted messages.  A step of `produce` ends
where another thread can see its effect.
-/
import EpicsToKafka.Transition
import EpicsToKafka.Threads
import Mathlib.Data.Fintype.Sum

namespace EpicsToKafka.KafkaW

/-- The answers of librdkafka that `produce` tells apart. -/
inductive ErrorCode where
  | noError
  | queueFull
  | msgSizeTooLarge
  | other (code : Int)
deriving Repr, DecidableEq

structure ProducerMessage where
  size : Nat := 0
  key : String := ""
deriving Repr, DecidableEq

/-- The atomic counters, read without their wrap-around. -/
structure ProducerStats where
  produced : Nat := 0
  produceFail : Nat := 0
  localQueueFull : Nat := 0
  produceCb : Nat := 0
  produceCbFail : Nat := 0
  pollServed : Nat := 0
  msgTooLarge : Nat := 0
  producedBytes : Nat := 0
  outQueue : Nat := 0
deriving Repr, DecidableEq

/-- Who has to free a message: the `unique_ptr` of the thread that made it, or
whoever gets the report from librdkafka. -/
inductive Owner (n : Nat) where
  | caller (k : Fin n)
  | librdkafka
  | freed
deriving Repr, DecidableEq

/-- One call of `produce`; the key is the one handed to librdkafka. -/
structure Call where
  topic : String
  message : Nat
  key : Option String := none
deriving Repr, DecidableEq

/-- Where a thread stands in `produce`.  After `failed` the caller still has
to destroy its message. -/
inductive ProducePc where
  | idle
  | entered (call : Call)
  | polling (call : Call)
  | sending (call : Call)
  | answered (call : Call) (code : ErrorCode)
  | produced (call : Call)
  | sized (call : Call)
  | failed (call : Call)
deriving Repr, DecidableEq

/-- `n` threads that produce and `m` that poll.  `callback` is the message a
running `dr_cb` is about to delete.  The last five fields are history. -/
structure State (n m : Nat) where
  heap : Nat → ProducerMessage
  owner : Nat → Owner n
  nextMessage : Nat
  stats : ProducerStats
  totalMessagesProduced : Nat
  thread : Fin n → ProducePc
  polls : Fin m → Bool
  callback : Fin n ⊕ Fin m → Option Nat
  accepted : List Call
  reported : List Nat
  returned : List Nat
  freed : List Nat
  readFreed : Bool

variable {n m : Nat}

def State.initial (n m : Nat) : State n m where
  heap _ := {}
  owner _ := .freed
  nextMessage := 0
  stats := {}
  totalMessagesProduced := 0
  thread _ := .idle
  polls _ := false
  callback _ := none
  accepted := []
  reported := []
  returned := []
  freed := []
  readFreed := false

namespace State

def setThread (s : State n m) (k : Fin n) (pc : ProducePc) : State n m :=
  { s with thread := Function.update s.thread k pc }

/-- A field of the message is read. -/
def read (s : State n m) (message : Nat) : State n m :=
  { s with readFreed := s.readFreed || s.owner message = .freed }

def free (s : State n m) (message : Nat) : State n m :=
  { s with
    owner := Function.update s.owner message .freed
    freed := s.freed ++ [message] }

/-- `ProducerTopic::produce` is called with a message of its own. -/
def produce (s : State n m) (k : Fin n) (topic : String) (message : ProducerMessage) :
    Option (State n m) :=
  if s.thread k = .idle then
    some { s.setThread k (.entered ⟨topic, s.nextMessage, none⟩) with
      heap := Function.update s.heap s.nextMessage message
      owner := Function.update s.owner s.nextMessage (.caller k)
      nextMessage := s.nextMessage + 1 }
  else none

/-- The key, the data and the size are read, and `Producer::produce` starts
with a poll. -/
def readFields (s : State n m) (k : Fin n) : Option (State n m) :=
  match s.thread k with
  | .entered call =>
      let key := (s.heap call.message).key
      some ((s.read call.message).setThread k
        (.polling { call with key := if key = "" then none else some key }))
  | _ => none

/-- `ProducerPtr->poll(0)` inside `Producer::produce` returns. -/
def polled (s : State n m) (k : Fin n) : Option (State n m) :=
  match s.thread k with
  | .polling call =>
      if s.callback (.inl k) = none then some (s.setThread k (.sending call))
      else none
  | _ => none

/-- librdkafka's own `produce` answers; the message is its from then on if it
was accepted. -/
def answer (s : State n m) (k : Fin n) (code : ErrorCode) : Option (State n m) :=
  match s.thread k with
  | .sending call =>
      match code with
      | .noError =>
          some { s.setThread k (.answered call .noError) with
            owner := Function.update s.owner call.message .librdkafka
            accepted := s.accepted ++ [call] }
      | code => some (s.setThread k (.answered call code))
  | _ => none

/-- The next counter update of a call.  What follows the last one touches only
the caller's own pointer and belongs to the same step: `Msg.release()` after a
success, the log message otherwise. -/
def count (s : State n m) (k : Fin n) : Option (State n m) :=
  match s.thread k with
  | .answered call .noError =>
      some { s.setThread k (.produced call) with
        stats := { s.stats with produced := s.stats.produced + 1 } }
  | .produced call =>
      some { (s.read call.message).setThread k (.sized call) with
        stats := { s.stats with
          producedBytes := s.stats.producedBytes + (s.heap call.message).size } }
  | .sized _ =>
      some { s.setThread k .idle with
        totalMessagesProduced := s.totalMessagesProduced + 1
        returned := s.returned ++ [0] }
  | .answered call .queueFull =>
      some { s.setThread k (.failed call) with
        stats := { s.stats with localQueueFull := s.stats.localQueueFull + 1 }
        returned := s.returned ++ [1] }
  | .answered call .msgSizeTooLarge =>
      some { (s.read call.message).setThread k (.failed call) with
        stats := { s.stats with msgTooLarge := s.stats.msgTooLarge + 1 }
        returned := s.returned ++ [1] }
  | .answered call (.other _) =>
      some { s.setThread k (.failed call) with
        stats := { s.stats with produceFail := s.stats.produceFail + 1 }
        returned := s.returned ++ [1] }
  | _ => none

/-- The caller's `unique_ptr` goes out of scope after a failed call. -/
def drop (s : State n m) (k : Fin n) : Option (State n m) :=
  match s.thread k with
  | .failed call => some ((s.free call.message).setThread k .idle)
  | _ => none

/-- `InstanceSet::poll` reaches this producer. -/
def poll (s : State n m) (p : Fin m) : Option (State n m) :=
  if s.polls p = false then some { s with polls := Function.update s.polls p true }
  else none

/-- `Producer::poll` stores its statistics and returns. -/
def pollReturns (s : State n m) (p : Fin m) (eventsHandled outqLen : Nat) :
    Option (State n m) :=
  if s.polls p = true ∧ s.callback (.inr p) = none then
    some { s with
      polls := Function.update s.polls p false
      stats := { s.stats with
        pollServed := s.stats.pollServed + eventsHandled
        outQueue := outqLen } }
  else none

/-- Whether a thread is inside `ProducerPtr->poll(0)`. -/
def serves (s : State n m) : Fin n ⊕ Fin m → Bool
  | .inl k => match s.thread k with
      | .polling _ => true
      | _ => false
  | .inr p => s.polls p

/-- `dr_cb` up to its counters.  Every accepted message is reported once. -/
def report (s : State n m) (party : Fin n ⊕ Fin m) (message : Nat) (err : Bool) :
    Option (State n m) :=
  if s.serves party = true ∧ s.callback party = none ∧
      message ∈ s.accepted.map Call.message ∧ message ∉ s.reported then
    some { s with
      callback := Function.update s.callback party (some message)
      reported := s.reported ++ [message]
      stats :=
        if err then { s.stats with produceCbFail := s.stats.produceCbFail + 1 }
        else { s.stats with produceCb := s.stats.produceCb + 1 } }
  else none

/-- `dr_cb` deletes the message it got back. -/
def delete (s : State n m) (party : Fin n ⊕ Fin m) : Option (State n m) :=
  match s.callback party with
  | some message =>
      some { s.free message with
        callback := Function.update s.callback party none }
  | none => none

end State

inductive Action (n m : Nat) where
  | produce (k : Fin n) (topic : String) (message : ProducerMessage)
  | readFields (k : Fin n)
  | polled (k : Fin n)
  | answer (k : Fin n) (code : ErrorCode)
  | count (k : Fin n)
  | drop (k : Fin n)
  | poll (p : Fin m)
  | pollReturns (p : Fin m) (eventsHandled outqLen : Nat)
  | report (party : Fin n ⊕ Fin m) (message : Nat) (err : Bool)
  | delete (party : Fin n ⊕ Fin m)
deriving Repr, DecidableEq

def State.step (s : State n m) : Action n m → Option (State n m)
  | .produce k topic message => s.produce k topic message
  | .readFields k => s.readFields k
  | .polled k => s.polled k
  | .answer k code => s.answer k code
  | .count k => s.count k
  | .drop k => s.drop k
  | .poll p => s.poll p
  | .pollReturns p eventsHandled outqLen => s.pollReturns p eventsHandled outqLen
  | .report party message err => s.report party message err
  | .delete party => s.delete party

/-- The producer with `n` producing and `m` polling threads. -/
def producerSystem (n m : Nat) : Transition.System (State n m) (Action n m) where
  init s := s = State.initial n m
  step := State.step

/-- What each action does, with the program point it is taken from. -/
inductive Move (s : State n m) : Action n m → State n m → Prop
  | produce {k : Fin n} {topic : String} {message : ProducerMessage}
      (hpc : s.thread k = .idle) :
      Move s (.produce k topic message)
        { s.setThread k (.entered ⟨topic, s.nextMessage, none⟩) with
          heap := Function.update s.heap s.nextMessage message
          owner := Function.update s.owner s.nextMessage (.caller k)
          nextMessage := s.nextMessage + 1 }
  | readFields {k : Fin n} {call : Call} (key : Option String)
      (hpc : s.thread k = .entered call) :
      Move s (.readFields k)
        ((s.read call.message).setThread k (.polling { call with key }))
  | polled {k : Fin n} {call : Call} (hpc : s.thread k = .polling call)
      (hcallback : s.callback (.inl k) = none) :
      Move s (.polled k) (s.setThread k (.sending call))
  | accept {k : Fin n} {call : Call} (hpc : s.thread k = .sending call) :
      Move s (.answer k .noError)
        { s.setThread k (.answered call .noError) with
          owner := Function.update s.owner call.message .librdkafka
          accepted := s.accepted ++ [call] }
  | refuse {k : Fin n} {call : Call} {code : ErrorCode}
      (hpc : s.thread k = .sending call) (hcode : code ≠ .noError) :
      Move s (.answer k code) (s.setThread k (.answered call code))
  | countProduced {k : Fin n} {call : Call}
      (hpc : s.thread k = .answered call .noError) :
      Move s (.count k) { s.setThread k (.produced call) with
        stats := { s.stats with produced := s.stats.produced + 1 } }
  | countBytes {k : Fin n} {call : Call} (hpc : s.thread k = .produced call) :
      Move s (.count k) { (s.read call.message).setThread k (.sized call) with
        stats := { s.stats with
          producedBytes := s.stats.producedBytes + (s.heap call.message).size } }
  | countTotal {k : Fin n} {call : Call} (hpc : s.thread k = .sized call) :
      Move s (.count k) { s.setThread k .idle with
        totalMessagesProduced := s.totalMessagesProduced + 1
        returned := s.returned ++ [0] }
  | countQueueFull {k : Fin n} {call : Call}
      (hpc : s.thread k = .answered call .queueFull) :
      Move s (.count k) { s.setThread k (.failed call) with
        stats := { s.stats with localQueueFull := s.stats.localQueueFull + 1 }
        returned := s.returned ++ [1] }
  | countTooLarge {k : Fin n} {call : Call}
      (hpc : s.thread k = .answered call .msgSizeTooLarge) :
      Move s (.count k) { (s.read call.message).setThread k (.failed call) with
        stats := { s.stats with msgTooLarge := s.stats.msgTooLarge + 1 }
        returned := s.returned ++ [1] }
  | countFail {k : Fin n} {call : Call} {code : Int}
      (hpc : s.thread k = .answered call (.other code)) :
      Move s (.count k) { s.setThread k (.failed call) with
        stats := { s.stats with produceFail := s.stats.produceFail + 1 }
        returned := s.returned ++ [1] }
  | drop {k : Fin n} {call : Call} (hpc : s.thread k = .failed call) :
      Move s (.drop k) ((s.free call.message).setThread k .idle)
  | poll {p : Fin m} :
      Move s (.poll p) { s with polls := Function.update s.polls p true }
  | pollReturns {p : Fin m} {eventsHandled outqLen : Nat}
      (hcallback : s.callback (.inr p) = none) :
      Move s (.pollReturns p eventsHandled outqLen)
        { s with
          polls := Function.update s.polls p false
          stats := { s.stats with
            pollServed := s.stats.pollServed + eventsHandled
            outQueue := outqLen } }
  | report {party : Fin n ⊕ Fin m} {message : Nat} {err : Bool}
      (hcallback : s.callback party = none)
      (haccepted : message ∈ s.accepted.map Call.message)
      (hreported : message ∉ s.reported) :
      Move s (.report party message err)
        { s with
          callback := Function.update s.callback party (some message)
          reported := s.reported ++ [message]
          stats :=
            if err then { s.stats with produceCbFail := s.stats.produceCbFail + 1 }
            else { s.stats with produceCb := s.stats.produceCb + 1 } }
  | delete {party : Fin n ⊕ Fin m} {message : Nat}
      (hcallback : s.callback party = some message) :
      Move s (.delete party)
        { s.free message with callback := Function.update s.callback party none }

section Moves

variable {s s' : State n m} {k : Fin n}

theorem answer_move {code : ErrorCode} (hstep : s.answer k code = some s') :
    Move s (.answer k code) s' := by
  unfold State.answer at hstep
  split at hstep
  · split at hstep
    · cases hstep; exact .accept ‹_›
    · rename_i hcode
      cases hstep; exact .refuse ‹_› hcode
  · cases hstep

theorem count_move (hstep : s.count k = some s') : Move s (.count k) s' := by
  unfold State.count at hstep
  split at hstep
  · cases hstep; exact .countProduced ‹_›
  · cases hstep; exact .countBytes ‹_›
  · cases hstep; exact .countTotal ‹_›
  · cases hstep; exact .countQueueFull ‹_›
  · cases hstep; exact .countTooLarge ‹_›
  · cases hstep; exact .countFail ‹_›
  · cases hstep

theorem report_move {party : Fin n ⊕ Fin m} {message : Nat} {err : Bool}
    (hstep : s.report party message err = some s') :
    Move s (.report party message err) s' := by
  unfold State.report at hstep
  split at hstep
  · rename_i hguard
    obtain ⟨-, hcallback, haccepted, hreported⟩ := hguard
    cases hstep
    exact .report hcallback haccepted hreported
  · cases hstep

theorem step_move {action : Action n m} (hstep : s.step action = some s') :
    Move s action s' := by
  cases action with
  | produce k topic message =>
      simp only [State.step, State.produce] at hstep
      split at hstep
      · cases hstep; exact .produce ‹_›
      · cases hstep
  | readFields k =>
      simp only [State.step, State.readFields] at hstep
      split at hstep
      · cases hstep; exact .readFields _ ‹_›
      · cases hstep
  | polled k =>
      simp only [State.step, State.polled] at hstep
      split at hstep
      · split at hstep
        · cases hstep; exact .polled ‹_› ‹_›
        · cases hstep
      · cases hstep
  | answer k code => exact answer_move hstep
  | count k => exact count_move hstep
  | drop k =>
      simp only [State.step, State.drop] at hstep
      split at hstep
      · cases hstep; exact .drop ‹_›
      · cases hstep
  | poll p =>
      simp only [State.step, State.poll] at hstep
      split at hstep
      · cases hstep; exact .poll
      · cases hstep
  | pollReturns p eventsHandled outqLen =>
      simp only [State.step, State.pollReturns] at hstep
      split at hstep
      · rename_i hguard
        cases hstep; exact .pollReturns hguard.2
      · cases hstep
  | report party message err => exact report_move hstep
  | delete party =>
      simp only [State.step, State.delete] at hstep
      split at hstep
      · cases hstep; exact .delete ‹_›
      · cases hstep

end Moves

end EpicsToKafka.KafkaW
