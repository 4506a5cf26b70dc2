/-
`Timer`: the thread that runs `executeCallbacks`, the thread that owns the
timer and calls `start` and `waitForStop`, and threads that register
callbacks.  The steps of the three are interleaved; the operations of the
asio timer and of `Running` are one step each.
-/
import EpicsToKafka.Transition
import EpicsToKafka.Threads
import EpicsToKafka.IoContext

namespace EpicsToKafka

open Threads IoContext

/-- Where the timer thread stands in `executeCallbacks`, named after what it
does next; `calling i` is before the loop looks at callback `i`. -/
inductive ExecutePc where
  | testRunning
  | lockCallbacks
  | calling (i : Nat)
  | expiresAt
  | asyncWait
deriving Repr, DecidableEq

/-- Where the owner stands in `start` or `waitForStop`. -/
inductive OwnerPc where
  | idle
  | startWait
  | startThread
  | stopCancel
  | stopJoin
deriving Repr, DecidableEq

/-- Who can hold `CallbacksMutex`. -/
inductive CallbackThread (m : Nat) where
  | timer
  | adder (thread : Fin m)
deriving Repr, DecidableEq

/-- A `Timer` with callbacks of type `α` and `m` threads that register some;
`adding` is the callback a thread in `addCallback` is about to push.
`rounds`, `calls` and `joined` are history: the callbacks found by each
passage through the loop, the calls made, and whether a `waitForStop` has
returned. -/
structure Timer (α : Type) (m : Nat) where
  io : Context ExecutePc
  running : Bool
  callbacksMutex : Option (CallbackThread m)
  callbacks : List α
  joinable : Bool
  owner : OwnerPc
  adding : Fin m → Option α
  terminated : Bool
  rounds : List (List α)
  calls : List α
  joined : Bool

namespace Timer

variable {α : Type} {m : Nat}

def initial : Timer α m where
  io := .initial
  running := false
  callbacksMutex := none
  callbacks := []
  joinable := false
  owner := .idle
  adding _ := none
  terminated := false
  rounds := []
  calls := []
  joined := false

/-- One step of the timer thread: of `executeCallbacks`, or of the loop that
calls it.  The error code of the handler is ignored. -/
def executeCallbacks (s : Timer α m) : Option (Timer α m) :=
  match s.io.runner with
  | .notStarted => none
  | .returned => none
  | .polling => (s.io.poll fun _ => .testRunning).map fun io => { s with io }
  | .handling .testRunning =>
      some { s with io := if s.running then s.io.goto .lockCallbacks else s.io.finish }
  | .handling .lockCallbacks =>
      if s.callbacksMutex = none then
        some { s with io := s.io.goto (.calling 0), callbacksMutex := some .timer,
                      rounds := s.rounds ++ [s.callbacks] }
      else none
  | .handling (.calling i) =>
      match s.callbacks[i]? with
      | some callback =>
          some { s with io := s.io.goto (.calling (i + 1)), calls := s.calls ++ [callback] }
      | none => some { s with io := s.io.goto .expiresAt, callbacksMutex := none }
  -- setting the expiry cancels the waits that are armed
  | .handling .expiresAt => some { s with io := s.io.cancel.goto .asyncWait }
  | .handling .asyncWait => some { s with io := s.io.asyncWait.finish }

/-- The owner calls `start`, which sets `Running` first. -/
def start (s : Timer α m) : Option (Timer α m) :=
  if s.owner = .idle then some { s with owner := .startWait, running := true } else none

/-- The owner calls `waitForStop`, which clears `Running` first. -/
def waitForStop (s : Timer α m) : Option (Timer α m) :=
  if s.owner = .idle then some { s with owner := .stopCancel, running := false } else none

/-- The further steps of `start` and `waitForStop`.  A thread object that is
joinable may not be assigned to, and joining one that is not throws. -/
def ownerStep (s : Timer α m) : Option (Timer α m) :=
  match s.owner with
  | .idle => none
  | .startWait => some { s with owner := .startThread, io := s.io.asyncWait }
  | .startThread =>
      if s.joinable then some { s with terminated := true }
      else some { s with owner := .idle, io := s.io.spawn, joinable := true }
  | .stopCancel => some { s with owner := .stopJoin, io := s.io.cancel }
  | .stopJoin =>
      if s.joinable then
        if s.io.runner = .returned then
          some { s with owner := .idle, joinable := false, joined := true }
        else none
      else some { s with owner := .idle }

/-- A thread calls `addCallback` and gets the mutex. -/
def addCallback (s : Timer α m) (thread : Fin m) (callback : α) : Option (Timer α m) :=
  if (s.adding thread).isNone ∧ s.callbacksMutex = none then
    some { s with adding := Function.update s.adding thread (some callback),
                  callbacksMutex := some (.adder thread) }
  else none

def pushBack (s : Timer α m) (thread : Fin m) : Option (Timer α m) :=
  match s.adding thread with
  | none => none
  | some callback =>
      some { s with adding := Function.update s.adding thread none,
                    callbacks := s.callbacks ++ [callback], callbacksMutex := none }

inductive Action (α : Type) (m : Nat) where
  | start
  | waitForStop
  | ownerStep
  | addCallback (thread : Fin m) (callback : α)
  | pushBack (thread : Fin m)
  | expire
  | execute
deriving Repr, DecidableEq

def step (s : Timer α m) (action : Action α m) : Option (Timer α m) :=
  if s.terminated then none
  else match action with
    | .start => s.start
    | .waitForStop => s.waitForStop
    | .ownerStep => s.ownerStep
    | .addCallback thread callback => s.addCallback thread callback
    | .pushBack thread => s.pushBack thread
    | .expire => s.io.expire.map fun io => { s with io }
    | .execute => s.executeCallbacks

end Timer

namespace Timer

variable {α : Type} {m : Nat} {s s' : Timer α m}

/-- What one step can do, guards included. -/
inductive Move (s : Timer α m) : Timer α m → Prop
  | start (howner : s.owner = .idle) :
      Move s { s with owner := .startWait, running := true }
  | startWait (howner : s.owner = .startWait) :
      Move s { s with owner := .startThread, io := s.io.asyncWait }
  | startThread (howner : s.owner = .startThread) (hjoinable : s.joinable = false) :
      Move s { s with owner := .idle, io := s.io.spawn, joinable := true }
  | terminate (howner : s.owner = .startThread) (hjoinable : s.joinable = true) :
      Move s { s with terminated := true }
  | waitForStop (howner : s.owner = .idle) :
      Move s { s with owner := .stopCancel, running := false }
  | stopCancel (howner : s.owner = .stopCancel) :
      Move s { s with owner := .stopJoin, io := s.io.cancel }
  | joined (howner : s.owner = .stopJoin) (hjoinable : s.joinable = true)
      (hreturned : s.io.runner = .returned) :
      Move s { s with owner := .idle, joinable := false, joined := true }
  | notJoinable (howner : s.owner = .stopJoin) (hjoinable : s.joinable = false) :
      Move s { s with owner := .idle }
  | addCallback {thread : Fin m} {callback : α} (hidle : s.adding thread = none)
      (hfree : s.callbacksMutex = none) :
      Move s { s with adding := Function.update s.adding thread (some callback),
                      callbacksMutex := some (.adder thread) }
  | pushBack {thread : Fin m} {callback : α} (hadding : s.adding thread = some callback) :
      Move s { s with adding := Function.update s.adding thread none,
                      callbacks := s.callbacks ++ [callback], callbacksMutex := none }
  | expire (harmed : 0 < s.io.armed) : Move s { s with io := s.io.complete false }
  | returns (hrunner : s.io.runner = .polling)
      (hend : s.io.stopped = true ∨ s.io.armed = 0 ∧ s.io.due = []) :
      Move s { s with io := { s.io with stopped := true, runner := .returned } }
  | dispatch {cancelled : Bool} {due : List Bool} (hrunner : s.io.runner = .polling)
      (hstopped : s.io.stopped = false) (hdue : s.io.due = cancelled :: due) :
      Move s { s with io := { s.io with due, runner := .handling .testRunning } }
  | enter (hrunner : s.io.runner = .handling .testRunning) (hrunning : s.running = true) :
      Move s { s with io := s.io.goto .lockCallbacks }
  | skip (hrunner : s.io.runner = .handling .testRunning) (hrunning : s.running = false) :
      Move s { s with io := s.io.finish }
  | lock (hrunner : s.io.runner = .handling .lockCallbacks)
      (hfree : s.callbacksMutex = none) :
      Move s { s with io := s.io.goto (.calling 0), callbacksMutex := some .timer,
                      rounds := s.rounds ++ [s.callbacks] }
  | call {i : Nat} {callback : α} (hrunner : s.io.runner = .handling (.calling i))
      (hcallback : s.callbacks[i]? = some callback) :
      Move s { s with io := s.io.goto (.calling (i + 1)), calls := s.calls ++ [callback] }
  | unlock {i : Nat} (hrunner : s.io.runner = .handling (.calling i))
      (hend : s.callbacks[i]? = none) :
      Move s { s with io := s.io.goto .expiresAt, callbacksMutex := none }
  | expiresAt (hrunner : s.io.runner = .handling .expiresAt) :
      Move s { s with io := s.io.cancel.goto .asyncWait }
  | asyncWait (hrunner : s.io.runner = .handling .asyncWait) :
      Move s { s with io := s.io.asyncWait.finish }

theorem executeCallbacks_move (hstep : s.executeCallbacks = some s') : Move s s' := by
  unfold executeCallbacks at hstep
  cases hrunner : s.io.runner with
  | notStarted | returned => simp [hrunner] at hstep
  | polling =>
      simp only [hrunner, Option.map_eq_some_iff] at hstep
      obtain ⟨io, hpoll, rfl⟩ := hstep
      rcases Context.poll_cases hpoll with
        ⟨rfl, hend⟩ | ⟨cancelled, due, hstopped, hdue, rfl⟩
      · exact .returns hrunner hend
      · exact .dispatch hrunner hstopped hdue
  | handling pc =>
      cases pc with
      | testRunning =>
          simp only [hrunner, Option.some.injEq] at hstep
          subst hstep
          by_cases hrunning : s.running = true
          · simpa [hrunning] using Move.enter hrunner hrunning
          · simpa [hrunning] using Move.skip hrunner (by simpa using hrunning)
      | lockCallbacks =>
          simp only [hrunner] at hstep
          split at hstep
          · cases hstep
            exact .lock hrunner ‹_›
          · cases hstep
      | calling i =>
          simp only [hrunner] at hstep
          split at hstep
          · cases hstep
            exact .call hrunner ‹_›
          · cases hstep
            exact .unlock hrunner ‹_›
      | expiresAt =>
          simp only [hrunner] at hstep
          cases hstep
          exact .expiresAt hrunner
      | asyncWait =>
          simp only [hrunner] at hstep
          cases hstep
          exact .asyncWait hrunner

theorem ownerStep_move (hstep : s.ownerStep = some s') : Move s s' := by
  unfold ownerStep at hstep
  split at hstep
  · cases hstep
  · cases hstep
    exact .startWait ‹_›
  · split at hstep
    · cases hstep
      exact .terminate ‹_› ‹_›
    · rename_i hjoinable
      cases hstep
      exact .startThread ‹_› (by simpa using hjoinable)
  · cases hstep
    exact .stopCancel ‹_›
  · split at hstep
    · split at hstep
      · cases hstep
        exact .joined ‹_› ‹_› ‹_›
      · cases hstep
    · rename_i hjoinable
      cases hstep
      exact .notJoinable ‹_› (by simpa using hjoinable)

theorem step_move {action : Action α m} (hstep : s.step action = some s') : Move s s' := by
  unfold step at hstep
  split at hstep
  · cases hstep
  cases action with
  | start =>
      simp only [Timer.start] at hstep
      split at hstep
      · cases hstep
        exact .start ‹_›
      · cases hstep
  | waitForStop =>
      simp only [Timer.waitForStop] at hstep
      split at hstep
      · cases hstep
        exact .waitForStop ‹_›
      · cases hstep
  | ownerStep => exact ownerStep_move hstep
  | addCallback thread callback =>
      simp only [Timer.addCallback] at hstep
      split at hstep
      · rename_i hguard
        cases hstep
        exact .addCallback (by simpa using hguard.1) hguard.2
      · cases hstep
  | pushBack thread =>
      simp only [Timer.pushBack] at hstep
      split at hstep
      · cases hstep
      · cases hstep
        exact .pushBack ‹_›
  | expire =>
      obtain ⟨io, hexpire, rfl⟩ := Option.map_eq_some_iff.mp hstep
      unfold Context.expire at hexpire
      split at hexpire
      · cases hexpire
        exact .expire ‹_›
      · cases hexpire
  | execute => exact executeCallbacks_move hstep

/-- How `Running`, the thread object and the loop go together. -/
structure LifecycleOk (s : Timer α m) : Prop where
  starting : s.owner = .startWait ∨ s.owner = .startThread → s.running = true
  stopping : s.owner = .stopCancel ∨ s.owner = .stopJoin → s.running = false
  idle : s.owner = .idle → s.joinable = true → s.running = true
  unstarted : s.joinable = false → s.joined = false →
    s.io.runner = .notStarted ∧ s.io.stopped = false
  spawned : s.joinable = true → s.io.runner ≠ .notStarted
  joined : s.joined = true → s.io.stopped = true
  stopped : s.io.stopped = true → s.io.runner.active = 0
  returned : s.io.runner = .returned → s.io.stopped = true
  ended : s.io.stopped = true → s.joined = true ∨ s.running = false

/-- The waits of the timer: one for the thread that runs, one more while
`start` hands over to a new thread, and one at least while `Running` is set. -/
structure WaitsOk (s : Timer α m) : Prop where
  most : s.io.stopped = false →
    s.io.outstanding ≤ s.joinable.toNat + if s.owner = .startThread then 1 else 0
  least : s.io.stopped = false → s.running = true →
    (s.owner = .startWait ∧ s.joinable = false) ∨ 1 ≤ s.io.outstanding

theorem LifecycleOk.initial : LifecycleOk (initial : Timer α m) := by
  constructor <;> simp [Timer.initial, Context.initial]

theorem WaitsOk.initial : WaitsOk (initial : Timer α m) := by
  constructor <;> simp [Timer.initial]

namespace LifecycleOk

/-- No handler runs when a thread object that is not joinable is replaced. -/
theorem not_active (hok : LifecycleOk s) (hjoinable : s.joinable = false) :
    s.io.runner.active = 0 := by
  by_cases hjoined : s.joined = true
  · exact hok.stopped (hok.joined hjoined)
  · rw [(hok.unstarted hjoinable (by simpa using hjoined)).1]
    rfl

/-- A handler only runs while the loop is not stopped. -/
theorem not_stopped (hok : LifecycleOk s) {pc : ExecutePc}
    (hrunner : s.io.runner = .handling pc) : s.io.stopped = false := by
  by_contra hstopped
  have hzero := hok.stopped (by simpa using hstopped)
  rw [hrunner] at hzero
  cases hzero

/-- A change of the loop while a thread runs in it. -/
theorem loop (hok : LifecycleOk s)
    (hsame : s'.owner = s.owner ∧ s'.running = s.running ∧ s'.joinable = s.joinable ∧
      s'.joined = s.joined)
    (hstopped : s'.io.stopped = s.io.stopped) (hstarted : s.io.runner ≠ .notStarted)
    (hactive : s.io.stopped = true → s'.io.runner.active = 0)
    (hinside : s'.io.runner ≠ .notStarted ∧ s'.io.runner ≠ .returned) :
    LifecycleOk s' := by
  obtain ⟨howner, hrunning, hjoinable, hjoined⟩ := hsame
  exact
    { starting := by rw [howner, hrunning]; exact hok.starting
      stopping := by rw [howner, hrunning]; exact hok.stopping
      idle := by rw [howner, hjoinable, hrunning]; exact hok.idle
      unstarted := by
        rw [hjoinable, hjoined]
        exact fun hthread hnot => absurd (hok.unstarted hthread hnot).1 hstarted
      spawned := fun _ => hinside.1
      joined := by rw [hjoined, hstopped]; exact hok.joined
      stopped := by rw [hstopped]; exact hactive
      returned := fun hend => absurd hend hinside.2
      ended := by rw [hstopped, hjoined, hrunning]; exact hok.ended }

/-- A change inside a handler, or its end. -/
theorem handler (hok : LifecycleOk s) {pc : ExecutePc}
    (hrunner : s.io.runner = .handling pc)
    (hsame : s'.owner = s.owner ∧ s'.running = s.running ∧ s'.joinable = s.joinable ∧
      s'.joined = s.joined)
    (hstopped : s'.io.stopped = s.io.stopped)
    (hinside : s'.io.runner ≠ .notStarted ∧ s'.io.runner ≠ .returned) :
    LifecycleOk s' := by
  refine hok.loop hsame hstopped (by simp [hrunner]) (fun hstop => ?_) hinside
  rw [hok.not_stopped hrunner] at hstop
  cases hstop

/-- A loop that has returned was stopped, or belongs to a thread that has
been joined. -/
theorem joined_of_idle (hok : LifecycleOk s) (howner : s.owner = .idle)
    (hstopped : s.io.stopped = true) : s.joined = true := by
  by_contra hjoined
  have hjoinable : s.joinable = true := by
    by_contra hnot
    have hunstarted := hok.unstarted (by simpa using hnot) (by simpa using hjoined)
    simp [hunstarted.2] at hstopped
  have hrunning := (hok.ended hstopped).resolve_left hjoined
  rw [hok.idle howner hjoinable] at hrunning
  cases hrunning

theorem move (hok : LifecycleOk s) (hwaits : WaitsOk s) (hmove : Move s s') :
    LifecycleOk s' := by
  cases hmove with
  | start howner =>
      exact { hok with
        starting := fun _ => rfl
        stopping := by simp
        idle := by simp
        ended := fun hstopped => Or.inl (hok.joined_of_idle howner hstopped) }
  | startWait howner =>
      exact { hok with
        starting := fun _ => hok.starting (Or.inl howner)
        stopping := by simp
        idle := by simp }
  | startThread howner hjoinable =>
      exact { hok with
        starting := by simp
        stopping := by simp
        idle := fun _ _ => hok.starting (Or.inr howner)
        unstarted := by simp
        spawned := by simp [Context.spawn]
        stopped := fun _ => rfl
        returned := by simp [Context.spawn] }
  | terminate _ _ => exact { hok with }
  | waitForStop howner =>
      exact { hok with
        starting := by simp
        stopping := fun _ => rfl
        idle := by simp
        ended := fun _ => Or.inr rfl }
  | stopCancel howner =>
      exact { hok with
        starting := by simp
        stopping := fun _ => hok.stopping (Or.inl howner)
        idle := by simp }
  | joined howner hjoinable hreturned =>
      exact { hok with
        starting := by simp
        stopping := by simp
        idle := by simp
        unstarted := by simp
        spawned := by simp
        joined := fun _ => hok.returned hreturned
        ended := fun _ => Or.inl rfl }
  | notJoinable howner hjoinable =>
      exact { hok with
        starting := by simp
        stopping := by simp
        idle := by simp [hjoinable] }
  | addCallback _ _ | pushBack _ | expire _ => exact { hok with }
  | returns hrunner hend =>
      have hrunning : s.io.stopped = true ∨ s.running = false := by
        by_contra hnot
        push Not at hnot
        obtain ⟨harmed, hdue⟩ := hend.resolve_left hnot.1
        have hnone : s.io.outstanding = 0 := by
          simp [Context.outstanding, harmed, hdue, hrunner, Runner.active]
        rcases hwaits.least (by simpa using hnot.1) (by simpa using hnot.2) with
          ⟨howner, hjoinable⟩ | hsome
        · have hjoined : s.joined = false := by
            by_contra hjoined
            exact hnot.1 (hok.joined (by simpa using hjoined))
          simp [(hok.unstarted hjoinable hjoined).1] at hrunner
        · omega
      exact { hok with
        unstarted := fun hjoinable hjoined => by
          simp [(hok.unstarted hjoinable hjoined).1] at hrunner
        spawned := by simp
        joined := fun _ => rfl
        stopped := fun _ => rfl
        returned := fun _ => rfl
        ended := fun _ => hrunning.elim hok.ended Or.inr }
  | dispatch hrunner hstopped _ =>
      exact hok.loop ⟨rfl, rfl, rfl, rfl⟩ rfl (by simp [hrunner]) (by simp [hstopped])
        (by simp)
  | enter hrunner _ | skip hrunner _ | lock hrunner _ | call hrunner _ | unlock hrunner _
  | expiresAt hrunner | asyncWait hrunner =>
      exact hok.handler hrunner ⟨rfl, rfl, rfl, rfl⟩ rfl
        (by simp [Context.goto, Context.finish])

end LifecycleOk

theorem WaitsOk.move (hwaits : WaitsOk s) (hok : LifecycleOk s) (hmove : Move s s') :
    WaitsOk s' := by
  have hmost := hwaits.most
  have hleast := hwaits.least
  cases hmove with
  | start howner =>
      refine ⟨by simpa [howner] using hmost, fun hstopped _ => ?_⟩
      cases hjoinable : s.joinable with
      | false => exact Or.inl ⟨rfl, rfl⟩
      | true =>
          have hbefore := hleast hstopped (hok.idle howner hjoinable)
          exact Or.inr (hbefore.resolve_left (by simp [howner]))
  | startWait howner =>
      refine ⟨fun hstopped => ?_, fun _ _ => Or.inr (by simp)⟩
      simpa [howner] using hmost hstopped
  | startThread howner hjoinable =>
      have hsame := Context.outstanding_spawn (hok.not_active hjoinable)
      refine ⟨fun hstopped => ?_, fun hstopped hrunning => Or.inr ?_⟩
      · simpa [hsame, hjoinable, howner] using hmost hstopped
      · simpa [hsame, hjoinable, howner] using hleast hstopped hrunning
  | waitForStop howner => exact ⟨by simpa [howner] using hmost, by simp⟩
  | stopCancel howner =>
      refine ⟨by simpa [howner] using hmost, fun _ hrunning => ?_⟩
      rw [hok.stopping (Or.inl howner)] at hrunning
      cases hrunning
  | joined howner hjoinable hreturned =>
      have hend := hok.returned hreturned
      exact ⟨fun hstopped => by simp [hend] at hstopped,
        fun hstopped => by simp [hend] at hstopped⟩
  | notJoinable howner hjoinable =>
      refine ⟨by simpa [howner] using hmost, fun _ hrunning => ?_⟩
      rw [hok.stopping (Or.inr howner)] at hrunning
      cases hrunning
  | terminate _ _ | addCallback _ _ | pushBack _ => exact ⟨hmost, hleast⟩
  | expire _ => exact ⟨by simpa using hmost, by simpa using hleast⟩
  | returns _ _ => exact ⟨by simp, by simp⟩
  | dispatch hrunner hstopped hdue =>
      have hsame := Context.outstanding_dispatch hrunner hdue ExecutePc.testRunning
      exact ⟨by simpa [hsame] using hmost, by simpa [hsame] using hleast⟩
  | enter hrunner _ | lock hrunner _ | call hrunner _ | unlock hrunner _ =>
      have hsame := fun next => Context.outstanding_goto hrunner next
      exact ⟨by simpa [hsame] using hmost, by simpa [hsame] using hleast⟩
  | skip hrunner hrunning =>
      have hless := Context.outstanding_finish hrunner
      refine ⟨fun hstopped => ?_, by simp [hrunning]⟩
      have hbefore := hmost hstopped
      simp only
      omega
  | expiresAt hrunner =>
      have hsame : (s.io.cancel.goto .asyncWait).outstanding = s.io.outstanding := by
        have hcancelled : s.io.cancel.runner = .handling .expiresAt := hrunner
        rw [Context.outstanding_goto hcancelled, Context.outstanding_cancel]
      exact ⟨by simpa [hsame] using hmost, by simpa [hsame] using hleast⟩
  | asyncWait hrunner =>
      have harmed : s.io.asyncWait.runner = .handling .asyncWait := hrunner
      have hless := Context.outstanding_finish harmed
      rw [Context.outstanding_asyncWait, Nat.succ_inj] at hless
      exact ⟨by simpa [hless] using hmost, by simpa [hless] using hleast⟩

/-- Threads inside the sections of `CallbacksMutex`. -/
def insideCallbacks (s : Timer α m) : CallbackThread m → Prop
  | .timer => ∃ i, s.io.runner = .handling (.calling i)
  | .adder thread => s.adding thread ≠ none

/-- The callbacks that the loop has still to call. -/
def remaining (s : Timer α m) : List α :=
  match s.io.runner with
  | .handling (.calling i) => s.callbacks.drop i
  | _ => []

theorem remaining_eq_nil (hrunner : ∀ i, s.io.runner ≠ .handling (.calling i)) :
    s.remaining = [] := by
  unfold remaining
  split
  · exact absurd ‹_› (hrunner _)
  · rfl

/-- The loop calls the callbacks it found, in their order. -/
structure RoundsOk (s : Timer α m) : Prop where
  mutex : Guards s.callbacksMutex s.insideCallbacks
  calls : s.calls ++ s.remaining = s.rounds.flatten
  growing : s.rounds.Pairwise (· <+: ·)
  found : ∀ round ∈ s.rounds, round <+: s.callbacks

theorem RoundsOk.initial : RoundsOk (initial : Timer α m) := by
  refine ⟨?_, rfl, .nil, by simp [Timer.initial]⟩
  intro thread
  cases thread with
  | timer => simp [Timer.initial, insideCallbacks, Context.initial]
  | adder thread => simp [Timer.initial, insideCallbacks]

/-- A step that neither enters nor leaves a section of the mutex. -/
theorem RoundsOk.keeps (hok : RoundsOk s) (hmutex : s'.callbacksMutex = s.callbacksMutex)
    (hadding : s'.adding = s.adding) (hcallbacks : s'.callbacks = s.callbacks)
    (hrounds : s'.rounds = s.rounds) (hcalls : s'.calls = s.calls)
    (hbefore : ∀ i, s.io.runner ≠ .handling (.calling i))
    (hafter : ∀ i, s'.io.runner ≠ .handling (.calling i)) : RoundsOk s' := by
  refine ⟨?_, ?_, ?_, ?_⟩
  · rw [hmutex]
    refine hok.mutex.frame fun thread => ?_
    cases thread with
    | timer =>
        exact ⟨fun ⟨i, hi⟩ => absurd hi (hafter i), fun ⟨i, hi⟩ => absurd hi (hbefore i)⟩
    | adder thread => rw [insideCallbacks, insideCallbacks, hadding]
  · rw [remaining_eq_nil hafter, hcalls, hrounds, ← hok.calls, remaining_eq_nil hbefore]
  · rw [hrounds]
    exact hok.growing
  · rw [hrounds, hcallbacks]
    exact hok.found

/-- Nobody registers a callback while the loop runs. -/
theorem RoundsOk.not_calling (hok : RoundsOk s) {thread : Fin m}
    (hadding : s.adding thread ≠ none) (i : Nat) :
    s.io.runner ≠ .handling (.calling i) := by
  intro hrunner
  have htimer : s.insideCallbacks .timer := ⟨i, hrunner⟩
  cases hok.mutex.exclusive htimer (show s.insideCallbacks (.adder thread) from hadding)

theorem RoundsOk.move (hok : RoundsOk s) (hlife : LifecycleOk s) (hmove : Move s s') :
    RoundsOk s' := by
  cases hmove with
  | start _ | startWait _ | terminate _ _ | waitForStop _ | stopCancel _ | joined _ _ _
  | notJoinable _ _ | expire _ => 
      exact ⟨hok.mutex, hok.calls, hok.growing, hok.found⟩
  | startThread howner hjoinable =>
      refine hok.keeps rfl rfl rfl rfl rfl (fun i hrunner => ?_) (fun i => by simp [Context.spawn])
      have hzero := hlife.not_active hjoinable
      rw [hrunner] at hzero
      cases hzero
  | returns hrunner _ | dispatch hrunner _ _ | enter hrunner _ | skip hrunner _
  | expiresAt hrunner | asyncWait hrunner =>
      refine hok.keeps rfl rfl rfl rfl rfl (fun i => ?_) (fun i => ?_)
      · simp [hrunner]
      · simp [Context.goto, Context.finish]
  | @addCallback thread callback hidle hfree =>
      refine ⟨?_, hok.calls, hok.growing, hok.found⟩
      refine (hfree ▸ hok.mutex).acquire (by simp [insideCallbacks]) fun other hother => ?_
      cases other with
      | timer => exact Iff.rfl
      | adder other =>
          have hne : other ≠ thread := fun heq => hother (by rw [heq])
          simp [insideCallbacks, hne]
  | @pushBack thread callback hadding =>
      have hinside : s.adding thread ≠ none := by simp [hadding]
      have hcalling := hok.not_calling hinside
      have hheld : s.callbacksMutex = some (.adder thread) :=
        (hok.mutex (.adder thread)).mpr hinside
      refine ⟨?_, ?_, hok.growing, ?_⟩
      · refine (hheld ▸ hok.mutex).release (by simp [insideCallbacks]) fun other hother => ?_
        cases other with
        | timer => exact Iff.rfl
        | adder other =>
            have hne : other ≠ thread := fun heq => hother (by rw [heq])
            simp [insideCallbacks, hne]
      · have hcalls := hok.calls
        rw [remaining_eq_nil hcalling] at hcalls
        rw [remaining_eq_nil]
        · exact hcalls
        · exact hcalling
      · intro round hround
        exact (hok.found round hround).trans (List.prefix_append _ _)
  | lock hrunner hfree =>
      refine ⟨?_, ?_, ?_, ?_⟩
      · refine (hfree ▸ hok.mutex).acquire ⟨0, rfl⟩ fun other hother => ?_
        cases other with
        | timer => exact absurd rfl hother
        | adder other => exact Iff.rfl
      · have hcalls := hok.calls
        rw [remaining_eq_nil (by simp [hrunner]), List.append_nil] at hcalls
        simp [remaining, Context.goto, hcalls]
      · rw [List.pairwise_append]
        refine ⟨hok.growing, List.pairwise_singleton _ _, ?_⟩
        intro round hround last hlast
        rw [List.mem_singleton.mp hlast]
        exact hok.found round hround
      · intro round hround
        rcases List.mem_append.mp hround with hround | hround
        · exact hok.found round hround
        · rw [List.mem_singleton.mp hround]
  | @call i callback hrunner hcallback =>
      refine ⟨?_, ?_, hok.growing, hok.found⟩
      · refine hok.mutex.frame fun thread => ?_
        cases thread with
        | timer => exact ⟨fun _ => ⟨i, hrunner⟩, fun _ => ⟨i + 1, rfl⟩⟩
        | adder thread => exact Iff.rfl
      · obtain ⟨hlt, rfl⟩ := List.getElem?_eq_some_iff.mp hcallback
        have hcalls := hok.calls
        rw [remaining, hrunner] at hcalls
        simp only [List.drop_eq_getElem_cons hlt] at hcalls
        simpa [remaining, Context.goto] using hcalls
  | @unlock i hrunner hend =>
      have hheld : s.callbacksMutex = some .timer := (hok.mutex .timer).mpr ⟨i, hrunner⟩
      refine ⟨?_, ?_, hok.growing, hok.found⟩
      · refine (hheld ▸ hok.mutex).release ?_ fun other hother => ?_
        · rintro ⟨j, hj⟩
          cases hj
        · cases other with
          | timer => exact absurd rfl hother
          | adder other => exact Iff.rfl
      · have hcalls := hok.calls
        rw [remaining, hrunner] at hcalls
        simp only [List.drop_eq_nil_of_le (List.getElem?_eq_none_iff.mp hend)] at hcalls
        simpa [remaining, Context.goto] using hcalls

/-- `waitForStop` has cleared `Running` and waits for its thread, or has
returned. -/
def Stopping (s : Timer α m) : Prop :=
  (s.owner = .stopCancel ∨ s.owner = .stopJoin) ∧ s.joinable = true ∨ s.joined = true

theorem Stopping.next (hstopping : s.Stopping) (hmove : Move s s') : s'.Stopping := by
  cases hmove with
  | start howner | startWait howner | startThread howner _ | waitForStop howner =>
      exact Or.inr (hstopping.resolve_left (by simp [howner]))
  | stopCancel howner =>
      exact hstopping.imp_left fun hleft => ⟨Or.inr rfl, hleft.2⟩
  | joined _ _ _ => exact Or.inr rfl
  | notJoinable _ hjoinable => exact Or.inr (hstopping.resolve_left (by simp [hjoinable]))
  | terminate _ _ | addCallback _ _ | pushBack _ | expire _ | returns _ _ | dispatch _ _ _
  | enter _ _ | skip _ _ | lock _ _ | call _ _ | unlock _ _ | expiresAt _ | asyncWait _ =>
      exact hstopping

/-- The steps the timer thread still makes when `Running` is not set: three
for a wait that is armed, two for a handler that is due, and what is left of
the passage it is in. -/
def work (s : Timer α m) : Nat :=
  3 * s.io.armed + 2 * s.io.due.length +
    match s.io.runner with
    | .notStarted | .returned => 0
    | .polling => 1
    | .handling .testRunning => 2
    | .handling .lockCallbacks => s.callbacks.length + 8
    | .handling (.calling i) => (s.callbacks.length - i) + 7
    | .handling .expiresAt => 6
    | .handling .asyncWait => 5

end Timer

end EpicsToKafka
