/-
The main thread in `Forwarder::forward_epics_to_kafka`, from the mappings of
the configuration file to the status STOPPED, with everything that runs beside
it: the conversion workers, the EPICS clients, the thread of the status
reporter and whoever raises the run flag.  The main thread alone adds mappings
and starts and stops the workers.
-/
import EpicsToKafka.ConversionShutdown
import EpicsToKafka.StopRequests

namespace EpicsToKafka

variable {n m : Nat} {cfg : Config}

section ConversionSteps

variable {s s' : State n m} {w : Fin n} {c : Fin m} {action : Action n m}

/-- A caller moves only by its own steps. -/
theorem step_caller_of_ne (hstep : s.step cfg action = some s')
    (hother : action.callerOf ≠ some c) : s'.caller c = s.caller c := by
  cases hcaller : action.callerOf with
  | some d =>
      refine (step_callerMove hstep hcaller).frame.caller c ?_
      rintro rfl
      exact hother hcaller
  | none =>
      rcases step_outside hstep hcaller with ⟨w, hmove⟩ | hmove
      · rw [hmove.frame.caller]
      · cases hmove with
        | start _ _ | stop | join _ | enqueueUpdate _ | errorInEpics _ => rfl

/-- A removal that has begun is left by its destructors only. -/
theorem destruct_of_erasing {paths : List Nat} (hcaller : s.caller c = .erasing paths)
    (hstep : s.step cfg (.destruct c) = some s') :
    s'.caller c = .idle ∨ ∃ rest, s'.caller c = .erasing rest := by
  unfold State.step at hstep
  split at hstep
  · cases hstep
  simp only [State.destruct, hcaller] at hstep
  cases paths with
  | nil =>
      cases hstep
      exact Or.inl (by simp [State.setCaller])
  | cons path rest =>
      simp only at hstep
      split at hstep
      · cases hstep
        exact Or.inr ⟨rest, s.setCaller_caller_self c _⟩
      · cases hstep

/-- Nothing undoes a start or a join. -/
theorem step_kept (hstep : s.step cfg action = some s') :
    (s.pc w ≠ .notStarted → s'.pc w ≠ .notStarted) ∧
      (s.joined w = true → s'.joined w = true) := by
  rcases step_move hstep with ⟨v, hmove⟩ | ⟨c, hmove⟩ | hmove
  · refine ⟨fun hstarted => ?_, fun hjoined => by rw [hmove.frame.joined, hjoined]⟩
    by_cases hw : w = v
    · subst hw
      exact hmove.started
    · rwa [hmove.frame.pc w hw]
  · exact ⟨fun hstarted => by rwa [hmove.frame.pc],
      fun hjoined => by rw [hmove.frame.joined, hjoined]⟩
  · cases hmove with
    | @start v _ _ =>
        refine ⟨fun hstarted => ?_, fun hjoined => hjoined⟩
        by_cases hw : w = v
        · subst hw
          simp
        · rwa [s.setPc_pc_of_ne _ hw]
    | @join v _ =>
        refine ⟨fun hstarted => hstarted, fun hjoined => ?_⟩
        by_cases hw : w = v
        · subst hw
          simp
        · simpa [hw] using hjoined
    | stop | enqueueUpdate _ | errorInEpics _ => exact ⟨id, id⟩

/-- Only the main thread starts and joins a worker. -/
theorem step_unstarted (hstep : s.step cfg action = some s') (hstart : action ≠ .start w)
    (hjoin : action ≠ .join w) (hfresh : s.pc w = .notStarted ∧ s.joined w = false) :
    s'.pc w = .notStarted ∧ s'.joined w = false := by
  have hlabelled := hstep
  unfold State.step at hstep
  split at hstep
  · cases hstep
  cases action with
  | work v sizeApprox =>
      have hne : w ≠ v := by
        rintro rfl
        simp [State.workerStep, hfresh.1] at hstep
      have hframe := (workerStep_move hstep).frame
      rw [hframe.pc w hne, hframe.joined]
      exact hfresh
  | start v =>
      have hne : w ≠ v := fun heq => hstart (heq ▸ rfl)
      simp only [State.start] at hstep
      split at hstep
      · cases hstep
        exact ⟨by simpa [State.setPc, hne] using hfresh.1, hfresh.2⟩
      · cases hstep
  | join v =>
      have hne : w ≠ v := fun heq => hjoin (heq ▸ rfl)
      simp only [State.join] at hstep
      split at hstep
      · cases hstep
        exact ⟨hfresh.1, by simpa [hne] using hfresh.2⟩
      · cases hstep
  | enqueueUpdate stream update | errorInEpics stream =>
      simp only [State.enqueueUpdate, State.errorInEpics] at hstep
      split at hstep
      · cases hstep
        exact hfresh
      · cases hstep
  | stop v => cases hstep; exact hfresh
  | addMapping _ _ | getStreamByChannelName _ | add _ | addConverter _
  | addMappingReturns _ | stopChannel _ _ | clearStreams _ | checkStreamStatus _
  | destruct _ =>
      have hframe := (step_callerMove hlabelled rfl).frame
      rw [hframe.pc, hframe.joined]
      exact hfresh

/-- A worker that was told to stop is not told otherwise. -/
theorem step_stopped (hstep : s.step cfg action = some s') (hstarted : s.pc w ≠ .notStarted)
    (hstopped : s.doRun w = false) : s'.doRun w = false := by
  cases hother : action.worksFor w with
  | false => exact (step_of_other hstep hother hstarted hstopped).2.2
  | true =>
      cases action with
      | work v sizeApprox => rw [(step_work hstep).frame.doRun, hstopped]
      | _ => cases hother

/-- While nobody is about to publish a stream, no streams stay no streams. -/
theorem step_streamPointers_nil (hstep : s.step cfg action = some s')
    (hpublish : ∀ c channel, s.caller c ≠ .publish channel) (hnil : s.streamPointers = []) :
    s'.streamPointers = [] := by
  rcases step_move hstep with ⟨w, hmove⟩ | ⟨c, hmove⟩ | hmove
  · rw [hmove.frame.streamPointers, hnil]
  · cases hmove with
    | add hpc _ => exact absurd hpc (hpublish c _)
    | eraseIf _ _ => simp [hnil]
    | addMapping _ _ | found _ _ _ | notFound _ _ _ | addConverter _ | throwEarly _
    | keepStream _ | dropStream _ _ | erased _ | erasePath _ _ | returned _
    | returnPath _ _ => exact hnil
  · cases hmove with
    | start _ _ | stop | join _ | enqueueUpdate _ | errorInEpics _ => exact hnil

end ConversionSteps

/-- What `Listener::poll` leads to.  `ignored` is no message, or one that is
only logged. -/
inductive Command where
  | add (channels : List String)
  | stopChannel (channel : String)
  | stopAll
  | exit
  | ignored
deriving Repr, DecidableEq

/-- Where the main thread stands, named after what it does next.  `startup`
tells the mappings of the constructor from those of an `add` command. -/
inductive MainPc where
  | adding (startup : Bool) (channels : List String)
  | mapping (startup : Bool) (channels : List String)
  | startWorker (i : Nat)
  | testFlag
  | poll
  | removing
  | raising (call : Nat)
  | stopWorker (i : Nat)
  | joinWorker (i : Nat)
  | clearStreams
  | clearing
  | returned
deriving Repr, DecidableEq

/-- The main thread as a caller of `Streams`. -/
def mainCaller : Fin 2 := ⟨0, Nat.zero_lt_two⟩

/-- The thread of the status reporter, which checks the streams. -/
def reporterCaller : Fin 2 := ⟨1, Nat.one_lt_two⟩

@[simp] theorem mainCaller_ne_reporterCaller : mainCaller ≠ reporterCaller := by decide

@[simp] theorem reporterCaller_ne_mainCaller : reporterCaller ≠ mainCaller := by decide

theorem eq_mainCaller_or_reporterCaller (c : Fin 2) : c = mainCaller ∨ c = reporterCaller := by
  revert c
  decide

/-- The main thread, the run flag and the conversion system. -/
structure Main (n : Nat) where
  pc : MainPc
  flag : RunFlag
  conversion : State n 2

/-- Steps of the main thread, and of the threads beside it. -/
inductive MainAction (n : Nat) where
  | main
  | poll (command : Command)
  | mapping (action : Action n 2)
  | throws
  | thread (action : Action n 2)
  | flag (action : CompareExchange.Action ForwardingRunState)
deriving DecidableEq

/-- What the main thread does inside one `addMapping`. -/
def Action.ofMapping {n : Nat} : Action n 2 → Bool
  | .getStreamByChannelName c | .add c | .addConverter c | .addMappingReturns c
  | .destruct c => c = mainCaller
  | _ => false

/-- What other threads do: the workers, the EPICS clients and the status
reporter. -/
def Action.ofThread {n : Nat} : Action n 2 → Bool
  | .work _ _ | .enqueueUpdate _ _ | .errorInEpics _ => true
  | .checkStreamStatus c | .destruct c => c = reporterCaller
  | _ => false

namespace Main

variable {n : Nat}

/-- What a step does to the streams and to the flag, and where it leaves the
main thread. -/
structure Plan (n : Nat) where
  conversion : Option (Action n 2) := none
  flag : Option (CompareExchange.Action ForwardingRunState) := none
  pc : MainPc

/-- The next step of the main thread where nothing else decides it.  The
mutexes, the join and the calls of `raiseForwardingFlag` make it wait. -/
def mainPlan (s : Main n) : Option (Plan n) :=
  match s.pc with
  | .adding startup [] => some { pc := if startup then .startWorker 0 else .testFlag }
  | .adding startup (channel :: rest) =>
      some { conversion := some (.addMapping mainCaller channel), pc := .mapping startup rest }
  | .mapping startup rest =>
      if s.conversion.caller mainCaller = .idle then some { pc := .adding startup rest } else none
  | .startWorker i =>
      if h : i < n then some { conversion := some (.start ⟨i, h⟩), pc := .startWorker (i + 1) }
      else some { pc := .testFlag }
  | .testFlag =>
      some { pc := if s.flag.value = ForwardingRunState.run then .poll else .stopWorker 0 }
  | .poll => none
  | .removing =>
      if s.conversion.caller mainCaller = .idle then some { pc := .testFlag }
      else some { conversion := some (.destruct mainCaller), pc := .removing }
  | .raising call =>
      if (s.flag.calls[call]?.bind CompareExchange.Call.effect).isSome then
        some { pc := .testFlag }
      else none
  | .stopWorker i =>
      if h : i < n then some { conversion := some (.stop ⟨i, h⟩), pc := .joinWorker i }
      else some { pc := .clearStreams }
  | .joinWorker i =>
      if h : i < n then some { conversion := some (.join ⟨i, h⟩), pc := .stopWorker (i + 1) }
      else none
  | .clearStreams => some { conversion := some (.clearStreams mainCaller), pc := .clearing }
  | .clearing =>
      if s.conversion.caller mainCaller = .idle then some { pc := .returned }
      else some { conversion := some (.destruct mainCaller), pc := .clearing }
  | .returned => none

/-- `ConfigCallback::handleCommand`. -/
def commandPlan (s : Main n) : Command → Plan n
  | .add channels => { pc := .adding false channels }
  | .stopChannel channel =>
      { conversion := some (.stopChannel mainCaller channel), pc := .removing }
  | .stopAll => { conversion := some (.clearStreams mainCaller), pc := .removing }
  | .exit => { flag := some stopForwarding, pc := .raising s.flag.calls.length }
  | .ignored => { pc := .testFlag }

def plan (s : Main n) : MainAction n → Option (Plan n)
  | .main => s.mainPlan
  | .poll command => if s.pc = .poll then some (s.commandPlan command) else none
  | .mapping action =>
      match s.pc with
      | .mapping _ _ =>
          if action.ofMapping then some { conversion := some action, pc := s.pc } else none
      | _ => none
  -- an exception ends an `add` command, but not the loop of the constructor
  | .throws =>
      match s.pc with
      | .mapping startup rest =>
          if s.conversion.caller mainCaller = .idle then
            some { pc := if startup then .adding true rest else .testFlag }
          else none
      | _ => none
  | .thread action =>
      if action.ofThread then some { conversion := some action, pc := s.pc } else none
  | .flag action => some { flag := some action, pc := s.pc }

def step (cfg : Config) (s : Main n) (action : MainAction n) : Option (Main n) := do
  let plan ← s.plan action
  let conversion ← plan.conversion.elim (some s.conversion) (s.conversion.step cfg)
  let flag ← plan.flag.elim (some s.flag) (runFlagSystem.step s.flag)
  if s.conversion.terminated then none else some ⟨plan.pc, flag, conversion⟩

end Main

/-- The forwarder with `n` workers and the streams of its configuration
file. -/
def mainSystem (cfg : Config) (n : Nat) : Transition.System (Main n) (MainAction n) where
  init s := ∃ channels cursor,
    s = ⟨.adding true channels, { value := ForwardingRunState.run }, .initial n 2 cursor⟩
  step := Main.step cfg

variable {s s' : Main n}

/-- What one step of the forwarder can do, guards included. -/
inductive MainMove (cfg : Config) (s : Main n) : Main n → Prop
  | thread {action : Action n 2} {conversion : State n 2} (haction : action.ofThread = true)
      (hstep : s.conversion.step cfg action = some conversion) :
      MainMove cfg s { s with conversion }
  | flag {action : CompareExchange.Action ForwardingRunState} {flag : RunFlag}
      (hstep : runFlagSystem.step s.flag action = some flag) : MainMove cfg s { s with flag }
  | addMapping {startup : Bool} {channel : String} {rest : List String}
      {conversion : State n 2} (hpc : s.pc = .adding startup (channel :: rest))
      (hstep : s.conversion.step cfg (.addMapping mainCaller channel) = some conversion) :
      MainMove cfg s { s with conversion, pc := .mapping startup rest }
  | added {startup : Bool} (hpc : s.pc = .adding startup []) :
      MainMove cfg s { s with pc := if startup then .startWorker 0 else .testFlag }
  | mapping {startup : Bool} {rest : List String} {action : Action n 2}
      {conversion : State n 2} (hpc : s.pc = .mapping startup rest)
      (haction : action.ofMapping = true)
      (hstep : s.conversion.step cfg action = some conversion) :
      MainMove cfg s { s with conversion }
  | mapped {startup : Bool} {rest : List String} (hpc : s.pc = .mapping startup rest)
      (hidle : s.conversion.caller mainCaller = .idle) :
      MainMove cfg s { s with pc := .adding startup rest }
  | gaveUp {rest : List String} (hpc : s.pc = .mapping false rest)
      (hidle : s.conversion.caller mainCaller = .idle) : MainMove cfg s { s with pc := .testFlag }
  | startWorker {i : Nat} {conversion : State n 2} (hpc : s.pc = .startWorker i) (h : i < n)
      (hstep : s.conversion.step cfg (.start ⟨i, h⟩) = some conversion) :
      MainMove cfg s { s with conversion, pc := .startWorker (i + 1) }
  | workersStarted {i : Nat} (hpc : s.pc = .startWorker i) (hall : n ≤ i) :
      MainMove cfg s { s with pc := .testFlag }
  | staysInLoop (hpc : s.pc = .testFlag) (hflag : s.flag.value = ForwardingRunState.run) :
      MainMove cfg s { s with pc := .poll }
  | leavesLoop (hpc : s.pc = .testFlag) (hflag : s.flag.value ≠ ForwardingRunState.run) :
      MainMove cfg s { s with pc := .stopWorker 0 }
  | addCommand {channels : List String} (hpc : s.pc = .poll) :
      MainMove cfg s { s with pc := .adding false channels }
  | removalCommand {action : Action n 2} {victim : Nat → Bool} {conversion : State n 2}
      (hpc : s.pc = .poll) (hself : action.callerOf = some mainCaller)
      (hvictim : action.victim s.conversion = some victim)
      (hstep : s.conversion.step cfg action = some conversion) :
      MainMove cfg s { s with conversion, pc := .removing }
  | exitCommand {flag : RunFlag} (hpc : s.pc = .poll)
      (hstep : runFlagSystem.step s.flag stopForwarding = some flag) :
      MainMove cfg s { s with flag, pc := .raising s.flag.calls.length }
  | ignoredCommand (hpc : s.pc = .poll) : MainMove cfg s { s with pc := .testFlag }
  | removing {conversion : State n 2} (hpc : s.pc = .removing)
      (hbusy : s.conversion.caller mainCaller ≠ .idle)
      (hstep : s.conversion.step cfg (.destruct mainCaller) = some conversion) :
      MainMove cfg s { s with conversion, pc := .removing }
  | removed (hpc : s.pc = .removing) (hidle : s.conversion.caller mainCaller = .idle) :
      MainMove cfg s { s with pc := .testFlag }
  | raised {call : Nat} (hpc : s.pc = .raising call) : MainMove cfg s { s with pc := .testFlag }
  | stopWorker {i : Nat} {conversion : State n 2} (hpc : s.pc = .stopWorker i) (h : i < n)
      (hstep : s.conversion.step cfg (.stop ⟨i, h⟩) = some conversion) :
      MainMove cfg s { s with conversion, pc := .joinWorker i }
  | joinWorker {i : Nat} {conversion : State n 2} (hpc : s.pc = .joinWorker i) (h : i < n)
      (hstep : s.conversion.step cfg (.join ⟨i, h⟩) = some conversion) :
      MainMove cfg s { s with conversion, pc := .stopWorker (i + 1) }
  | workersStopped {i : Nat} (hpc : s.pc = .stopWorker i) (hall : n ≤ i) :
      MainMove cfg s { s with pc := .clearStreams }
  | clearStreams {conversion : State n 2} (hpc : s.pc = .clearStreams)
      (hstep : s.conversion.step cfg (.clearStreams mainCaller) = some conversion) :
      MainMove cfg s { s with conversion, pc := .clearing }
  | clearing {conversion : State n 2} (hpc : s.pc = .clearing)
      (hbusy : s.conversion.caller mainCaller ≠ .idle)
      (hstep : s.conversion.step cfg (.destruct mainCaller) = some conversion) :
      MainMove cfg s { s with conversion, pc := .clearing }
  | returned (hpc : s.pc = .clearing) (hidle : s.conversion.caller mainCaller = .idle) :
      MainMove cfg s { s with pc := .returned }

namespace Main

/-- A step carries its plan out. -/
structure CarriesOut (cfg : Config) (s : Main n) (plan : Plan n) (s' : Main n) : Prop where
  alive : s.conversion.terminated = false
  pc : s'.pc = plan.pc
  conversion : plan.conversion.elim (some s.conversion) (s.conversion.step cfg) =
    some s'.conversion
  flag : plan.flag.elim (some s.flag) (runFlagSystem.step s.flag) = some s'.flag

theorem step_carriesOut {action : MainAction n} (hstep : s.step cfg action = some s') :
    ∃ plan, s.plan action = some plan ∧ CarriesOut cfg s plan s' := by
  obtain ⟨plan, hplan, hrest⟩ := Option.bind_eq_some_iff.mp hstep
  obtain ⟨conversion, hconversion, hrest⟩ := Option.bind_eq_some_iff.mp hrest
  obtain ⟨flag, hflag, hlast⟩ := Option.bind_eq_some_iff.mp hrest
  split at hlast
  · cases hlast
  · rename_i halive
    cases hlast
    exact ⟨plan, hplan, by simpa using halive, rfl, hconversion, hflag⟩

/-- A step that only moves the main thread. -/
theorem CarriesOut.eq_goto {pc : MainPc} (hdone : CarriesOut cfg s { pc } s') :
    s' = { s with pc } := by
  obtain ⟨-, hpc, hconversion, hflag⟩ := hdone
  cases s'
  simp_all

/-- A step that works on the streams. -/
theorem CarriesOut.eq_conversion {action : Action n 2} {pc : MainPc}
    (hdone : CarriesOut cfg s { conversion := some action, pc } s') :
    s' = { s with conversion := s'.conversion, pc } ∧
      s.conversion.step cfg action = some s'.conversion := by
  obtain ⟨-, hpc, hconversion, hflag⟩ := hdone
  cases s'
  simp_all

theorem CarriesOut.eq_flag {action : CompareExchange.Action ForwardingRunState} {pc : MainPc}
    (hdone : CarriesOut cfg s { flag := some action, pc } s') :
    s' = { s with flag := s'.flag, pc } ∧ runFlagSystem.step s.flag action = some s'.flag := by
  obtain ⟨-, hpc, hconversion, hflag⟩ := hdone
  cases s'
  simp_all

theorem mainPlan_move {plan : Plan n} (hplan : s.mainPlan = some plan)
    (hdone : CarriesOut cfg s plan s') : MainMove cfg s s' := by
  unfold mainPlan at hplan
  cases hpc : s.pc with
  | adding startup channels =>
      cases channels with
      | nil =>
          simp only [hpc, Option.some.injEq] at hplan
          subst hplan
          rw [hdone.eq_goto]
          exact .added hpc
      | cons channel rest =>
          simp only [hpc, Option.some.injEq] at hplan
          subst hplan
          obtain ⟨hnext, hstep⟩ := hdone.eq_conversion
          rw [hnext]
          exact .addMapping hpc hstep
  | mapping startup rest =>
      simp only [hpc] at hplan
      split at hplan
      · cases hplan
        rw [hdone.eq_goto]
        exact .mapped hpc ‹_›
      · cases hplan
  | startWorker i =>
      simp only [hpc] at hplan
      split at hplan
      · rename_i hlt
        cases hplan
        obtain ⟨hnext, hstep⟩ := hdone.eq_conversion
        rw [hnext]
        exact .startWorker hpc hlt hstep
      · rename_i hall
        cases hplan
        rw [hdone.eq_goto]
        exact .workersStarted hpc (Nat.not_lt.mp hall)
  | testFlag =>
      simp only [hpc, Option.some.injEq] at hplan
      subst hplan
      rw [hdone.eq_goto]
      split
      · exact .staysInLoop hpc ‹_›
      · exact .leavesLoop hpc ‹_›
  | poll => simp [hpc] at hplan
  | removing =>
      simp only [hpc] at hplan
      split at hplan
      · cases hplan
        rw [hdone.eq_goto]
        exact .removed hpc ‹_›
      · cases hplan
        obtain ⟨hnext, hstep⟩ := hdone.eq_conversion
        rw [hnext]
        exact .removing hpc ‹_› hstep
  | raising call =>
      simp only [hpc] at hplan
      split at hplan
      · cases hplan
        rw [hdone.eq_goto]
        exact .raised hpc
      · cases hplan
  | stopWorker i =>
      simp only [hpc] at hplan
      split at hplan
      · rename_i hlt
        cases hplan
        obtain ⟨hnext, hstep⟩ := hdone.eq_conversion
        rw [hnext]
        exact .stopWorker hpc hlt hstep
      · rename_i hall
        cases hplan
        rw [hdone.eq_goto]
        exact .workersStopped hpc (Nat.not_lt.mp hall)
  | joinWorker i =>
      simp only [hpc] at hplan
      split at hplan
      · rename_i hlt
        cases hplan
        obtain ⟨hnext, hstep⟩ := hdone.eq_conversion
        rw [hnext]
        exact .joinWorker hpc hlt hstep
      · cases hplan
  | clearStreams =>
      simp only [hpc, Option.some.injEq] at hplan
      subst hplan
      obtain ⟨hnext, hstep⟩ := hdone.eq_conversion
      rw [hnext]
      exact .clearStreams hpc hstep
  | clearing =>
      simp only [hpc] at hplan
      split at hplan
      · cases hplan
        rw [hdone.eq_goto]
        exact .returned hpc ‹_›
      · cases hplan
        obtain ⟨hnext, hstep⟩ := hdone.eq_conversion
        rw [hnext]
        exact .clearing hpc ‹_› hstep
  | returned => simp [hpc] at hplan

theorem commandPlan_move {command : Command} (hpc : s.pc = .poll)
    (hdone : CarriesOut cfg s (s.commandPlan command) s') : MainMove cfg s s' := by
  cases command with
  | add channels =>
      rw [hdone.eq_goto]
      exact .addCommand hpc
  | stopChannel channel =>
      obtain ⟨hnext, hstep⟩ := hdone.eq_conversion
      rw [hnext]
      exact .removalCommand hpc rfl rfl hstep
  | stopAll =>
      obtain ⟨hnext, hstep⟩ := hdone.eq_conversion
      rw [hnext]
      exact .removalCommand hpc rfl rfl hstep
  | exit =>
      obtain ⟨hnext, hstep⟩ := hdone.eq_flag
      rw [hnext]
      exact .exitCommand hpc hstep
  | ignored =>
      rw [hdone.eq_goto]
      exact .ignoredCommand hpc

theorem step_move {action : MainAction n} (hstep : s.step cfg action = some s') :
    MainMove cfg s s' := by
  obtain ⟨plan, hplan, hdone⟩ := step_carriesOut hstep
  cases action with
  | main => exact mainPlan_move hplan hdone
  | poll command =>
      simp only [Main.plan] at hplan
      split at hplan
      · cases hplan
        exact commandPlan_move ‹_› hdone
      · cases hplan
  | mapping action =>
      simp only [Main.plan] at hplan
      split at hplan
      · rename_i hpc
        split at hplan
        · cases hplan
          obtain ⟨hnext, hstep⟩ := hdone.eq_conversion
          rw [hnext]
          exact .mapping hpc ‹_› hstep
        · cases hplan
      · cases hplan
  | throws =>
      simp only [Main.plan] at hplan
      split at hplan
      · rename_i startup rest hpc
        split at hplan
        · cases hplan
          rw [hdone.eq_goto]
          cases startup with
          | true => exact .mapped hpc ‹_›
          | false => exact .gaveUp hpc ‹_›
        · cases hplan
      · cases hplan
  | thread action =>
      simp only [Main.plan] at hplan
      split at hplan
      · cases hplan
        obtain ⟨hnext, hstep⟩ := hdone.eq_conversion
        rw [hnext]
        exact .thread ‹_› hstep
      · cases hplan
  | flag action =>
      cases hplan
      obtain ⟨hnext, hstep⟩ := hdone.eq_flag
      rw [hnext]
      exact .flag hstep

end Main

namespace Main

/-- Every action on the streams that a step plans meets a guard. -/
def Meets (ok : State n 2 → Action n 2 → Prop) (s : Main n) (action : MainAction n) : Prop :=
  ∀ plan ∈ s.plan action, ∀ work ∈ plan.conversion, ok s.conversion work

instance (ok : State n 2 → Action n 2 → Prop) [∀ state work, Decidable (ok state work)]
    (s : Main n) (action : MainAction n) : Decidable (s.Meets ok action) :=
  inferInstanceAs (Decidable (∀ plan ∈ s.plan action, ∀ work ∈ plan.conversion,
    ok s.conversion work))

theorem CarriesOut.conversion_cases {plan : Plan n} (hdone : CarriesOut cfg s plan s') :
    s'.conversion = s.conversion ∨
      ∃ work ∈ plan.conversion, s.conversion.step cfg work = some s'.conversion := by
  have hconversion := hdone.conversion
  cases hplan : plan.conversion with
  | none =>
      rw [hplan] at hconversion
      exact Or.inl (Option.some.inj hconversion).symm
  | some work =>
      rw [hplan] at hconversion
      exact Or.inr ⟨work, rfl, hconversion⟩

/-- The runs of the forwarder are runs of the conversion system. -/
theorem reachesVia_conversion {ok : State n 2 → Action n 2 → Prop}
    (hreach : (mainSystem cfg n).ReachesVia (Meets ok) s) :
    (conversionSystem cfg n 2).ReachesVia ok s.conversion := by
  induction hreach with
  | init hinit =>
      obtain ⟨channels, cursor, rfl⟩ := hinit
      exact .init ⟨cursor, rfl⟩
  | step _ hmeets hstep ih =>
      obtain ⟨plan, hplan, hdone⟩ := step_carriesOut hstep
      rcases hdone.conversion_cases with hsame | ⟨work, hwork, hnext⟩
      · rw [hsame]
        exact ih
      · exact ih.step (hmeets plan hplan work hwork) hnext

theorem reachable_conversion (hreach : (mainSystem cfg n).Reachable s) :
    (conversionSystem cfg n 2).Reachable s.conversion :=
  reachesVia_conversion (hreach.mono fun _ _ _ _ _ _ _ => trivial)

/-- The flag is only written through `raiseForwardingFlag`. -/
theorem reachesVia_flag {ok : Main n → MainAction n → Prop}
    (hreach : (mainSystem cfg n).ReachesVia ok s) : runFlagSystem.Reachable s.flag := by
  induction hreach with
  | init hinit =>
      obtain ⟨channels, cursor, rfl⟩ := hinit
      exact .init rfl
  | step _ _ hstep ih =>
      obtain ⟨plan, -, hdone⟩ := step_carriesOut hstep
      have hnext := hdone.flag
      cases hplan : plan.flag with
      | none =>
          rw [hplan] at hnext
          rwa [← Option.some.inj hnext]
      | some call =>
          rw [hplan] at hnext
          exact ih.next hnext

end Main

end EpicsToKafka
