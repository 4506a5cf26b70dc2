/-
What the main thread has achieved when it stands at a point of its program.
When it has returned, the workers have ended and nothing is left on its way;
and it does return, unless a removal has disturbed a `fill`.
-/
import EpicsToKafka.MainLoop

namespace EpicsToKafka

open Relation

variable {n m : Nat} {cfg : Config} {s s' : Main n}

/-- The workers that have been started, in the order of their numbers. -/
def MainPc.started (n : Nat) : MainPc → Nat
  | .adding true _ | .mapping true _ => 0
  | .startWorker i => i
  | _ => n

/-- The workers that have been joined. -/
def MainPc.joined (n : Nat) : MainPc → Nat
  | .stopWorker i | .joinWorker i => i
  | .clearStreams | .clearing | .returned => n
  | _ => 0

/-- The main loop has been left. -/
def MainPc.stopping : MainPc → Bool
  | .stopWorker _ | .joinWorker _ | .clearStreams | .clearing | .returned => true
  | _ => false

/-- The final `clearStreams` has emptied the list. -/
def MainPc.cleared : MainPc → Bool
  | .clearing | .returned => true
  | _ => false

/-- Up to the end of the main loop nothing has been stopped. -/
theorem MainPc.untouched {pc : MainPc} (hloop : pc.stopping = false) :
    pc.joined n = 0 ∧ pc.cleared = false ∧ ∀ i, pc ≠ .joinWorker i := by
  cases pc with
  | adding _ _ | mapping _ _ | startWorker _ | testFlag | poll | removing | raising _ =>
      exact ⟨rfl, rfl, fun _ => MainPc.noConfusion⟩
  | stopWorker _ | joinWorker _ | clearStreams | clearing | returned => cases hloop

/-- The caller is inside a removal, or in no call at all. -/
def CallerPc.OnlyErases (caller : CallerPc) : Prop :=
  caller = .idle ∨ ∃ paths, caller = .erasing paths

/-- Where the main thread can be inside `Streams` and `addMapping`. -/
def MainPc.Admits : MainPc → CallerPc → Prop
  | .mapping _ _, caller => ∀ paths, caller ≠ .erasing paths
  | .removing, caller | .clearing, caller => caller.OnlyErases
  | _, caller => caller = .idle

/-- What the main thread has achieved at each point of its program. -/
structure MainOk (s : Main n) : Prop where
  caller : s.pc.Admits (s.conversion.caller mainCaller)
  reporter : (s.conversion.caller reporterCaller).OnlyErases
  started : ∀ w : Fin n, w < s.pc.started n → s.conversion.pc w ≠ .notStarted
  unstarted : ∀ w : Fin n, s.pc.started n ≤ w →
    s.conversion.pc w = .notStarted ∧ s.conversion.joined w = false
  joined : ∀ w : Fin n, w < s.pc.joined n → s.conversion.joined w = true
  joining : ∀ i, s.pc = .joinWorker i → ∃ h : i < n, s.conversion.doRun ⟨i, h⟩ = false
  stopping : s.pc.stopping = true → s.flag.value ≠ ForwardingRunState.run
  cleared : s.pc.cleared = true → s.conversion.streamPointers = []
  raising : ∀ call, s.pc = .raising call → call < s.flag.calls.length

theorem flag_calls_le {action : CompareExchange.Action ForwardingRunState}
    {flag flag' : RunFlag} (hstep : runFlagSystem.step flag action = some flag') :
    flag.calls.length ≤ flag'.calls.length := by
  cases action with
  | call request =>
      cases hstep
      simp
  | load index =>
      simp only [runFlagSystem, CompareExchange.system, CompareExchange.State.step] at hstep
      split at hstep
      · cases hstep
        simp
      · cases hstep
  | exchange index spurious =>
      simp only [runFlagSystem, CompareExchange.system, CompareExchange.State.step] at hstep
      split at hstep
      · cases hstep
        unfold CompareExchange.State.exchange
        split <;> simp
      · cases hstep

namespace MainOk

theorem initial (channels : List String) (flag : RunFlag) (cursor : Nat) :
    MainOk (⟨.adding true channels, flag, .initial n 2 cursor⟩ : Main n) := by
  constructor
  case caller => rfl
  case reporter => exact Or.inl rfl
  case started => exact fun w hlt => absurd hlt (Nat.not_lt_zero _)
  case unstarted => exact fun w _ => ⟨rfl, rfl⟩
  case joined => exact fun w hlt => absurd hlt (Nat.not_lt_zero _)
  case joining => exact fun i hpc => by cases hpc
  case stopping => exact fun h => by cases h
  case cleared => exact fun h => by cases h
  case raising => exact fun call hpc => by cases hpc

/-- The main thread goes on without touching anything. -/
theorem goto (hok : MainOk s) {pc : MainPc} (hcaller : pc.Admits (s.conversion.caller mainCaller))
    (hstarted : ∀ w : Fin n, w < pc.started n ↔ w < s.pc.started n)
    (hjoined : ∀ w : Fin n, w < pc.joined n → w < s.pc.joined n)
    (hstopping : pc.stopping = true → s.flag.value ≠ ForwardingRunState.run)
    (hcleared : pc.cleared = true → s.pc.cleared = true)
    (hplain : ∀ i, pc ≠ .joinWorker i)
    (hraising : ∀ call, pc = .raising call → call < s.flag.calls.length) :
    MainOk { s with pc } := by
  constructor
  case caller => exact hcaller
  case reporter => exact hok.reporter
  case started => exact fun w hlt => hok.started w ((hstarted w).mp hlt)
  case unstarted =>
    exact fun w hle => hok.unstarted w (Nat.not_lt.mp fun hlt =>
      absurd ((hstarted w).mpr hlt) (Nat.not_lt.mpr hle))
  case joined => exact fun w hlt => hok.joined w (hjoined w hlt)
  case joining => exact fun i hpc => absurd hpc (hplain i)
  case stopping => exact hstopping
  case cleared => exact fun h => hok.cleared (hcleared h)
  case raising => exact hraising

/-- A step on the streams.  The three alternatives are what it may bring: a
worker started, a worker joined, the streams gone. -/
theorem work (hok : MainOk s) {action : Action n 2} {conversion : State n 2} {pc : MainPc}
    (hstep : s.conversion.step cfg action = some conversion)
    (hcaller : pc.Admits (conversion.caller mainCaller))
    (hreporter : (conversion.caller reporterCaller).OnlyErases)
    (hstarted : ∀ w : Fin n, w < pc.started n →
      w < s.pc.started n ∨ conversion.pc w ≠ .notStarted)
    (hunstarted : ∀ w : Fin n, pc.started n ≤ w →
      s.pc.started n ≤ w ∧ action ≠ .start w ∧ action ≠ .join w)
    (hjoined : ∀ w : Fin n, w < pc.joined n →
      w < s.pc.joined n ∨ conversion.joined w = true)
    (hjoining : ∀ i, pc = .joinWorker i → ∃ h : i < n, conversion.doRun ⟨i, h⟩ = false)
    (hstopping : pc.stopping = true → s.pc.stopping = true)
    (hcleared : pc.cleared = true → conversion.streamPointers = [])
    (hraising : ∀ call, pc = .raising call → s.pc = .raising call) :
    MainOk { s with conversion, pc } := by
  constructor
  case caller => exact hcaller
  case reporter => exact hreporter
  case started =>
    intro w hlt
    rcases hstarted w hlt with hbefore | hnow
    · exact (step_kept hstep).1 (hok.started w hbefore)
    · exact hnow
  case unstarted =>
    intro w hle
    obtain ⟨hbefore, hstart, hjoin⟩ := hunstarted w hle
    exact step_unstarted hstep hstart hjoin (hok.unstarted w hbefore)
  case joined =>
    intro w hlt
    rcases hjoined w hlt with hbefore | hnow
    · exact (step_kept hstep).2 (hok.joined w hbefore)
    · exact hnow
  case joining => exact hjoining
  case stopping => exact fun h => hok.stopping (hstopping h)
  case cleared => exact hcleared
  case raising => exact fun call hpc => hok.raising call (hraising call hpc)

/-- The status reporter does not move when the main thread does. -/
theorem reporter_kept (hok : MainOk s) {action : Action n 2} {conversion : State n 2}
    (hstep : s.conversion.step cfg action = some conversion)
    (hself : action.callerOf ≠ some reporterCaller) :
    (conversion.caller reporterCaller).OnlyErases := by
  rw [step_caller_of_ne hstep hself]
  exact hok.reporter

/-- `goto` while the main loop has not been left. -/
theorem gotoBefore (hok : MainOk s) {pc : MainPc} (hloop : pc.stopping = false)
    (hcaller : pc.Admits (s.conversion.caller mainCaller))
    (hstarted : ∀ w : Fin n, w < pc.started n ↔ w < s.pc.started n)
    (hraising : ∀ call, pc = .raising call → call < s.flag.calls.length) :
    MainOk { s with pc } := by
  obtain ⟨hjoined, hcleared, hplain⟩ := MainPc.untouched (n := n) hloop
  exact hok.goto hcaller hstarted (by simp [hjoined]) (by simp [hloop]) (by simp [hcleared])
    hplain hraising

/-- `work` while the main loop has not been left. -/
theorem workBefore (hok : MainOk s) {action : Action n 2} {conversion : State n 2}
    {pc : MainPc} (hloop : pc.stopping = false)
    (hstep : s.conversion.step cfg action = some conversion)
    (hcaller : pc.Admits (conversion.caller mainCaller))
    (hself : action.callerOf ≠ some reporterCaller)
    (hstarted : ∀ w : Fin n, w < pc.started n →
      w < s.pc.started n ∨ conversion.pc w ≠ .notStarted)
    (hunstarted : ∀ w : Fin n, pc.started n ≤ w →
      s.pc.started n ≤ w ∧ action ≠ .start w ∧ action ≠ .join w)
    (hraising : ∀ call, pc ≠ .raising call) :
    MainOk { s with conversion, pc } := by
  obtain ⟨hjoined, hcleared, hplain⟩ := MainPc.untouched (n := n) hloop
  exact hok.work hstep hcaller (hok.reporter_kept hstep hself) hstarted hunstarted
    (by simp [hjoined]) (fun i hpc => absurd hpc (hplain i)) (by simp [hloop])
    (by simp [hcleared]) (fun call hpc => absurd hpc (hraising call))

/-- Nobody publishes a stream any more when the streams have been cleared. -/
theorem not_publish (hok : MainOk s) (hcleared : s.pc.cleared = true) (c : Fin 2)
    (channel : String) : s.conversion.caller c ≠ .publish channel := by
  intro hcaller
  rcases eq_mainCaller_or_reporterCaller c with rfl | rfl
  · have hadmits := hok.caller
    cases hpc : s.pc with
    | clearing => simp [hpc, MainPc.Admits, CallerPc.OnlyErases, hcaller] at hadmits
    | returned => simp [hpc, MainPc.Admits, hcaller] at hadmits
    | adding _ _ | mapping _ _ | startWorker _ | testFlag | poll | removing
    | raising _ | stopWorker _ | joinWorker _ | clearStreams =>
        rw [hpc] at hcleared
        cases hcleared
  · rcases hok.reporter with hidle | ⟨paths, herasing⟩
    · rw [hidle] at hcaller
      cases hcaller
    · rw [herasing] at hcaller
      cases hcaller

/-- A step on the streams that leaves the main thread where it is, and no
worker started or joined. -/
theorem inPlace (hok : MainOk s) {action : Action n 2} {conversion : State n 2}
    (hstep : s.conversion.step cfg action = some conversion)
    (hquiet : ∀ w, action ≠ .start w ∧ action ≠ .join w)
    (hcaller : s.pc.Admits (conversion.caller mainCaller))
    (hreporter : (conversion.caller reporterCaller).OnlyErases) :
    MainOk { s with conversion } := by
  have hjoining : ∀ i, s.pc = .joinWorker i →
      ∃ h : i < n, conversion.doRun ⟨i, h⟩ = false := by
    intro i hpc
    obtain ⟨h, hstopped⟩ := hok.joining i hpc
    exact ⟨h, step_stopped hstep (hok.started ⟨i, h⟩ (by rw [hpc]; exact h)) hstopped⟩
  have hnext : MainOk { s with conversion, pc := s.pc } :=
    hok.work hstep hcaller hreporter (fun _ => Or.inl) (fun w hle => ⟨hle, hquiet w⟩)
      (fun _ => Or.inl) hjoining id (fun hcleared => step_streamPointers_nil hstep
        (hok.not_publish hcleared) (hok.cleared hcleared)) (fun _ hpc => hpc)
  exact hnext

/-- What another thread does. -/
theorem thread (hok : MainOk s) {action : Action n 2} {conversion : State n 2}
    (haction : action.ofThread = true)
    (hstep : s.conversion.step cfg action = some conversion) :
    MainOk { s with conversion } := by
  have hother : action.callerOf ≠ some mainCaller := by
    cases action <;> simp_all [Action.ofThread, Action.callerOf]
  refine hok.inPlace hstep (fun w => ?_) ?_ ?_
  · constructor <;> rintro rfl <;> cases haction
  · rw [step_caller_of_ne hstep hother]
    exact hok.caller
  · by_cases hself : action.callerOf = some reporterCaller
    · cases action with
      | checkStreamStatus _ => exact Or.inr (step_removal_of hstep hself rfl).erasing
      | destruct _ =>
          cases hself
          rcases hok.reporter with hidle | ⟨paths, herasing⟩
          · simp [State.step, State.destruct, hidle] at hstep
          · exact destruct_of_erasing herasing hstep
      | work _ _ | enqueueUpdate _ _ | errorInEpics _ => cases hself
      | _ => cases haction
    · rw [step_caller_of_ne hstep hself]
      exact hok.reporter

/-- What the main thread does inside `addMapping`. -/
theorem mapping (hok : MainOk s) {startup : Bool} {rest : List String} {action : Action n 2}
    {conversion : State n 2} (hpc : s.pc = .mapping startup rest)
    (haction : action.ofMapping = true)
    (hstep : s.conversion.step cfg action = some conversion) :
    MainOk { s with conversion } := by
  have hself : action.callerOf = some mainCaller := by
    cases action <;> simp_all [Action.ofMapping, Action.callerOf]
  refine hok.inPlace hstep (fun w => ?_) ?_ (hok.reporter_kept hstep (by rw [hself]; decide))
  · constructor <;> rintro rfl <;> cases haction
  · have hcaller := hok.caller
    rw [hpc] at hcaller ⊢
    intro paths herasing
    have hvictim : action.victim s.conversion = none := by
      cases action with
      | stopChannel _ _ | clearStreams _ | checkStreamStatus _ => cases haction
      | _ => rfl
    obtain ⟨before, hbefore⟩ := (step_keeping hstep hself hvictim).erasing paths herasing
    exact hcaller before hbefore

/-- A caller inside a removal, its destructors running. -/
theorem destruct (hok : MainOk s) {conversion : State n 2}
    (hadmits : ∀ caller, s.pc.Admits caller ↔ caller.OnlyErases)
    (hbusy : s.conversion.caller mainCaller ≠ .idle)
    (hstep : s.conversion.step cfg (.destruct mainCaller) = some conversion) :
    MainOk { s with conversion } := by
  refine hok.inPlace hstep (fun w => ⟨by simp, by simp⟩) ?_
    (hok.reporter_kept hstep (by simp [Action.callerOf]))
  obtain ⟨paths, herasing⟩ := ((hadmits _).mp hok.caller).resolve_left hbusy
  exact (hadmits _).mpr (destruct_of_erasing herasing hstep)

/-- A call or an exchange on the flag takes back neither a bit nor a call. -/
theorem flag (hok : MainOk s) {action : CompareExchange.Action ForwardingRunState}
    {flag : RunFlag} (hstep : runFlagSystem.step s.flag action = some flag) :
    MainOk { s with flag } := by
  refine { hok with stopping := fun hstopping hrun => ?_, raising := fun call hpc => ?_ }
  · have hbits := (runFlag_step hstep).1
    rw [hrun] at hbits
    exact hok.stopping hstopping (by simpa [ForwardingRunState.run] using hbits)
  · exact Nat.lt_of_lt_of_le (hok.raising call hpc) (flag_calls_le hstep)

theorem move (hok : MainOk s) (hmove : MainMove cfg s s') : MainOk s' := by
  have hcaller := hok.caller
  cases hmove with
  | thread haction hstep => exact hok.thread haction hstep
  | flag hstep => exact hok.flag hstep
  | mapping hpc haction hstep => exact hok.mapping hpc haction hstep
  | @addMapping startup channel rest conversion hpc hstep =>
      rw [hpc] at hcaller
      have hstage : (MainPc.mapping startup rest).started n = s.pc.started n := by
        rw [hpc]
        cases startup <;> rfl
      refine hok.workBefore rfl hstep (fun paths herasing => ?_) (by simp [Action.callerOf])
        (fun w hlt => Or.inl (hstage ▸ hlt)) (fun w hle => ⟨hstage ▸ hle, by simp, by simp⟩)
        (by simp)
      obtain ⟨before, hbefore⟩ := (step_keeping hstep rfl rfl).erasing paths herasing
      rw [hcaller] at hbefore
      cases hbefore
  | @added startup hpc =>
      rw [hpc] at hcaller
      cases startup with
      | true | false =>
          exact hok.gotoBefore rfl hcaller (by simp [hpc, MainPc.started]) (by simp)
  | @mapped startup rest hpc hidle =>
      have hstage : (MainPc.adding startup rest).started n = s.pc.started n := by
        rw [hpc]
        cases startup <;> rfl
      exact hok.gotoBefore rfl hidle (by simp [hstage]) (by simp)
  | gaveUp hpc hidle | removed hpc hidle =>
      exact hok.gotoBefore rfl hidle (by simp [hpc, MainPc.started]) (by simp)
  | @startWorker i conversion hpc hlt hstep =>
      rw [hpc] at hcaller
      refine hok.workBefore rfl hstep ?_ (by simp [Action.callerOf]) (fun w hw => ?_)
        (fun w hle => ?_) (by simp)
      · rw [step_caller_of_ne hstep (by simp [Action.callerOf])]
        exact hcaller
      · by_cases hi : w = ⟨i, hlt⟩
        · subst hi
          exact Or.inr (step_start hstep)
        · refine Or.inl ?_
          rw [hpc]
          have hne : w.val ≠ i := fun heq => hi (Fin.ext heq)
          simp only [MainPc.started] at hw ⊢
          omega
      · rw [hpc]
        simp only [MainPc.started] at hle ⊢
        refine ⟨by omega, ?_, by simp⟩
        simp only [ne_eq, Action.start.injEq]
        rintro rfl
        simp at hle
  | workersStarted hpc hall =>
      rw [hpc] at hcaller
      refine hok.gotoBefore rfl hcaller (fun w => ?_) (by simp)
      simp only [hpc, MainPc.started]
      omega
  | staysInLoop hpc _ | addCommand hpc | ignoredCommand hpc | raised hpc =>
      rw [hpc] at hcaller
      exact hok.gotoBefore rfl hcaller (by simp [hpc, MainPc.started]) (by simp)
  | leavesLoop hpc hflag =>
      rw [hpc] at hcaller
      exact hok.goto hcaller (by simp [hpc, MainPc.started]) (by simp [MainPc.joined])
        (fun _ => hflag) (by simp [MainPc.cleared]) (by simp) (by simp)
  | exitCommand hpc hstep =>
      rw [hpc] at hcaller
      refine (hok.flag hstep).gotoBefore rfl hcaller (by simp [hpc, MainPc.started]) ?_
      rintro call ⟨⟩
      cases hstep
      simp
  | removalCommand hpc hself hvictim hstep =>
      exact hok.workBefore rfl hstep (Or.inr (step_removal_of hstep hself hvictim).erasing)
        (by simp [hself]) (fun w _ => Or.inl (by rw [hpc]; exact w.2))
        (fun w hle => absurd w.2 (Nat.not_lt.mpr hle)) (by simp)
  | removing hpc hbusy hstep =>
      have hnext := hok.destruct (by simp [hpc, MainPc.Admits]) hbusy hstep
      rwa [hpc] at hnext
  | @stopWorker i conversion hpc hlt hstep =>
      rw [hpc] at hcaller
      refine hok.work hstep ?_ (hok.reporter_kept hstep (by simp [Action.callerOf]))
        (fun w _ => Or.inl (by rw [hpc]; exact w.2))
        (fun w hle => absurd w.2 (Nat.not_lt.mpr hle))
        (fun w hw => Or.inl (by rw [hpc]; exact hw)) ?_ (by simp [hpc, MainPc.stopping])
        (by simp [MainPc.cleared]) (by simp)
      · rw [step_caller_of_ne hstep (by simp [Action.callerOf])]
        exact hcaller
      · rintro j ⟨⟩
        exact ⟨hlt, step_stop hstep⟩
  | @joinWorker i conversion hpc hlt hstep =>
      rw [hpc] at hcaller
      refine hok.work hstep ?_ (hok.reporter_kept hstep (by simp [Action.callerOf]))
        (fun w _ => Or.inl (by rw [hpc]; exact w.2))
        (fun w hle => absurd w.2 (Nat.not_lt.mpr hle)) (fun w hw => ?_) (by simp)
        (by simp [hpc, MainPc.stopping]) (by simp [MainPc.cleared]) (by simp)
      · rw [step_caller_of_ne hstep (by simp [Action.callerOf])]
        exact hcaller
      · by_cases hi : w = ⟨i, hlt⟩
        · subst hi
          exact Or.inr (step_join hstep)
        · refine Or.inl ?_
          rw [hpc]
          have hne : w.val ≠ i := fun heq => hi (Fin.ext heq)
          simp only [MainPc.joined] at hw ⊢
          omega
  | workersStopped hpc hall =>
      rw [hpc] at hcaller
      refine hok.goto hcaller (by simp [hpc, MainPc.started]) ?_ (fun _ => hok.stopping ?_)
        (by simp [MainPc.cleared]) (by simp) (by simp)
      · simp only [hpc, MainPc.joined]
        omega
      · rw [hpc]
        rfl
  | clearStreams hpc hstep =>
      have hmove := step_removal_of hstep rfl rfl
      refine hok.work hstep (Or.inr hmove.erasing)
        (hok.reporter_kept hstep (by simp [Action.callerOf]))
        (fun w _ => Or.inl (by rw [hpc]; exact w.2))
        (fun w hle => absurd w.2 (Nat.not_lt.mpr hle))
        (fun w _ => Or.inl (by rw [hpc]; exact w.2)) (by simp) (by simp [hpc, MainPc.stopping])
        (fun _ => ?_) (by simp)
      rw [hmove.streamPointers]
      simp
  | clearing hpc hbusy hstep =>
      have hnext := hok.destruct (by simp [hpc, MainPc.Admits]) hbusy hstep
      rwa [hpc] at hnext
  | returned hpc hidle =>
      refine hok.goto hidle (by simp [hpc, MainPc.started]) (by simp [hpc, MainPc.joined])
        (fun _ => hok.stopping ?_) (by simp [hpc, MainPc.cleared]) (by simp) (by simp)
      rw [hpc]
      rfl

end MainOk

theorem reachable_mainOk (hreach : (mainSystem cfg n).Reachable s) : MainOk s := by
  refine hreach.invariant ?_ ?_
  · rintro s ⟨channels, cursor, rfl⟩
    exact .initial channels _ cursor
  · intro s action s' _ hok hstep
    exact hok.move (Main.step_move hstep)

/-- A flag that has left `RUN` was raised by a request. -/
theorem exists_stop_request {flag : RunFlag} (hreach : runFlagSystem.Reachable flag)
    (hflag : flag.value ≠ ForwardingRunState.run) :
    ∃ value ∈ flag.effective, value ≠ ForwardingRunState.run := by
  have hbits : bitwiseOr flag.effective &&& flag.value ≠ 0#32 := by
    rw [← runFlag_eq_bitwiseOr hreach, BitVec.and_self]
    exact hflag
  obtain ⟨value, hvalue, hbit⟩ := (bitwiseOr_and_ne_zero_iff _ _).mp hbits
  refine ⟨value, hvalue, ?_⟩
  rintro rfl
  exact hbit BitVec.zero_and

/-- What was dequeued has been emitted once every queue is empty. -/
theorem emittedCount_of_drained {s : State n m}
    (hreach : (conversionSystem cfg n m).Reachable s) (hqueues : ∀ w, s.queue w = [])
    {d : Dequeue} (hd : d ∈ s.dequeued) {path : Nat} (hpath : path ∈ d.paths) :
    s.emittedCount d.entry path = 1 := by
  have hruns : Dispatch.Runs (fun _ _ _ => True) s.traffic :=
    reachesVia_traffic (fun _ _ _ _ _ _ => trivial) hreach
  have htaken : (⟨d.entry, d.stream, d.paths⟩ : Dispatch.Taken Nat Nat Entry) ∈
      s.traffic.dequeued := List.mem_map_of_mem hd
  have haccounted : s.AccountedFor d.entry path := by
    simpa only [State.AccountedFor, State.queuedCount_eq, State.emittedCount_eq] using
      hruns.accounted htaken hpath
  rcases haccounted with ⟨w, hqueued, -⟩ | ⟨-, hemitted⟩
  · simp [State.queuedCount, hqueues w] at hqueued
  · exact hemitted

/-- A graceful end.  When `forward_epics_to_kafka` returns, someone has asked
for it, all workers have ended with nothing left in their hands, there is no
stream and no packet in transit, and every update that was dequeued has been
passed to every path it was dequeued for, once. -/
theorem returned_leaves_nothing (cfg : Config) (n : Nat) (s : Main n)
    (hreach : (mainSystem cfg n).Reachable s) (hreturned : s.pc = .returned) :
    (∃ value ∈ s.flag.effective, value ≠ ForwardingRunState.run) ∧
      s.conversion.streamPointers = [] ∧
      (∀ w, s.conversion.pc w = .exited ∧ s.conversion.outstanding w = []) ∧
      (∀ path, s.conversion.transit path = 0) ∧
      ∀ d ∈ s.conversion.dequeued, ∀ path ∈ d.paths,
        s.conversion.emittedCount d.entry path = 1 := by
  have hok := reachable_mainOk hreach
  have hconversion := Main.reachable_conversion hreach
  have hjoined : ∀ w, s.conversion.joined w = true := fun w =>
    hok.joined w (by rw [hreturned]; exact w.2)
  have hexited : ∀ w, s.conversion.pc w = .exited := fun w =>
    (reachable_joinedOk hconversion w (hjoined w)).resolve_left
      (hok.started w (by rw [hreturned]; exact w.2))
  have hdrained := (reachable_joinedOk hconversion).drained (reachable_queuesOk hconversion)
    hjoined
  refine ⟨?_, hok.cleared (by rw [hreturned]; rfl),
    fun w => ⟨hexited w, (hdrained w).2⟩, ?_, ?_⟩
  · exact exists_stop_request (Main.reachesVia_flag hreach)
      (hok.stopping (by rw [hreturned]; rfl))
  · intro path
    rw [(reachable_transitOk hconversion).count path, Threads.total_eq_zero_iff]
    intro w packet hpacket
    rw [(hdrained w).2] at hpacket
    cases hpacket
  · intro d hd path hpath
    exact emittedCount_of_drained hconversion (fun w => (hdrained w).1) hd hpath

/-- One stream from the configuration file, one update, and an `exit` command
that arrives before the update has been emitted. -/
def exitAfterUpdate (w : Fin n) : List (MainAction n) :=
  [.main, .mapping (.getStreamByChannelName mainCaller), .mapping (.add mainCaller),
      .mapping (.addConverter mainCaller), .mapping (.addMappingReturns mainCaller),
      .mapping (.destruct mainCaller), .main, .main, .main, .main, .main,
      .thread (.enqueueUpdate 0 (some 7))] ++
    List.replicate 6 (.thread (.work w 1)) ++
    [.poll .exit, .flag (.load 0), .flag (.exchange 0 false), .main, .main, .main] ++
    List.replicate 8 (.thread (.work w 1)) ++ List.replicate 6 .main

theorem exitAfterUpdate_leaves_nothing :
    ∃ s : Main 1, s.pc = .returned ∧ s.conversion.dequeued = [⟨⟨0, 7⟩, 0, [0]⟩] ∧
      s.conversion.streamPointers = [] ∧ s.conversion.emittedCount ⟨0, 7⟩ 0 = 1 := by
  obtain ⟨s, hreach, hreturned, hdequeued⟩ := Transition.System.exists_reachable_of_run
    (T := mainSystem .maxSubqueueSize 1)
    (fun s => s.pc = .returned ∧ s.conversion.dequeued = [⟨⟨0, 7⟩, 0, [0]⟩])
    (exitAfterUpdate 0) ⟨["pv"], 0, rfl⟩ (by decide +kernel)
  obtain ⟨-, hnone, -, -, hemitted⟩ :=
    returned_leaves_nothing .maxSubqueueSize 1 s hreach hreturned
  exact ⟨s, hreturned, hdequeued, hnone,
    hemitted ⟨⟨0, 7⟩, 0, [0]⟩ (by simp [hdequeued]) 0 (by simp)⟩

/-- The main thread handles what `poll` has returned. -/
def MainAction.polls : MainAction n → Bool
  | .poll _ => true
  | _ => false

/-- What the main thread waits for, if it waits. -/
inductive Main.WaitsFor (s : Main n) : Thread n 2 → Prop
  | join {i : Nat} (h : i < n) (hpc : s.pc = .joinWorker i) : WaitsFor s (.inl ⟨i, h⟩)
  | outer {t : Thread n 2} {startup : Bool} {channel : String} {rest : List String}
      (hpc : s.pc = .adding startup (channel :: rest))
      (hheld : s.conversion.forwarderStreamsMutex = some t) : WaitsFor s t
  | inner {c : Fin 2} (hpc : s.pc = .clearStreams) (hheld : s.conversion.streamsMutex = some c) :
      WaitsFor s (.inr c)
  | own (hbusy : s.conversion.caller mainCaller ≠ .idle) : WaitsFor s (.inr mainCaller)

namespace Main

end Main

end EpicsToKafka
