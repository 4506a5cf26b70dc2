/-
What `ConversionWorker::stop` waits for.  A worker that has been told to stop
finishes the `fill` it is in, drains its queue and returns; how long that
takes depends on the streams, their paths and the updates that are there, not
on what the other threads do.  Removals that come between two steps of a
`fill` spoil this; removals made under the scheduler's `mx` would not.
-/
import EpicsToKafka.ConversionDeadlocks
import Mathlib.Algebra.BigOperators.Group.Finset.Basic
import Mathlib.Algebra.Order.BigOperators.Group.Finset

namespace EpicsToKafka

open Relation

variable {n m : Nat} {cfg : Config} {s s' : State n m} {w v : Fin n} {c : Fin m}
variable {streams paths : Nat}

/-- A step that keeps every `fill` in its round and in range, and spares the
packets of the streams it removes. -/
def State.Undisturbed (cfg : Config) (s : State n m) (action : Action n m) : Prop :=
  s.KeepsRound action ∧ s.KeepsIndex cfg action ∧ s.Spares cfg action

instance (s : State n m) (action : Action n m) : Decidable (s.Undisturbed cfg action) :=
  inferInstanceAs (Decidable
    (s.KeepsRound action ∧ s.KeepsIndex cfg action ∧ s.Spares cfg action))

/-- The updates that wait in the `OutputQueue`s of all streams. -/
def State.backlog (s : State n m) : Nat :=
  ∑ x ∈ Finset.range s.nextStream, (s.heap x).outputQueue.length

/-- The steps a stopped worker has left before it returns, those for updates
and packets apart, when there are at most `streams` streams with at most
`paths` paths.  A visit of a stream takes the index, the end of
`fillConversionQueue`, the release, a destructor for each path, the end of
`~Stream` and the advance. -/
def WorkerPc.stepsLeft (streams paths : Nat) : WorkerPc → Nat
  | .notStarted | .exited => 0
  | .loop => 1
  | .drain => 2
  | .emitting _ => 3
  | .index frame => (paths + 5) * (frame.total - frame.visits) + 2
  | .advance frame _ => (paths + 5) * (frame.total - frame.visits) + 3
  | .destroying frame dying _ =>
      (paths + 5) * (frame.total - frame.visits) + dying.length + 4
  | .release frame _ _ => (paths + 5) * (frame.total - frame.visits) + paths + 5
  | .filling frame _ _ => (paths + 5) * (frame.total - frame.visits) + paths + 6
  | .checkSid => (paths + 5) * streams + 3
  | .lockStreams => (paths + 5) * streams + 4
  | .checkEmpty => (paths + 5) * streams + 5
  | .lockMx => (paths + 5) * streams + 6

/-- A packet is emitted and destroyed; an update is taken once and becomes a
packet for each path. -/
def State.stepsLeft (s : State n m) (w : Fin n) (streams paths : Nat) : Nat :=
  (s.pc w).stepsLeft streams paths + 2 * (s.queue w).length + (2 * paths + 1) * s.backlog

def Action.worksFor (w : Fin n) : Action n m → Bool
  | .work v _ => decide (v = w)
  | _ => false

def Action.enqueues : Action n m → Bool
  | .enqueueUpdate _ _ => true
  | _ => false

/-- One stream's queue changes, all others stay. -/
theorem State.backlog_update {stream : Nat} (hstream : stream < s.nextStream)
    (hnext : s'.nextStream = s.nextStream)
    (hother : ∀ x, x ≠ stream → (s'.heap x).outputQueue = (s.heap x).outputQueue) :
    s'.backlog + (s.heap stream).outputQueue.length =
      s.backlog + (s'.heap stream).outputQueue.length := by
  have hmem : stream ∈ Finset.range s.nextStream := Finset.mem_range.mpr hstream
  have hrest : ∑ x ∈ (Finset.range s.nextStream).erase stream, (s'.heap x).outputQueue.length =
      ∑ x ∈ (Finset.range s.nextStream).erase stream, (s.heap x).outputQueue.length :=
    Finset.sum_congr rfl fun x hx => by rw [hother x (Finset.ne_of_mem_erase hx)]
  rw [State.backlog, State.backlog, hnext, ← Finset.add_sum_erase _ _ hmem,
    ← Finset.add_sum_erase _ (fun x => (s.heap x).outputQueue.length) hmem, hrest]
  omega

theorem State.backlog_congr (hnext : s'.nextStream = s.nextStream)
    (hsame : ∀ x, x < s.nextStream → (s'.heap x).outputQueue = (s.heap x).outputQueue) :
    s'.backlog = s.backlog := by
  rw [State.backlog, State.backlog, hnext]
  exact Finset.sum_congr rfl fun x hx => by rw [hsame x (Finset.mem_range.mp hx)]

theorem length_le_of_forall_lt {l : List Nat} {bound : Nat} (hnodup : l.Nodup)
    (hlt : ∀ x ∈ l, x < bound) : l.length ≤ bound := by
  have hsub : l ⊆ List.range bound := fun x hx => List.mem_range.mpr (hlt x hx)
  simpa using (hnodup.subperm hsub).length_le

theorem AllocOk.length_streamPointers (halloc : AllocOk s) :
    s.streamPointers.length ≤ s.nextStream :=
  length_le_of_forall_lt halloc.pointers_nodup halloc.pointers_lt

theorem AllocOk.length_conversionPaths (halloc : AllocOk s) (x : Nat) :
    (s.heap x).conversionPaths.length ≤ s.nextPath :=
  length_le_of_forall_lt (halloc.paths_nodup x) (halloc.paths_lt x)

/-- An iteration takes an update and queues at most a packet for each path. -/
theorem iterate_lengths {frame : FillFrame} {stream : Nat} {locals : FillLocals}
    {next : FillState Entry} (htransit : TransitOk cfg s)
    (hpc : s.pc w = .filling frame stream locals)
    (hiter : fillIteration (fun _ => true) (s.heap stream).conversionPaths
      (uint32Sub cfg.nfm frame.nfc) (s.fillState w stream locals) = some next) :
    (s.heap stream).outputQueue.length = next.outputQueue.length + 1 ∧
      next.queue.length ≤
        (s.queue w).length + (s.heap stream).conversionPaths.length := by
  have hwell := htransit.locals w frame stream locals (by rw [hpc]; rfl)
  obtain ⟨-, ⟨rest, hfront, rfl⟩ | ⟨entry, rest, hfront, rfl⟩⟩ :=
    fillIteration_success hwell hiter
  · have hqueue : (s.heap stream).outputQueue = none :: rest := hfront
    exact ⟨by rw [hqueue]; rfl, Nat.le_add_right _ _⟩
  · have hqueue : (s.heap stream).outputQueue = some entry :: rest := hfront
    refine ⟨by rw [hqueue]; rfl, ?_⟩
    simp [FillState.afterRow, State.fillState]

theorem State.backlog_afterIteration {frame : FillFrame} {stream : Nat} {locals : FillLocals}
    {next : FillState Entry} (halloc : AllocOk s)
    (hpc : s.pc w = .filling frame stream locals)
    (hlength : (s.heap stream).outputQueue.length = next.outputQueue.length + 1) :
    (s.afterIteration w frame stream next).backlog + 1 = s.backlog := by
  have hstream : stream < s.nextStream := halloc.worker_lt w stream (by rw [hpc]; rfl)
  have hupdate : (s.afterIteration w frame stream next).backlog +
      (s.heap stream).outputQueue.length =
        s.backlog +
          ((s.afterIteration w frame stream next).heap stream).outputQueue.length := by
    refine State.backlog_update hstream rfl fun x hx => ?_
    simp [State.afterIteration, hx]
  have hafter : ((s.afterIteration w frame stream next).heap stream).outputQueue =
      next.outputQueue := by simp [State.afterIteration]
  rw [hafter] at hupdate
  omega

/-- Workers take updates and add none. -/
theorem WorkerMove.backlog_le (hmove : WorkerMove cfg s w s') (halloc : AllocOk s)
    (htransit : TransitOk cfg s) : s'.backlog ≤ s.backlog := by
  have hnext := hmove.frame.nextStream
  cases hmove with
  | iterate hpc hiter =>
      have hbacklog := State.backlog_afterIteration halloc hpc
        (iterate_lengths htransit hpc hiter).1
      omega
  | closeBatch _ =>
      refine Nat.le_of_eq (State.backlog_congr hnext fun x _ => ?_)
      unfold State.closeBatch
      split <;> rfl
  | destroyPacket _ =>
      refine Nat.le_of_eq (State.backlog_congr hnext fun x _ => ?_)
      unfold State.destroyPacket
      split <;> rfl
  | exit _ _ | callFill _ _ _ | skipFill _ _ | lockMx _ _ | noStreams _ _ _
  | someStreams _ _ _ | lockStreams _ _ | enterLoop _ _ _ | enterFull _ _ _
  | outOfRange _ _ _ | visit _ _ _ | lastOwner _ _ | notLastOwner _
  | pathDestroyed _ _ | streamDestroyed _ | again _ _ _ _ | finish _ _ _
  | drained _ _ | emit _ _ => exact Nat.le_refl _

/-- A step of the worker that leaves its queue and the updates alone. -/
theorem State.stepsLeft_of_pc (hqueue : (s'.queue w).length = (s.queue w).length)
    (hbacklog : s'.backlog ≤ s.backlog)
    (hpc : (s'.pc w).stepsLeft streams paths + 1 ≤ (s.pc w).stepsLeft streams paths) :
    s'.stepsLeft w streams paths + 1 ≤ s.stepsLeft w streams paths := by
  have hupdates := Nat.mul_le_mul_left (2 * paths + 1) hbacklog
  unfold State.stepsLeft
  omega

theorem State.closeBatch_length_queue (s : State n m) (w : Fin n) (frame : FillFrame)
    (stream : Nat) (locals : FillLocals) :
    ((s.closeBatch w frame stream locals).queue w).length = (s.queue w).length := by
  unfold State.closeBatch
  split
  · simp [tagLast]
  · rfl

/-- Each step of a stopped worker brings it nearer to its return.  The visit
of a stream needs the bound on the rounds, the destructors the bound on the
paths. -/
theorem WorkerMove.stepsLeft_lt (hmove : WorkerMove cfg s w s') (halloc : AllocOk s)
    (htransit : TransitOk cfg s) (hqueues : QueuesOk s) (hindex : IndexOk s)
    (hrounds : RoundsOk s') (hstopped : s.doRun w = false)
    (hstreams : s.nextStream ≤ streams) (hpaths : s.nextPath ≤ paths) :
    s'.stepsLeft w streams paths + 1 ≤ s.stepsLeft w streams paths := by
  have hbacklog := hmove.backlog_le halloc htransit
  cases hmove with
  | callFill _ hrun _ => rw [hstopped] at hrun; cases hrun
  | skipFill hpc hqueue => exact absurd (hqueues w (by rw [hpc]; rfl)) hqueue
  | outOfRange hpc _ hrange => exact absurd (hindex.range w _ hpc) (by omega)
  | exit hpc _ | lockMx hpc _ | someStreams hpc _ _ | lockStreams hpc _
  | streamDestroyed hpc | drained hpc _ | again hpc _ _ _ =>
      refine State.stepsLeft_of_pc rfl hbacklog ?_
      simp [hpc, WorkerPc.stepsLeft]
  | noStreams hpc _ _ | enterFull hpc _ _ | finish hpc _ _ =>
      refine State.stepsLeft_of_pc rfl hbacklog ?_
      simp [hpc, WorkerPc.stepsLeft, State.fillReturns]
  | enterLoop hpc _ _ =>
      refine State.stepsLeft_of_pc rfl hbacklog ?_
      have hle : s.streamPointers.length ≤ streams :=
        Nat.le_trans halloc.length_streamPointers hstreams
      have hvisits := Nat.mul_le_mul_left (paths + 5) hle
      simp only [hpc, State.setPc_pc_self, WorkerPc.stepsLeft, Nat.sub_zero]
      omega
  | @visit frame stream sizeApprox hpc _ hstream =>
      refine State.stepsLeft_of_pc rfl hbacklog ?_
      have hbounded : frame.visits + 1 ≤ frame.total :=
        (hrounds w { frame with visits := frame.visits + 1 } (by simp [WorkerPc.frame])).bounded
      have hleft : frame.total - frame.visits = frame.total - (frame.visits + 1) + 1 := by
        omega
      simp only [hpc, State.setPc_pc_self, WorkerPc.stepsLeft, hleft, Nat.mul_add]
      omega
  | @iterate frame stream locals next hpc hiter =>
      obtain ⟨hlength, hqueue⟩ := iterate_lengths htransit hpc hiter
      have hone := State.backlog_afterIteration halloc hpc hlength
      have hpaths' := halloc.length_conversionPaths stream
      have hafter : (s.afterIteration w frame stream next).queue w = next.queue :=
        Function.update_self _ _ _
      have hpc' : (s.afterIteration w frame stream next).pc w =
          .filling frame stream next.locals := s.setPc_pc_self w _
      simp only [State.stepsLeft, hpc, hpc', hafter, ← hone, WorkerPc.stepsLeft, Nat.mul_add]
      omega
  | closeBatch hpc =>
      refine State.stepsLeft_of_pc (s.closeBatch_length_queue w _ _ _) hbacklog ?_
      simp only [hpc, State.closeBatch_pc, State.setPc_pc_self, WorkerPc.stepsLeft]
      omega
  | @lastOwner frame stream n1 hpc _ =>
      refine State.stepsLeft_of_pc rfl hbacklog ?_
      have hpaths' := halloc.length_conversionPaths stream
      simp only [hpc, State.setPc_pc_self, WorkerPc.stepsLeft]
      omega
  | notLastOwner hpc | pathDestroyed hpc _ =>
      refine State.stepsLeft_of_pc rfl hbacklog ?_
      simp only [hpc, State.setPc_pc_self, WorkerPc.stepsLeft, List.length_cons]
      omega
  | @emit packet rest hpc hqueue =>
      have hupdates := Nat.mul_le_mul_left (2 * paths + 1) hbacklog
      simp only [State.stepsLeft, State.setPc_pc_self, Function.update_self, hpc, hqueue,
        WorkerPc.stepsLeft, List.length_cons] at hupdates ⊢
      omega
  | @destroyPacket packet hpc =>
      refine State.stepsLeft_of_pc ?_ hbacklog ?_
      · rw [State.destroyPacket_queue]
        rfl
      · simp [hpc, WorkerPc.stepsLeft]

theorem OutsideMove.backlog (hmove : OutsideMove s s') :
    s'.backlog + s.nextTicket = s.backlog + s'.nextTicket := by
  cases hmove with
  | @enqueueUpdate stream update hstream =>
      have hnext : ({ s with
          heap := Function.update s.heap stream
            { s.heap stream with
              outputQueue := (s.heap stream).outputQueue ++
                [update.map fun u => ⟨s.nextTicket, u⟩] }
          nextTicket := s.nextTicket + 1 } : State n m).nextStream = s.nextStream := rfl
      have hupdate := State.backlog_update hstream hnext (by intro x hx; simp [hx])
      simp only [Function.update_self, List.length_append, List.length_singleton] at hupdate ⊢
      omega
  | @errorInEpics stream hstream =>
      simp only [Nat.add_right_cancel_iff]
      refine State.backlog_congr rfl fun x _ => ?_
      by_cases hx : x = stream
      · subst hx
        simp
      · simp [hx]
  | start _ _ | stop | join _ => rfl

theorem CallerMove.backlog (hmove : CallerMove s c s') : s'.backlog = s.backlog := by
  cases hmove with
  | add _ _ =>
      rw [State.backlog, State.backlog, Finset.sum_range_succ]
      simp only [Function.update_self, List.length_nil, Nat.add_zero]
      refine Finset.sum_congr rfl fun x hx => ?_
      rw [Function.update_of_ne (Nat.ne_of_lt (Finset.mem_range.mp hx))]
  | @addConverter stream _ =>
      refine State.backlog_congr rfl fun x _ => ?_
      by_cases hx : x = stream
      · subst hx
        simp
      · simp [hx]
  | addMapping _ _ | found _ _ _ | notFound _ _ _ | throwEarly _ | keepStream _
  | dropStream _ _ | eraseIf _ _ | erased _ | erasePath _ _ | returned _
  | returnPath _ _ => rfl

theorem step_nextTicket {action : Action n m} (hstep : s.step cfg action = some s') :
    s'.nextTicket = s.nextTicket + action.enqueues.toNat := by
  cases action with
  | work w sizeApprox => exact (step_work hstep).frame.nextTicket
  | addMapping _ _ | getStreamByChannelName _ | add _ | addConverter _
  | addMappingReturns _ | stopChannel _ _ | clearStreams _ | checkStreamStatus _
  | destruct _ => exact (step_callerMove hstep rfl).frame.nextTicket
  | start w | join w | enqueueUpdate stream update | errorInEpics stream =>
      unfold State.step at hstep
      split at hstep
      · cases hstep
      simp only [State.start, State.join, State.enqueueUpdate, State.errorInEpics] at hstep
      split at hstep
      · cases hstep
        rfl
      · cases hstep
  | stop w =>
      unfold State.step at hstep
      split at hstep
      · cases hstep
      · cases hstep
        rfl

theorem step_backlog_le {action : Action n m}
    (hreach : (conversionSystem cfg n m).Reachable s) (hstep : s.step cfg action = some s') :
    s'.backlog ≤ s.backlog + action.enqueues.toNat := by
  have hticket := step_nextTicket hstep
  rcases step_move hstep with ⟨w, hmove⟩ | ⟨c, hmove⟩ | hmove
  · exact Nat.le_trans
      (hmove.backlog_le (reachable_allocOk hreach) (reachable_transitOk hreach))
      (Nat.le_add_right _ _)
  · exact Nat.le_trans (Nat.le_of_eq hmove.backlog) (Nat.le_add_right _ _)
  · have harrived := hmove.backlog
    omega

/-- The other threads leave a stopped worker where it is, and stopped. -/
theorem step_of_other {action : Action n m} (hstep : s.step cfg action = some s')
    (hother : action.worksFor w = false) (hstarted : s.pc w ≠ .notStarted)
    (hstopped : s.doRun w = false) :
    s'.pc w = s.pc w ∧ s'.queue w = s.queue w ∧ s'.doRun w = false := by
  rcases step_labelled hstep with
    ⟨v, sizeApprox, rfl, hmove⟩ | ⟨c, victim, hmove⟩ | ⟨c, hmove⟩ | hmove
  · have hne : w ≠ v := fun heq => by simp [Action.worksFor, heq] at hother
    exact ⟨hmove.frame.pc w hne, hmove.frame.queue w hne, by rw [hmove.frame.doRun, hstopped]⟩
  · rw [hmove.next]
    exact ⟨rfl, rfl, hstopped⟩
  · have hframe := hmove.move.frame
    refine ⟨by rw [hframe.pc], by rw [hframe.queue], ?_⟩
    cases hmove.move <;> exact hstopped
  · cases hmove with
    | @start v hpc _ =>
        have hne : w ≠ v := by
          rintro rfl
          exact hstarted hpc
        exact ⟨s.setPc_pc_of_ne _ hne, rfl, by simpa [hne] using hstopped⟩
    | @stop v =>
        refine ⟨rfl, rfl, ?_⟩
        by_cases hv : w = v
        · subst hv
          simp
        · simpa [hv] using hstopped
    | join _ | enqueueUpdate _ | errorInEpics _ => exact ⟨rfl, rfl, hstopped⟩

theorem runVia_next_le {schedule : List (Action n m)}
    (hrun : (conversionSystem cfg n m).runVia (State.Undisturbed cfg) s schedule = some s') :
    s.nextStream ≤ s'.nextStream ∧ s.nextPath ≤ s'.nextPath := by
  induction schedule generalizing s with
  | nil =>
      simp only [Transition.System.runVia, Option.some.injEq] at hrun
      subst hrun
      exact ⟨Nat.le_refl _, Nat.le_refl _⟩
  | cons action rest ih =>
      rw [Transition.System.runVia] at hrun
      split at hrun
      · obtain ⟨next, hstep, hrest⟩ := Option.bind_eq_some_iff.mp hrun
        have hnext := step_next_le hstep
        have hlast := ih hrest
        exact ⟨Nat.le_trans hnext.1 hlast.1, Nat.le_trans hnext.2 hlast.2⟩
      · cases hrun

/-- What is known of a worker that has been told to stop. -/
structure StoppedWorker (cfg : Config) (s : State n m) (w : Fin n) : Prop where
  reached : (conversionSystem cfg n m).ReachesVia (State.Undisturbed cfg) s
  started : s.pc w ≠ .notStarted
  stopped : s.doRun w = false

theorem WorkerMove.started (hmove : WorkerMove cfg s w s') : s'.pc w ≠ .notStarted := by
  cases hmove with
  | outOfRange hpc _ _ => simp [hpc]
  | enterFull _ _ _ | finish _ _ _ => simp [State.fillReturns]
  | _ => simp

namespace StoppedWorker

theorem step (hworker : StoppedWorker cfg s w) {action : Action n m}
    (hok : s.Undisturbed cfg action) (hstep : s.step cfg action = some s')
    (hstreams : s.nextStream ≤ streams) (hpaths : s.nextPath ≤ paths) :
    StoppedWorker cfg s' w ∧
      s'.stepsLeft w streams paths + (action.worksFor w).toNat ≤
        s.stepsLeft w streams paths + (2 * paths + 1) * action.enqueues.toNat := by
  have hreach := hworker.reached.reachable
  have hnext : (conversionSystem cfg n m).ReachesVia (State.Undisturbed cfg) s' :=
    hworker.reached.step hok hstep
  cases hother : action.worksFor w with
  | true =>
      obtain ⟨sizeApprox, rfl⟩ : ∃ sizeApprox, action = .work w sizeApprox := by
        cases action <;> simp_all [Action.worksFor]
      have hmove := step_work hstep
      have hindex := reachesVia_indexOk (hworker.reached.mono fun _ _ h => h.2.1)
      have hrounds := reachesVia_roundsOk (hnext.mono fun _ _ h => h.1)
      refine ⟨⟨hnext, hmove.started, by rw [hmove.frame.doRun, hworker.stopped]⟩, ?_⟩
      exact hmove.stepsLeft_lt (reachable_allocOk hreach) (reachable_transitOk hreach)
        (reachable_queuesOk hreach) hindex hrounds hworker.stopped hstreams hpaths
  | false =>
      obtain ⟨hpc, hqueue, hstopped⟩ :=
        step_of_other hstep hother hworker.started hworker.stopped
      refine ⟨⟨hnext, by rw [hpc]; exact hworker.started, hstopped⟩, ?_⟩
      have hbacklog := Nat.mul_le_mul_left (2 * paths + 1) (step_backlog_le hreach hstep)
      rw [Nat.mul_add] at hbacklog
      simp only [State.stepsLeft, hpc, hqueue, Bool.toNat_false]
      omega

theorem run (hworker : StoppedWorker cfg s w) {schedule : List (Action n m)}
    (hrun : (conversionSystem cfg n m).runVia (State.Undisturbed cfg) s schedule = some s') :
    StoppedWorker cfg s' w ∧
      s'.stepsLeft w s'.nextStream s'.nextPath + schedule.countP (Action.worksFor w) ≤
        s.stepsLeft w s'.nextStream s'.nextPath +
          (2 * s'.nextPath + 1) * schedule.countP Action.enqueues := by
  refine Transition.System.runVia_potential (fun state => StoppedWorker cfg state w)
    (fun state => state.stepsLeft w s'.nextStream s'.nextPath) ?_ hworker hrun
  intro before action next rest _ hbefore hok hstep hrest
  have hgrown := step_next_le hstep
  have hlast := runVia_next_le hrest
  exact hbefore.step hok hstep (Nat.le_trans hgrown.1 hlast.1)
    (Nat.le_trans hgrown.2 hlast.2)

end StoppedWorker

/-- In an undisturbed run nothing throws, and the waits of every busy thread
end at one that can proceed. -/
theorem State.Undisturbed.alive
    (hreach : (conversionSystem cfg n m).ReachesVia (State.Undisturbed cfg) s) :
    s.terminated = false ∧ ∀ t, s.Busy t →
      ∃ u, ReflTransGen s.WaitsFor t u ∧ s.CanProceed cfg u := by
  have halive := (reachesVia_indexOk (hreach.mono fun _ _ h => h.2.1)).alive
  refine ⟨halive, fun t hbusy => ?_⟩
  exact (WaitsOk.of_reachable hreach.reachable halive).exists_canProceed
    (reachesVia_queuedSpared (hreach.mono fun _ _ h => h.2.2.1))
    (reachesVia_heldSpared (hreach.mono fun _ _ h => h.2.2.2)) hbusy

/-- `ConversionWorker::stop` returns.  Once its flag is down the worker takes
boundedly many steps, however the other threads are scheduled; until it has
returned its waits end at a thread that can proceed; and when it has, it
leaves no packet behind and can be joined. -/
theorem stopped_worker_returns (cfg : Config) (n m : Nat) (s s' : State n m)
    (hreach : (conversionSystem cfg n m).ReachesVia (State.Undisturbed cfg) s) (w : Fin n)
    (hstarted : s.pc w ≠ .notStarted) (hstopped : s.doRun w = false)
    (schedule : List (Action n m))
    (hrun : (conversionSystem cfg n m).runVia (State.Undisturbed cfg) s schedule = some s') :
    schedule.countP (Action.worksFor w) ≤
        s.stepsLeft w s'.nextStream s'.nextPath +
          (2 * s'.nextPath + 1) * schedule.countP Action.enqueues ∧
      (s'.pc w ≠ .exited →
        ∃ u, ReflTransGen s'.WaitsFor (.inl w) u ∧ s'.CanProceed cfg u) ∧
      (s'.pc w = .exited →
        s'.outstanding w = [] ∧ (s'.step cfg (.join w)).isSome = true) := by
  obtain ⟨hworker, hsteps⟩ := StoppedWorker.run ⟨hreach, hstarted, hstopped⟩ hrun
  obtain ⟨halive, hwaits⟩ := State.Undisturbed.alive hworker.reached
  refine ⟨by omega, fun hpc => hwaits (.inl w) ⟨hworker.started, hpc⟩, fun hpc => ?_⟩
  have hqueue : s'.queue w = [] :=
    reachable_queuesOk hworker.reached.reachable w (by rw [hpc]; rfl)
  refine ⟨by rw [State.outstanding_eq_queue (by rw [hpc]; rfl), hqueue], ?_⟩
  simp [State.step, State.join, halive, hworker.stopped, hpc]

/-- A worker is stopped inside `fill`, takes the update that is there, and
drains its packet while the channel is being removed. -/
def stopInsideFill (w : Fin n) (c : Fin m) : List (Action n m) :=
  Action.mapChannel c "pv" ++ [.enqueueUpdate 0 (some 7), .start w] ++
    List.replicate 5 (.work w 1) ++ [.stop w]

def drainAfterStop (w : Fin n) (c : Fin m) : List (Action n m) :=
  List.replicate 6 (.work w 1) ++ [.stopChannel c "pv", .work w 1, .destruct c,
    .destruct c, .work w 1, .work w 1]

theorem stopInsideFill_returns :
    ∃ s s' : State 1 1, s.stepsLeft 0 1 1 = 11 ∧ s'.pc 0 = .exited ∧
      (drainAfterStop 0 0 : List (Action 1 1)).countP (Action.worksFor 0) ≤ 11 ∧
      s'.outstanding 0 = [] ∧ (s'.step .maxSubqueueSize (.join 0)).isSome = true := by
  obtain ⟨s, hreach, hstarted, hstopped, hleft, hsome⟩ :=
    Transition.System.exists_reachesVia_of_run
      (T := conversionSystem .maxSubqueueSize 1 1) (State.Undisturbed .maxSubqueueSize)
      (fun s => s.pc 0 ≠ .notStarted ∧ s.doRun 0 = false ∧ s.stepsLeft 0 1 1 = 11 ∧
        ((conversionSystem .maxSubqueueSize 1 1).runVia (State.Undisturbed .maxSubqueueSize) s
          (drainAfterStop 0 0)).any (fun s' => s'.pc 0 = .exited ∧ s'.nextStream = 1 ∧
            s'.nextPath = 1) = true)
      (stopInsideFill 0 0) ⟨0, rfl⟩ (by decide +kernel)
  obtain ⟨s', hrun, hfinal⟩ := (Option.any_eq_true _ _).mp hsome
  obtain ⟨hexited, hstreams, hpaths⟩ := of_decide_eq_true hfinal
  obtain ⟨hsteps, -, hreturned⟩ := stopped_worker_returns .maxSubqueueSize 1 1 s s' hreach 0
    hstarted hstopped _ hrun
  rw [hstreams, hpaths, hleft] at hsteps
  exact ⟨s, s', hleft, hexited, hsteps, hreturned hexited⟩

/-- A removal happens only while no worker is inside `fill`, as if it took the
scheduler's `mx` first. -/
def State.Serialized (s : State n m) (action : Action n m) : Prop :=
  (action.victim s).isSome = true → s.mx = none

instance (s : State n m) (action : Action n m) : Decidable (s.Serialized action) :=
  inferInstanceAs (Decidable ((action.victim s).isSome = true → s.mx = none))

/-- What a worker inside `fill` has seen of `Streams` is still there. -/
structure FillsKeep (s : State n m) : Prop where
  pointers : ∀ w, (s.pc w).locksMx = true → s.pc w ≠ .checkEmpty → s.streamPointers ≠ []
  held : ∀ w stream, (s.pc w).held = some stream → stream ∈ s.streamPointers

namespace FillsKeep

theorem workerMove (hkeep : FillsKeep s) (hmove : WorkerMove cfg s w s') : FillsKeep s' := by
  have hframe := hmove.frame
  constructor
  · intro v hinside hchecked
    rw [hframe.streamPointers]
    by_cases hv : v = w
    · subst hv
      cases hmove with
      | someStreams _ _ hsome => exact hsome
      | lockMx _ _ => simp at hchecked
      | lockStreams hpc _ | enterLoop hpc _ _ | visit hpc _ _ | iterate hpc _
      | closeBatch hpc | lastOwner hpc _ | notLastOwner hpc | pathDestroyed hpc _
      | streamDestroyed hpc | again hpc _ _ _ =>
          exact hkeep.pointers v (by rw [hpc]; rfl) (by rw [hpc]; exact WorkerPc.noConfusion)
      | outOfRange hpc _ _ => exact hkeep.pointers v hinside hchecked
      | exit _ _ | callFill _ _ _ | skipFill _ _ | noStreams _ _ _ | drained _ _
      | emit _ _ | destroyPacket _ => simp [WorkerPc.locksMx] at hinside
      | enterFull _ _ _ | finish _ _ _ => simp [State.fillReturns, WorkerPc.locksMx] at hinside
    · rw [hframe.pc v hv] at hinside hchecked
      exact hkeep.pointers v hinside hchecked
  · intro v stream hheld
    rw [hframe.streamPointers]
    by_cases hv : v = w
    · subst hv
      rcases hmove.held hheld with hbefore | hpointer
      · exact hkeep.held v stream hbefore
      · exact hpointer
    · rw [hframe.pc v hv] at hheld
      exact hkeep.held v stream hheld

/-- `StreamPointers` that only grow keep what a worker has seen. -/
theorem grow (hkeep : FillsKeep s) (hpc : s'.pc = s.pc)
    (hsub : s.streamPointers ⊆ s'.streamPointers) : FillsKeep s' := by
  constructor
  · intro w hinside hchecked hempty
    rw [hpc] at hinside hchecked
    rw [hempty] at hsub
    exact hkeep.pointers w hinside hchecked (List.subset_nil.mp hsub)
  · intro w stream hheld
    rw [hpc] at hheld
    exact hsub (hkeep.held w stream hheld)

/-- A removal that finds nobody inside `fill` has nothing to keep. -/
theorem of_outside (houtside : ∀ w, (s.pc w).locksMx = false) : FillsKeep s := by
  constructor
  · intro w hinside
    rw [houtside w] at hinside
    cases hinside
  · intro w stream hheld
    have hinside := WorkerPc.locksMx_of_held hheld
    rw [houtside w] at hinside
    cases hinside

end FillsKeep

theorem LocksOk.outside_of_mx (hlocks : LocksOk s) (hmx : s.mx = none) (w : Fin n) :
    (s.pc w).locksMx = false := by
  by_contra hinside
  have hheld : s.mx = some w := (hlocks.mx w).mpr (by simpa using hinside)
  rw [hmx] at hheld
  cases hheld

theorem reachesVia_fillsKeep
    (hreach : (conversionSystem cfg n m).ReachesVia State.Serialized s) : FillsKeep s := by
  refine hreach.invariant ?_ ?_
  · rintro s ⟨cursor, rfl⟩
    exact .of_outside fun _ => rfl
  · intro s action s' hbefore hkeep hserialized hstep
    rcases step_labelled hstep with
      ⟨w, sizeApprox, rfl, hmove⟩ | ⟨c, victim, hmove⟩ | ⟨c, hmove⟩ | hmove
    · exact hkeep.workerMove hmove
    · have hmx := hserialized (by rw [hmove.victim_eq]; rfl)
      refine .of_outside fun w => ?_
      rw [hmove.callerMove.frame.pc]
      exact (reachable_locksOk hbefore).outside_of_mx hmx w
    · refine hkeep.grow hmove.move.frame.pc ?_
      rcases hmove.streamPointers with hsame | ⟨-, hgrown⟩
      · rw [hsame]
        exact List.Subset.refl _
      · rw [hgrown]
        exact List.subset_append_left _ _
    · cases hmove with
      | @start w hpc _ =>
          constructor
          · intro v hinside hchecked
            by_cases hv : v = w
            · subst hv
              simp [WorkerPc.locksMx] at hinside
            · rw [s.setPc_pc_of_ne _ hv] at hinside hchecked
              exact hkeep.pointers v hinside hchecked
          · intro v stream hheld
            by_cases hv : v = w
            · subst hv
              simp [WorkerPc.held] at hheld
            · rw [s.setPc_pc_of_ne _ hv] at hheld
              exact hkeep.held v stream hheld
      | stop | join _ | enqueueUpdate _ | errorInEpics _ => exact ⟨hkeep.pointers, hkeep.held⟩

theorem State.held_of_takes {stream : Nat} (htakes : s.takes cfg w = some stream) :
    (s.pc w).held = some stream := by
  unfold State.takes at htakes
  split at htakes
  · rename_i hpc
    split at htakes
    · split at htakes
      · cases htakes
        rw [hpc]
        rfl
      · cases htakes
    · cases htakes
  · cases htakes

theorem WorkerPc.locksMx_of_indexing {pc : WorkerPc} (hindexing : pc.indexing = true) :
    pc.locksMx = true := by
  cases pc with
  | index _ => rfl
  | notStarted | loop | lockMx | checkEmpty | lockStreams | checkSid | filling _ _ _
  | release _ _ _ | destroying _ _ _ | advance _ _ | drain | emitting _ | exited =>
      cases hindexing

/-- Steps between which no worker loses what it has seen disturb nobody. -/
theorem FillsKeep.undisturbed (hkeep : FillsKeep s) (hlocks : LocksOk s)
    {action : Action n m} (hserialized : s.Serialized action) :
    s.Undisturbed cfg action := by
  have houtside : ∀ victim ∈ action.victim s, ∀ w, (s.pc w).locksMx ≠ true := by
    intro victim hvictim w
    rw [hlocks.outside_of_mx (hserialized (by rw [hvictim]; rfl)) w]
    exact Bool.noConfusion
  refine ⟨?_, ?_, ?_, ?_⟩
  · intro victim hvictim w frame hframe
    exact absurd (WorkerPc.locks_of_frame hframe).1 (houtside victim hvictim w)
  · cases action with
    | work w sizeApprox =>
        simp only [State.KeepsIndex]
        split
        · rename_i hpc
          exact Or.inr (hkeep.pointers w (by rw [hpc]; rfl)
            (by rw [hpc]; exact WorkerPc.noConfusion))
        · rename_i hpc
          exact Or.inr (Or.inr (hkeep.pointers w (by rw [hpc]; rfl)
            (by rw [hpc]; exact WorkerPc.noConfusion)))
        · trivial
    | _ =>
        intro victim hvictim w hindexing
        exact absurd (WorkerPc.locksMx_of_indexing hindexing) (houtside victim hvictim w)
  · intro victim hvictim stream _ w hinside
    exact absurd hinside (houtside victim hvictim w)
  · cases action with
    | work w sizeApprox =>
        exact fun stream htakes => Or.inl (hkeep.held w stream (State.held_of_takes htakes))
    | _ =>
        intro victim hvictim w stream hheld
        exact absurd (WorkerPc.locksMx_of_held hheld) (houtside victim hvictim w)

/-- Removals that excluded `fill` would be safe: in every run in which no
worker is inside `fill` when a removal starts, nothing throws, every fill
visits a stream once at most for each stream it started with, and the waits
of every busy thread end at one that can proceed. -/
theorem serialized_removals_safe (cfg : Config) (n m : Nat) (s : State n m)
    (hreach : (conversionSystem cfg n m).ReachesVia State.Serialized s) :
    s.terminated = false ∧ s.FillsBounded ∧
      ∀ t, s.Busy t → ∃ u, ReflTransGen s.WaitsFor t u ∧ s.CanProceed cfg u := by
  have hundisturbed : (conversionSystem cfg n m).ReachesVia (State.Undisturbed cfg) s :=
    hreach.strengthen fun state action hbefore hserialized =>
      (reachesVia_fillsKeep hbefore).undisturbed (reachable_locksOk hbefore.reachable) hserialized
  obtain ⟨halive, hwaits⟩ := State.Undisturbed.alive hundisturbed
  have hrounds := reachesVia_roundsOk (hundisturbed.mono fun _ _ h => h.1)
  exact ⟨halive, fun w frame hrunning => (hrounds w frame hrunning).bounded, hwaits⟩

theorem stopWhileEmitting_safe :
    ∃ s : State 1 1, s.caller 0 = .erasing [0] ∧ s.pc 0 ≠ .drain ∧ s.FillsBounded ∧
      ∃ u, ReflTransGen s.WaitsFor (.inr 0) u ∧ s.CanProceed .maxSubqueueSize u := by
  obtain ⟨s, hreach, hcaller, hpc⟩ := Transition.System.exists_reachesVia_of_run
    (T := conversionSystem .maxSubqueueSize 1 1) State.Serialized
    (fun s => s.caller 0 = .erasing [0] ∧ s.pc 0 ≠ .drain)
    (stopWhileEmitting 0 0) ⟨0, rfl⟩ (by decide +kernel)
  obtain ⟨-, hbounded, hwaits⟩ := serialized_removals_safe .maxSubqueueSize 1 1 s hreach
  refine ⟨s, hcaller, hpc, hbounded, hwaits (.inr 0) ?_⟩
  rw [State.Busy, hcaller]
  exact CallerPc.noConfusion

end EpicsToKafka
