/-
How the waits of workers and callers end.  The mutexes are taken in one
order, `mx` before `streams_mutex` before `StreamsMutex`, so a chain of waits
can only turn back where a destructor waits for packets: at a removal whose
packets are queued inside `fill`, or at a worker that destroys a stream with
packets of it in its own queue.  A thread that waits for one of these two
waits for ever.
-/
import EpicsToKafka.ConversionWaits
import Mathlib.Logic.Relation

namespace EpicsToKafka

open Threads Relation
open ConversionWorkPacket (counts isFor)

variable {n m : Nat} {cfg : Config} {s s' : State n m} {w v : Fin n} {c d : Fin m}

/-- A conversion worker or a caller of `Streams`. -/
abbrev Thread (n m : Nat) := Fin n ⊕ Fin m

/-- The call a caller makes next when nothing throws. -/
def CallerPc.next (c : Fin m) : CallerPc → Option (Action n m)
  | .idle => none
  | .lookup _ => some (.getStreamByChannelName c)
  | .publish _ => some (.add c)
  | .found _ | .converting _ => some (.addMappingReturns c)
  | .returning _ | .erasing _ => some (.destruct c)

/-- Program counters of a caller whose next step takes `StreamsMutex`. -/
def CallerPc.wantsInner : CallerPc → Bool
  | .lookup _ | .publish _ => true
  | _ => false

namespace State

/-- The thread runs and has not returned. -/
def Busy (s : State n m) : Thread n m → Prop
  | .inl w => s.pc w ≠ .notStarted ∧ s.pc w ≠ .exited
  | .inr c => s.caller c ≠ .idle

/-- The next step of the thread is enabled. -/
def CanProceed (cfg : Config) (s : State n m) : Thread n m → Prop
  | .inl w => ∃ sizeApprox s', s.step cfg (.work w sizeApprox) = some s'
  | .inr c => ∃ action ∈ (s.caller c).next c, ∃ s', s.step cfg action = some s'

/-- The path whose destructor the thread is in. -/
def destructing (s : State n m) : Thread n m → Option Nat
  | .inl w => (s.pc w).dying.head?
  | .inr c => (s.caller c).dying.head?

/-- The first thread waits for a mutex the second one holds, or for a packet
the second one has still to drain. -/
inductive WaitsFor (s : State n m) : Thread n m → Thread n m → Prop
  | mx {w v : Fin n} (hpc : s.pc w = .lockMx) (hheld : s.mx = some v) :
      WaitsFor s (.inl w) (.inl v)
  | outer {w : Fin n} {t : Thread n m} (hpc : s.pc w = .lockStreams)
      (hheld : s.forwarderStreamsMutex = some t) : WaitsFor s (.inl w) t
  | inner {w : Fin n} {c : Fin m} (hpc : (s.pc w).wantsInner = true)
      (hheld : s.streamsMutex = some c) : WaitsFor s (.inl w) (.inr c)
  | callerInner {c d : Fin m} (hpc : (s.caller c).wantsInner = true)
      (hheld : s.streamsMutex = some d) : WaitsFor s (.inr c) (.inr d)
  | transit {t : Thread n m} {path : Nat} {v : Fin n} {packet : Packet}
      (hpath : s.destructing t = some path) (hpacket : packet ∈ s.outstanding v)
      (hcounts : packet.counts path = true) : WaitsFor s t (.inl v)

/-- The two ends a chain of waits cannot leave. -/
def Deadlocked (s : State n m) : Thread n m → Prop
  | .inl w => ∃ path, s.SelfWait w path
  | .inr c => ∃ path, s.CyclicWait c path

/-- A wait that only the other thread can end.  A caller between its lookup
and `Streams::add` creates the EPICS client, which may still throw. -/
def Committed (s : State n m) (t u : Thread n m) : Prop :=
  s.WaitsFor t u ∧ ∀ c channel, t = .inr c → s.caller c ≠ .publish channel

/-- Committed waits lead from the thread to one that is deadlocked. -/
def Stuck (s : State n m) (t : Thread n m) : Prop :=
  ∃ u, ReflTransGen s.Committed t u ∧ s.Deadlocked u

/-- Where the thread stands. -/
def counter (s : State n m) : Thread n m → WorkerPc ⊕ CallerPc
  | .inl w => .inl (s.pc w)
  | .inr c => .inr (s.caller c)

/-- The waits of the thread lead to a thread that can proceed, or to one that
is deadlocked. -/
def Resolved (cfg : Config) (s : State n m) (t : Thread n m) : Prop :=
  ∃ u, ReflTransGen s.WaitsFor t u ∧ (s.CanProceed cfg u ∨ s.Deadlocked u)

theorem Resolved.of_waitsFor {t u : Thread n m} (hwaits : s.WaitsFor t u)
    (hresolved : s.Resolved cfg u) : s.Resolved cfg t := by
  obtain ⟨last, hchain, hend⟩ := hresolved
  exact ⟨last, .head hwaits hchain, hend⟩

theorem CanProceed.resolved {t : Thread n m} (hproceeds : s.CanProceed cfg t) :
    s.Resolved cfg t :=
  ⟨t, .refl, Or.inl hproceeds⟩

theorem Deadlocked.resolved {t : Thread n m} (hdead : s.Deadlocked t) :
    s.Resolved cfg t :=
  ⟨t, .refl, Or.inr hdead⟩

theorem step_work_eq (hrunning : s.terminated = false) (w : Fin n) (sizeApprox : Nat) :
    s.step cfg (.work w sizeApprox) = s.workerStep cfg w sizeApprox := by
  simp [step, hrunning]

end State

/-- Why a worker cannot take its next step. -/
inductive WorkerBlocked (s : State n m) (w : Fin n) : Prop
  | mx (hpc : s.pc w = .lockMx) (hheld : s.mx ≠ none)
  | outer (hpc : s.pc w = .lockStreams) (hheld : s.forwarderStreamsMutex ≠ none)
  | inner (hpc : (s.pc w).wantsInner = true) (hheld : s.streamsMutex ≠ none)
  | transit {path : Nat} (hpath : (s.pc w).dying.head? = some path)
      (hcount : s.transit path ≠ 0)

theorem workerBlocked_of_not_canProceed (hrunning : s.terminated = false)
    (hbusy : s.Busy (.inl w)) (hblocked : ¬ s.CanProceed cfg (.inl w)) :
    WorkerBlocked s w := by
  have hnone : s.workerStep cfg w 0 = none := by
    rw [← State.step_work_eq hrunning]
    by_contra hsome
    obtain ⟨s', hs'⟩ := Option.ne_none_iff_exists'.mp hsome
    exact hblocked ⟨0, s', hs'⟩
  unfold State.workerStep at hnone
  cases hpc : s.pc w with
  | notStarted => exact absurd hpc hbusy.1
  | exited => exact absurd hpc hbusy.2
  | lockMx =>
      refine .mx hpc fun hfree => ?_
      simp [hpc, hfree] at hnone
  | lockStreams =>
      refine .outer hpc fun hfree => ?_
      simp [hpc, hfree] at hnone
  | checkEmpty =>
      refine .inner (by rw [hpc]; rfl) fun hfree => ?_
      by_cases hempty : s.streamPointers = [] <;> simp [hpc, hfree, hempty] at hnone
  | checkSid =>
      refine .inner (by rw [hpc]; rfl) fun hfree => ?_
      simp [hpc, hfree] at hnone
  | index frame =>
      refine .inner (by rw [hpc]; rfl) fun hfree => ?_
      cases hat : s.streamPointers[s.sid]? <;> simp [hpc, hfree, hat] at hnone
  | advance frame n1 =>
      refine .inner (by rw [hpc]; rfl) fun hfree => ?_
      simp only [hpc, hfree, if_true] at hnone
      split at hnone <;> cases hnone
  | destroying frame paths n1 =>
      cases paths with
      | nil => simp [hpc] at hnone
      | cons path paths =>
          have hpath : (s.pc w).dying.head? = some path := by rw [hpc]; rfl
          refine .transit hpath fun hzero => ?_
          simp [hpc, hzero] at hnone
  | loop => simp [hpc] at hnone
  | filling frame stream locals =>
      simp only [hpc] at hnone
      split at hnone <;> cases hnone
  | release frame stream n1 =>
      simp only [hpc] at hnone
      split at hnone <;> cases hnone
  | drain =>
      simp only [hpc] at hnone
      split at hnone <;> cases hnone
  | emitting packet => simp [hpc] at hnone

/-- Why a caller cannot take its next step. -/
inductive CallerBlocked (s : State n m) (c : Fin m) : Prop
  | inner (hpc : (s.caller c).wantsInner = true) (hheld : s.streamsMutex ≠ none)
  | transit {path : Nat} (hpath : (s.caller c).dying.head? = some path)
      (hcount : s.transit path ≠ 0)

theorem callerBlocked_of_not_canProceed (hrunning : s.terminated = false)
    (hbusy : s.Busy (.inr c)) (hblocked : ¬ s.CanProceed cfg (.inr c)) :
    CallerBlocked s c := by
  have hnone : ∀ action ∈ (s.caller c).next c, s.step cfg action = none := by
    intro action haction
    by_contra hsome
    obtain ⟨s', hs'⟩ := Option.ne_none_iff_exists'.mp hsome
    exact hblocked ⟨action, haction, s', hs'⟩
  cases hpc : s.caller c with
  | idle => exact absurd hpc hbusy
  | lookup channel =>
      refine .inner (by rw [hpc]; rfl) fun hfree => ?_
      have hstep := hnone (.getStreamByChannelName c) (by rw [hpc]; rfl)
      simp only [State.step, hrunning, State.getStreamByChannelName, hpc, hfree, if_true]
        at hstep
      cases hfind : s.streamPointers.find? fun x => (s.heap x).channelName = channel <;>
        simp [hfind] at hstep
  | publish channel =>
      refine .inner (by rw [hpc]; rfl) fun hfree => ?_
      have hstep := hnone (.add c) (by rw [hpc]; rfl)
      simp [State.step, hrunning, State.add, hpc, hfree] at hstep
  | found stream =>
      have hstep := hnone (.addMappingReturns c) (by rw [hpc]; rfl)
      simp [State.step, hrunning, State.addMappingReturns, hpc] at hstep
  | converting stream =>
      have hstep := hnone (.addMappingReturns c) (by rw [hpc]; rfl)
      simp [State.step, hrunning, State.addMappingReturns, hpc] at hstep
  | returning paths | erasing paths =>
      have hstep := hnone (.destruct c) (by rw [hpc]; rfl)
      cases paths with
      | nil => simp [State.step, hrunning, State.destruct, hpc] at hstep
      | cons path paths =>
          have hpath : (s.caller c).dying.head? = some path := by rw [hpc]; rfl
          refine .transit hpath fun hzero => ?_
          simp [State.step, hrunning, State.destruct, hpc, hzero] at hstep

theorem CallerPc.wantsInner_of_erases {pc : CallerPc} (herases : pc.erases = true) :
    pc.wantsInner = false := by
  cases pc with
  | erasing _ => rfl
  | idle | lookup _ | found _ | publish _ | converting _ | returning _ => cases herases

theorem WorkerPc.inHand_of_locksMx {pc : WorkerPc} (hinside : pc.locksMx = true) :
    pc.inHand = [] := by
  cases pc with
  | emitting _ => cases hinside
  | _ => rfl

theorem WorkerPc.locksMx_of_locksStreams {pc : WorkerPc}
    (hinside : pc.locksStreams = true) : pc.locksMx = true := by
  cases pc with
  | checkSid | index _ | filling _ _ _ | release _ _ _ | destroying _ _ _
  | advance _ _ => rfl
  | notStarted | loop | lockMx | checkEmpty | lockStreams | drain | emitting _
  | exited => cases hinside

/-- Inside `fill`, packets are only queued once `streams_mutex` is held. -/
theorem WorkerPc.locksStreams_of_locksMx {pc : WorkerPc} (hinside : pc.locksMx = true)
    (hqueued : pc.drained ≠ true) : pc.locksStreams = true := by
  cases pc with
  | checkEmpty | lockStreams => exact absurd rfl hqueued
  | checkSid | index _ | filling _ _ _ | release _ _ _ | destroying _ _ _
  | advance _ _ => rfl
  | notStarted | loop | lockMx | drain | emitting _ | exited => cases hinside

theorem State.Busy.of_locksMx (hinside : (s.pc w).locksMx = true) : s.Busy (.inl w) := by
  constructor
  · intro hpc
    rw [hpc] at hinside
    cases hinside
  · intro hpc
    rw [hpc] at hinside
    cases hinside

/-- A worker outside `fill` that has packets left is draining them. -/
theorem QueuesOk.canProceed (hqueues : QueuesOk s) (hrunning : s.terminated = false)
    {packet : Packet} (hpacket : packet ∈ s.outstanding w)
    (houtside : (s.pc w).locksMx = false) : s.CanProceed cfg (.inl w) := by
  by_contra hblocked
  have hempty : (s.pc w).drained = true → (s.pc w).inHand = [] → False := by
    intro hdrained hhand
    rw [State.outstanding_eq_queue hhand, hqueues w hdrained] at hpacket
    cases hpacket
  have hbusy : s.Busy (.inl w) :=
    ⟨fun hpc => hempty (by rw [hpc]; rfl) (by rw [hpc]; rfl),
      fun hpc => hempty (by rw [hpc]; rfl) (by rw [hpc]; rfl)⟩
  cases workerBlocked_of_not_canProceed hrunning hbusy hblocked with
  | mx hpc _ => exact hempty (by rw [hpc]; rfl) (by rw [hpc]; rfl)
  | outer hpc _ => rw [hpc] at houtside; cases houtside
  | inner hpc _ => rw [WorkerPc.locksMx_of_wantsInner hpc] at houtside; cases houtside
  | transit hpath _ =>
      rw [WorkerPc.locksMx_of_dying (List.mem_of_head? hpath)] at houtside
      cases houtside

/-- What the argument uses of a reachable state. -/
structure WaitsOk (cfg : Config) (s : State n m) : Prop where
  running : s.terminated = false
  locks : LocksOk s
  queues : QueuesOk s
  transit : TransitOk cfg s

namespace WaitsOk

theorem of_reachable (hreach : (conversionSystem cfg n m).Reachable s)
    (hrunning : s.terminated = false) : WaitsOk cfg s :=
  ⟨hrunning, reachable_locksOk hreach, reachable_queuesOk hreach,
    reachable_transitOk hreach⟩

/-- A thread in a destructor waits for a worker that can proceed, or all the
packets it waits for lie at one worker inside `fill`. -/
theorem destructor (hok : WaitsOk cfg s) {t : Thread n m} {path : Nat}
    (hpath : s.destructing t = some path) (hcount : s.transit path ≠ 0) :
    s.Resolved cfg t ∨ ∃ w, (s.pc w).locksMx = true ∧ s.WaitsFor t (.inl w) ∧
      (∃ packet ∈ s.outstanding w, packet.counts path = true) ∧
      ∀ v, ∀ packet ∈ s.outstanding v, packet.counts path = true → v = w := by
  by_cases hinside : ∀ v, ∀ packet ∈ s.outstanding v, packet.counts path = true →
      (s.pc v).locksMx = true
  · obtain ⟨w, packet, hpacket, hcounts⟩ :=
      hok.transit.exists_counted (Nat.pos_of_ne_zero hcount)
    refine Or.inr ⟨w, hinside w packet hpacket hcounts, .transit hpath hpacket hcounts,
      ⟨packet, hpacket, hcounts⟩, ?_⟩
    intro v other hother hothers
    exact hok.locks.mx.exclusive (hinside v other hother hothers)
      (hinside w packet hpacket hcounts)
  · push Not at hinside
    obtain ⟨v, packet, hpacket, hcounts, houtside⟩ := hinside
    refine Or.inl (.of_waitsFor (.transit hpath hpacket hcounts) ?_)
    exact (hok.queues.canProceed hok.running hpacket (by simpa using houtside)).resolved

/-- A worker in a destructor: nobody else is inside `fill`, so the packets
that are not being drained are its own. -/
theorem destroying (hok : WaitsOk cfg s) {path : Nat}
    (hpath : (s.pc w).dying.head? = some path) (hcount : s.transit path ≠ 0) :
    s.Resolved cfg (.inl w) := by
  rcases hok.destructor (t := .inl w) hpath hcount with
    hresolved | ⟨v, hinside, -, ⟨packet, hpacket, hcounts⟩, -⟩
  · exact hresolved
  · have hself : v = w := hok.locks.mx.exclusive hinside
      (WorkerPc.locksMx_of_dying (List.mem_of_head? hpath))
    subst hself
    rw [State.outstanding_eq_queue (WorkerPc.inHand_of_locksMx hinside)] at hpacket
    exact State.Deadlocked.resolved (t := .inl v) ⟨path, hpath, packet, hpacket, hcounts⟩

/-- A removal in a destructor: the worker that keeps its packets either
proceeds, destroys a stream itself, or waits for the removal. -/
theorem erasing (hok : WaitsOk cfg s) (hinner : s.streamsMutex = some c) :
    s.Resolved cfg (.inr c) := by
  by_cases hproceeds : s.CanProceed cfg (.inr c)
  · exact hproceeds.resolved
  have herases : (s.caller c).erases = true := (hok.locks.inner c).mp hinner
  have hbusy : s.Busy (.inr c) := fun hidle => by simp [hidle, CallerPc.erases] at herases
  cases callerBlocked_of_not_canProceed hok.running hbusy hproceeds with
  | inner hpc _ =>
      rw [CallerPc.wantsInner_of_erases herases] at hpc
      cases hpc
  | @transit path hpath hcount =>
      rcases hok.destructor (t := .inr c) hpath hcount with
        hresolved | ⟨w, hinside, hwaits, ⟨packet, hpacket, hcounts⟩, honly⟩
      · exact hresolved
      by_cases hworks : s.CanProceed cfg (.inl w)
      · exact .of_waitsFor hwaits hworks.resolved
      rw [State.outstanding_eq_queue (WorkerPc.inHand_of_locksMx hinside)] at hpacket
      cases workerBlocked_of_not_canProceed hok.running (.of_locksMx hinside) hworks with
      | mx hpc _ =>
          rw [hpc] at hinside
          cases hinside
      | outer hpc _ =>
          rw [hok.queues w (by rw [hpc]; rfl)] at hpacket
          cases hpacket
      | inner hpc _ =>
          -- the worker with the packets waits for the removal
          refine State.Deadlocked.resolved (t := .inr c) ⟨path, herases, hpath, hinner,
            Nat.pos_of_ne_zero hcount, ?_⟩
          intro v other hother hothers
          obtain rfl := honly v other hother hothers
          rw [State.outstanding_eq_queue (WorkerPc.inHand_of_locksMx hinside)] at hother
          exact ⟨hother, hpc⟩
      | transit hpathWorker hcountWorker =>
          exact .of_waitsFor hwaits (hok.destroying hpathWorker hcountWorker)

/-- Whoever wants `StreamsMutex` can have it, or waits for a removal. -/
theorem inner (hok : WaitsOk cfg s) {t : Thread n m} (hheld : s.streamsMutex ≠ none)
    (hwaits : ∀ c, s.streamsMutex = some c → s.WaitsFor t (.inr c)) :
    s.Resolved cfg t := by
  obtain ⟨c, hinner⟩ := Option.ne_none_iff_exists'.mp hheld
  exact .of_waitsFor (hwaits c hinner) (hok.erasing hinner)

/-- The holder of `streams_mutex`. -/
theorem outer (hok : WaitsOk cfg s) {t : Thread n m}
    (houter : s.forwarderStreamsMutex = some t) : s.Resolved cfg t := by
  by_cases hproceeds : s.CanProceed cfg t
  · exact hproceeds.resolved
  have hinside : s.insideStreams t := (hok.locks.outer t).mp houter
  cases t with
  | inl w =>
      have hmx : (s.pc w).locksMx = true := WorkerPc.locksMx_of_locksStreams hinside
      cases workerBlocked_of_not_canProceed hok.running (.of_locksMx hmx) hproceeds with
      | mx hpc _ => rw [hpc] at hmx; cases hmx
      | outer hpc _ => simp [State.insideStreams, hpc, WorkerPc.locksStreams] at hinside
      | inner hpc hheld => exact hok.inner hheld fun c hinner => .inner hpc hinner
      | transit hpath hcount => exact hok.destroying hpath hcount
  | inr c =>
      have hbusy : s.Busy (.inr c) := fun hidle => by
        simp [State.insideStreams, hidle, CallerPc.locksStreams] at hinside
      cases callerBlocked_of_not_canProceed hok.running hbusy hproceeds with
      | inner hpc hheld => exact hok.inner hheld fun d hinner => .callerInner hpc hinner
      | transit hpath hcount =>
          rcases hok.destructor (t := .inr c) hpath hcount with
            hresolved | ⟨w, hmx, -, ⟨packet, hpacket, -⟩, -⟩
          · exact hresolved
          -- a worker with packets inside `fill` would hold `streams_mutex` itself
          rw [State.outstanding_eq_queue (WorkerPc.inHand_of_locksMx hmx)] at hpacket
          by_cases hdrained : (s.pc w).drained = true
          · rw [hok.queues w hdrained] at hpacket
            cases hpacket
          · have hworker : (s.pc w).locksStreams = true :=
              WorkerPc.locksStreams_of_locksMx hmx hdrained
            have hcaller := hok.locks.worker_excludes_caller (c := c) hworker
            simp [State.insideStreams, hcaller] at hinside

/-- The holder of `ConversionScheduler::mx`. -/
theorem mx (hok : WaitsOk cfg s) (hmx : s.mx = some w) : s.Resolved cfg (.inl w) := by
  by_cases hproceeds : s.CanProceed cfg (.inl w)
  · exact hproceeds.resolved
  have hinside : (s.pc w).locksMx = true := (hok.locks.mx w).mp hmx
  cases workerBlocked_of_not_canProceed hok.running (.of_locksMx hinside) hproceeds with
  | mx hpc _ => rw [hpc] at hinside; cases hinside
  | outer hpc hheld =>
      obtain ⟨t, houter⟩ := Option.ne_none_iff_exists'.mp hheld
      exact .of_waitsFor (.outer hpc houter) (hok.outer houter)
  | inner hpc hheld => exact hok.inner hheld fun c hinner => .inner hpc hinner
  | transit hpath hcount => exact hok.destroying hpath hcount

theorem resolved (hok : WaitsOk cfg s) {t : Thread n m} (hbusy : s.Busy t) :
    s.Resolved cfg t := by
  by_cases hproceeds : s.CanProceed cfg t
  · exact hproceeds.resolved
  cases t with
  | inl w =>
      cases workerBlocked_of_not_canProceed hok.running hbusy hproceeds with
      | mx hpc hheld =>
          obtain ⟨v, hmx⟩ := Option.ne_none_iff_exists'.mp hheld
          exact .of_waitsFor (.mx hpc hmx) (hok.mx hmx)
      | outer hpc hheld =>
          obtain ⟨u, houter⟩ := Option.ne_none_iff_exists'.mp hheld
          exact .of_waitsFor (.outer hpc houter) (hok.outer houter)
      | inner hpc hheld => exact hok.inner hheld fun c hinner => .inner hpc hinner
      | transit hpath hcount => exact hok.destroying hpath hcount
  | inr c =>
      cases callerBlocked_of_not_canProceed hok.running hbusy hproceeds with
      | inner hpc hheld => exact hok.inner hheld fun d hinner => .callerInner hpc hinner
      | transit hpath hcount =>
          cases hcaller : s.caller c with
          | erasing paths =>
              exact hok.erasing ((hok.locks.inner c).mpr (by simp [hcaller, CallerPc.erases]))
          | returning paths =>
              refine hok.outer ((hok.locks.outer (.inr c)).mpr ?_)
              simp [State.insideStreams, hcaller, CallerPc.locksStreams]
          | idle | lookup _ | found _ | publish _ | converting _ =>
              rw [hcaller] at hpath
              cases hpath

end WaitsOk

/-- The waits of every busy thread end, at a thread that can take its next
step or at one of the two deadlocks. -/
theorem waits_end (cfg : Config) (n m : Nat) (s : State n m)
    (hreach : (conversionSystem cfg n m).Reachable s) (hrunning : s.terminated = false)
    (t : Thread n m) (hbusy : s.Busy t) :
    ∃ u, ReflTransGen s.WaitsFor t u ∧ (s.CanProceed cfg u ∨ s.Deadlocked u) :=
  (WaitsOk.of_reachable hreach hrunning).resolved hbusy

/-- The channel is stopped inside the first worker's `fill`; a second worker
wants to call `fill` then. -/
def secondWaits (w v : Fin n) (c : Fin m) : List (Action n m) :=
  stopDuringFill w c ++ [.start v, .work v 0]

theorem secondWaits_end :
    ∃ s : State 2 1, s.pc 1 = .lockMx ∧ s.mx = some 0 ∧
      s.Resolved .maxSubqueueSize (.inl 1) := by
  obtain ⟨s, hreach, hpc, hmx, hrunning⟩ := Transition.System.exists_reachable_of_run
    (T := conversionSystem .maxSubqueueSize 2 1)
    (fun s => s.pc 1 = .lockMx ∧ s.mx = some 0 ∧ s.terminated = false)
    (secondWaits 0 1 0) ⟨0, rfl⟩ (by decide +kernel)
  refine ⟨s, hpc, hmx, waits_end .maxSubqueueSize 2 1 s hreach hrunning (.inl 1) ?_⟩
  exact ⟨by rw [hpc]; exact WorkerPc.noConfusion, by rw [hpc]; exact WorkerPc.noConfusion⟩

/-- A step that neither moves the thread nor touches its queue. -/
structure Unmoved (s s' : State n m) (t : Thread n m) : Prop where
  counter : s'.counter t = s.counter t
  queue : ∀ w, t = .inl w → s'.queue w = s.queue w

namespace Unmoved

theorem pc (hsame : Unmoved s s' (.inl w)) : s'.pc w = s.pc w :=
  Sum.inl.inj hsame.counter

theorem caller (hsame : Unmoved s s' (.inr c)) : s'.caller c = s.caller c :=
  Sum.inr.inj hsame.counter

theorem outstanding (hsame : Unmoved s s' (.inl w)) : s'.outstanding w = s.outstanding w :=
  State.outstanding_congr (by rw [hsame.pc]) (hsame.queue w rfl)

theorem destructing {t : Thread n m} (hsame : Unmoved s s' t) :
    s'.destructing t = s.destructing t := by
  cases t with
  | inl w => simp only [State.destructing, hsame.pc]
  | inr c => simp only [State.destructing, hsame.caller]

theorem insideStreams {t : Thread n m} (hsame : Unmoved s s' t) :
    s'.insideStreams t ↔ s.insideStreams t := by
  cases t with
  | inl w => simp only [State.insideStreams, Sum.elim_inl, hsame.pc]
  | inr c => simp only [State.insideStreams, Sum.elim_inr, hsame.caller]

/-- Threads that stay where they are keep their mutexes, hence also the waits
between them. -/
theorem committed {t u : Thread n m} (hlocks : LocksOk s) (hlocks' : LocksOk s')
    (hsame : Unmoved s s' t) (hother : Unmoved s s' u) (hwaits : s.Committed t u) :
    s'.Committed t u := by
  obtain ⟨hwaits, hpublish⟩ := hwaits
  refine ⟨?_, ?_⟩
  · cases hwaits with
    | mx hpc hheld =>
        refine .mx (by rw [hsame.pc, hpc]) ((hlocks'.mx _).mpr ?_)
        simpa only [hother.pc] using (hlocks.mx _).mp hheld
    | outer hpc hheld =>
        refine .outer (by rw [hsame.pc, hpc]) ((hlocks'.outer _).mpr ?_)
        exact hother.insideStreams.mpr ((hlocks.outer _).mp hheld)
    | inner hpc hheld =>
        refine .inner (by rw [hsame.pc, hpc]) ((hlocks'.inner _).mpr ?_)
        simpa only [hother.caller] using (hlocks.inner _).mp hheld
    | callerInner hpc hheld =>
        refine .callerInner (by rw [hsame.caller, hpc]) ((hlocks'.inner _).mpr ?_)
        simpa only [hother.caller] using (hlocks.inner _).mp hheld
    | transit hpath hpacket hcounts =>
        exact .transit (by rw [hsame.destructing, hpath])
          (by rw [hother.outstanding]; exact hpacket) hcounts
  · rintro c channel rfl
    rw [hsame.caller]
    exact hpublish c channel rfl

end Unmoved

/-- The packets a destructor waits for keep its counter up. -/
theorem TransitOk.transit_ne_zero (htransit : TransitOk cfg s) {path : Nat}
    {packet : Packet} (hpacket : packet ∈ s.outstanding w)
    (hcounts : packet.counts path = true) : s.transit path ≠ 0 := by
  rw [htransit.count path]
  intro hzero
  exact (total_eq_zero_iff _ _).mp hzero w packet hpacket hcounts

theorem WorkerBlocked.step_none (hblocked : WorkerBlocked s w) (sizeApprox : Nat) :
    s.workerStep cfg w sizeApprox = none := by
  unfold State.workerStep
  cases hblocked with
  | mx hpc hheld => simp [hpc, hheld]
  | outer hpc hheld => simp [hpc, hheld]
  | inner hpc hheld =>
      cases hat : s.pc w with
      | checkEmpty | checkSid | index _ | advance _ _ => simp [hheld]
      | notStarted | exited => rfl
      | loop | lockMx | lockStreams | filling _ _ _ | release _ _ _
      | destroying _ _ _ | drain | emitting _ =>
          rw [hat] at hpc
          cases hpc
  | @transit path hpath hcount =>
      cases hat : s.pc w with
      | destroying frame paths n1 =>
          rw [hat] at hpath
          cases paths with
          | nil => cases hpath
          | cons first rest =>
              cases hpath
              simp [hcount]
      | notStarted | exited => rfl
      | loop | lockMx | checkEmpty | lockStreams | checkSid | index _
      | filling _ _ _ | release _ _ _ | advance _ _ | drain | emitting _ =>
          rw [hat] at hpath
          cases hpath

theorem CallerBlocked.no_move (hblocked : CallerBlocked s c)
    (hpublish : ∀ channel, s.caller c ≠ .publish channel) : ¬ CallerMove s c s' := by
  intro hmove
  cases hblocked with
  | inner hpc hheld =>
      cases hmove with
      | found _ hfree _ | notFound _ hfree _ => exact hheld hfree
      | add hat _ | throwEarly hat => exact hpublish _ hat
      | keepStream hat | dropStream hat _ =>
          cases hcaller : s.caller c <;> simp_all [CallerPc.wantsInner, CallerPc.held]
      | addMapping hat _ | addConverter hat | eraseIf hat _ | erased hat
      | erasePath hat _ | returned hat | returnPath hat _ =>
          rw [hat] at hpc
          cases hpc
  | transit hpath hcount =>
      cases hmove with
      | erasePath hat hzero | returnPath hat hzero =>
          rw [hat] at hpath
          cases hpath
          exact hcount hzero
      | keepStream hat | dropStream hat _ =>
          cases hcaller : s.caller c <;> simp_all [CallerPc.dying, CallerPc.held]
      | found hat _ _ | notFound hat _ _ | add hat _ | throwEarly hat | addMapping hat _
      | addConverter hat | eraseIf hat _ | erased hat | returned hat =>
          rw [hat] at hpath
          cases hpath

theorem State.Committed.workerBlocked (htransit : TransitOk cfg s) {t : Thread n m}
    (hwaits : s.Committed (.inl w) t) : WorkerBlocked s w := by
  cases hwaits.1 with
  | mx hpc hheld => exact .mx hpc (by simp [hheld])
  | outer hpc hheld => exact .outer hpc (by simp [hheld])
  | inner hpc hheld => exact .inner hpc (by simp [hheld])
  | transit hpath hpacket hcounts =>
      exact .transit hpath (htransit.transit_ne_zero hpacket hcounts)

theorem State.Committed.callerBlocked (htransit : TransitOk cfg s) {t : Thread n m}
    (hwaits : s.Committed (.inr c) t) : CallerBlocked s c := by
  cases hwaits.1 with
  | callerInner hpc hheld => exact .inner hpc (by simp [hheld])
  | transit hpath hpacket hcounts =>
      exact .transit hpath (htransit.transit_ne_zero hpacket hcounts)

/-- Both deadlocks are waits themselves. -/
theorem State.Deadlocked.committed (htransit : TransitOk cfg s) {t : Thread n m}
    (hdead : s.Deadlocked t) : ∃ u, s.Committed t u := by
  cases t with
  | inl w =>
      obtain ⟨path, hwait⟩ := hdead
      obtain ⟨packet, hpacket, hcounts⟩ := hwait.own
      refine ⟨.inl w, .transit hwait.waits (List.mem_append_right _ hpacket) hcounts, ?_⟩
      rintro c channel ⟨⟩
  | inr c =>
      obtain ⟨path, hwait⟩ := hdead
      obtain ⟨w, packet, hpacket, hcounts⟩ := htransit.exists_counted hwait.transit
      refine ⟨.inl w, .transit hwait.waits hpacket hcounts, ?_⟩
      rintro d channel ⟨⟩ hcaller
      have herases := hwait.erasing
      rw [hcaller] at herases
      cases herases

theorem State.Stuck.committed (htransit : TransitOk cfg s) {t : Thread n m}
    (hstuck : s.Stuck t) : ∃ u, s.Committed t u := by
  obtain ⟨u, hchain, hdead⟩ := hstuck
  rcases ReflTransGen.cases_head hchain with rfl | ⟨next, hwaits, -⟩
  · exact hdead.committed htransit
  · exact ⟨next, hwaits⟩

theorem WorkerBlocked.started (hblocked : WorkerBlocked s w) : s.pc w ≠ .notStarted := by
  intro hpc
  cases hblocked with
  | mx hat _ | outer hat _ => rw [hpc] at hat; cases hat
  | inner hat _ | transit hat _ => rw [hpc] at hat; cases hat

theorem WorkerBlocked.unmoved (hblocked : WorkerBlocked s w) {action : Action n m}
    (hstep : s.step cfg action = some s') : Unmoved s s' (.inl w) := by
  have hframe : s'.pc w = s.pc w ∧ s'.queue w = s.queue w := by
    rcases step_labelled hstep with
      ⟨v, sizeApprox, rfl, hmove⟩ | ⟨c, victim, hmove⟩ | ⟨c, hmove⟩ | hmove
    · have hne : w ≠ v := by
        rintro rfl
        simp [State.step, hblocked.step_none] at hstep
      exact ⟨hmove.frame.pc w hne, hmove.frame.queue w hne⟩
    · exact ⟨by rw [hmove.callerMove.frame.pc], by rw [hmove.callerMove.frame.queue]⟩
    · exact ⟨by rw [hmove.move.frame.pc], by rw [hmove.move.frame.queue]⟩
    · cases hmove with
      | @start v hpc _ =>
          have hne : w ≠ v := by
            rintro rfl
            exact hblocked.started hpc
          exact ⟨s.setPc_pc_of_ne _ hne, rfl⟩
      | stop | join _ | enqueueUpdate _ | errorInEpics _ => exact ⟨rfl, rfl⟩
  refine ⟨congrArg Sum.inl hframe.1, ?_⟩
  rintro v ⟨⟩
  exact hframe.2

theorem CallerBlocked.unmoved (hblocked : CallerBlocked s c)
    (hpublish : ∀ channel, s.caller c ≠ .publish channel) {action : Action n m}
    (hstep : s.step cfg action = some s') : Unmoved s s' (.inr c) := by
  have hmoved : ∀ {d}, CallerMove s d s' → c ≠ d := by
    rintro d hmove rfl
    exact hblocked.no_move hpublish hmove
  have hcaller : s'.caller c = s.caller c := by
    rcases step_labelled hstep with
      ⟨v, sizeApprox, rfl, hmove⟩ | ⟨d, victim, hmove⟩ | ⟨d, hmove⟩ | hmove
    · rw [hmove.frame.caller]
    · exact hmove.callerMove.frame.caller c (hmoved hmove.callerMove)
    · exact hmove.move.frame.caller c (hmoved hmove.move)
    · cases hmove with
      | start _ _ | stop | join _ | enqueueUpdate _ | errorInEpics _ => rfl
  exact ⟨congrArg Sum.inr hcaller, fun w heq => by cases heq⟩

theorem State.Committed.unmoved (htransit : TransitOk cfg s) {t u : Thread n m}
    (hwaits : s.Committed t u) {action : Action n m}
    (hstep : s.step cfg action = some s') : Unmoved s s' t := by
  cases t with
  | inl w => exact (hwaits.workerBlocked htransit).unmoved hstep
  | inr c =>
      exact (hwaits.callerBlocked htransit).unmoved (fun channel => hwaits.2 c channel rfl)
        hstep

theorem State.destroyPacket_queue (s : State n m) (packet : Packet) :
    (s.destroyPacket packet).queue = s.queue := by
  unfold State.destroyPacket
  split <;> rfl

/-- Outside `fill` a worker only gets rid of packets. -/
theorem WorkerMove.outstanding_subset (hmove : WorkerMove cfg s w s')
    (houtside : (s.pc w).locksMx = false) :
    ∀ packet ∈ s'.outstanding w, packet ∈ s.outstanding w := by
  intro packet hpacket
  cases hmove with
  | exit hpc _ | callFill hpc _ _ | skipFill hpc _ | lockMx hpc _ | drained hpc _ =>
      simpa [State.outstanding, hpc, WorkerPc.inHand, State.setPc] using hpacket
  | emit hpc hqueue =>
      simpa [State.outstanding, hpc, hqueue, WorkerPc.inHand, State.setPc] using hpacket
  | destroyPacket hpc =>
      have hqueue : packet ∈ s.queue w := by
        rw [State.outstanding_eq_queue (by simp [WorkerPc.inHand]),
          State.destroyPacket_queue] at hpacket
        exact hpacket
      exact List.mem_append_right _ hqueue
  | noStreams hpc _ _ | someStreams hpc _ _ | lockStreams hpc _ | enterLoop hpc _ _
  | enterFull hpc _ _ | outOfRange hpc _ _ | visit hpc _ _ | iterate hpc _
  | closeBatch hpc | lastOwner hpc _ | notLastOwner hpc | pathDestroyed hpc _
  | streamDestroyed hpc | again hpc _ _ _ | finish hpc _ _ =>
      rw [hpc] at houtside
      cases houtside

/-- No step adds a packet to what a removal in a cyclic wait waits for: the
worker it waits for keeps all others out of `fill`. -/
theorem State.CyclicWait.outstanding (hlocks : LocksOk s) (htransit : TransitOk cfg s)
    {path : Nat} (hwait : s.CyclicWait c path) {action : Action n m}
    (hstep : s.step cfg action = some s') {packet : Packet}
    (hpacket : packet ∈ s'.outstanding w) : packet ∈ s.outstanding w := by
  obtain ⟨v, kept, hkept, hcounts⟩ := htransit.exists_counted hwait.transit
  have hwants : (s.pc v).wantsInner = true := (hwait.blocked v kept hkept hcounts).2
  have hblocked : WorkerBlocked s v := .inner hwants (by simp [hwait.mutex])
  rcases step_labelled hstep with
    ⟨u, sizeApprox, rfl, hmove⟩ | ⟨d, victim, hmove⟩ | ⟨d, hmove⟩ | hmove
  · by_cases hu : w = u
    · subst hu
      apply hmove.outstanding_subset _ packet hpacket
      by_contra hinside
      have hsame : w = v := hlocks.mx.exclusive (by simpa using hinside)
        (WorkerPc.locksMx_of_wantsInner hwants)
      subst hsame
      simp [State.step, hblocked.step_none] at hstep
    · rwa [hmove.frame.outstanding, Function.update_of_ne hu] at hpacket
  · rwa [hmove.callerMove.frame.outstanding] at hpacket
  · rwa [hmove.move.frame.outstanding] at hpacket
  · cases hmove with
    | @start u hpc _ =>
        rw [State.outstanding_congr (s := s)] at hpacket
        · exact hpacket
        · by_cases hu : w = u
          · subst hu
            simp [hpc, WorkerPc.inHand]
          · rw [s.setPc_pc_of_ne _ hu]
        · rfl
    | stop | join _ | enqueueUpdate _ | errorInEpics _ => exact hpacket

theorem State.Deadlocked.next (hreach : (conversionSystem cfg n m).Reachable s)
    {t : Thread n m} (hdead : s.Deadlocked t) {action : Action n m}
    (hstep : s.step cfg action = some s') : s'.Deadlocked t := by
  have htransit := reachable_transitOk hreach
  have hreach' : (conversionSystem cfg n m).Reachable s' := hreach.next hstep
  obtain ⟨u, hwaits⟩ := hdead.committed htransit
  have hsame := hwaits.unmoved htransit hstep
  cases t with
  | inl w =>
      obtain ⟨path, hwait⟩ := hdead
      refine ⟨path, by rw [hsame.pc]; exact hwait.waits, ?_⟩
      rw [hsame.queue w rfl]
      exact hwait.own
  | inr c =>
      obtain ⟨path, hwait⟩ := hdead
      have hworker : ∀ v, ∀ packet ∈ s.outstanding v, packet.counts path = true →
          Unmoved s s' (.inl v) := by
        intro v packet hpacket hcounts
        have hwants := (hwait.blocked v packet hpacket hcounts).2
        exact WorkerBlocked.unmoved (.inner hwants (by simp [hwait.mutex])) hstep
      refine ⟨path, ?_, ?_, ?_, ?_, ?_⟩
      · rw [hsame.caller]
        exact hwait.erasing
      · rw [hsame.caller]
        exact hwait.waits
      · refine ((reachable_locksOk hreach').inner c).mpr ?_
        simpa only [hsame.caller] using hwait.erasing
      · obtain ⟨v, packet, hpacket, hcounts⟩ := htransit.exists_counted hwait.transit
        have hkept : packet ∈ s'.outstanding v := by
          rwa [(hworker v packet hpacket hcounts).outstanding]
        exact Nat.pos_of_ne_zero
          ((reachable_transitOk hreach').transit_ne_zero hkept hcounts)
      · intro v packet hpacket hcounts
        have hbefore := hwait.outstanding (reachable_locksOk hreach) htransit hstep hpacket
        have hunmoved := hworker v packet hbefore hcounts
        rw [hunmoved.queue v rfl, hunmoved.pc]
        exact hwait.blocked v packet hbefore hcounts

/-- Along a chain of committed waits nobody moves, so the chain is there after
every step. -/
theorem State.Stuck.next (hreach : (conversionSystem cfg n m).Reachable s)
    {t : Thread n m} (hstuck : s.Stuck t) {action : Action n m}
    (hstep : s.step cfg action = some s') : s'.Stuck t ∧ Unmoved s s' t := by
  have htransit := reachable_transitOk hreach
  have hlocks := reachable_locksOk hreach
  have hlocks' : LocksOk s' := reachable_locksOk (hreach.next hstep)
  have hunmoved : ∀ {t}, s.Stuck t → Unmoved s s' t := by
    intro t hstuck
    obtain ⟨u, hwaits⟩ := hstuck.committed htransit
    exact hwaits.unmoved htransit hstep
  refine ⟨?_, hunmoved hstuck⟩
  obtain ⟨u, hchain, hdead⟩ := hstuck
  refine ⟨u, ?_, hdead.next hreach hstep⟩
  induction hchain using ReflTransGen.head_induction_on with
  | refl => exact .refl
  | head hwaits hrest ih =>
      refine .head ?_ ih
      exact (hunmoved ⟨u, .head hwaits hrest, hdead⟩).committed hlocks hlocks'
        (hunmoved ⟨u, hrest, hdead⟩) hwaits

theorem CallerPc.next_move {action : Action n m} (hnext : action ∈ (s.caller c).next c)
    (hstep : s.step cfg action = some s') : CallerMove s c s' := by
  unfold State.step at hstep
  split at hstep
  · cases hstep
  cases hpc : s.caller c with
  | idle => rw [hpc] at hnext; cases hnext
  | lookup _ => rw [hpc] at hnext; cases hnext; exact getStreamByChannelName_move hstep
  | publish _ => rw [hpc] at hnext; cases hnext; exact add_move hstep
  | found _ | converting _ =>
      rw [hpc] at hnext
      cases hnext
      exact addMappingReturns_move hstep
  | returning _ | erasing _ => rw [hpc] at hnext; cases hnext; exact destruct_move hstep

theorem State.Stuck.not_canProceed (htransit : TransitOk cfg s) {t : Thread n m}
    (hstuck : s.Stuck t) : ¬ s.CanProceed cfg t := by
  obtain ⟨u, hwaits⟩ := hstuck.committed htransit
  cases t with
  | inl w =>
      rintro ⟨sizeApprox, s', hstep⟩
      simp [State.step, (hwaits.workerBlocked htransit).step_none] at hstep
  | inr c =>
      rintro ⟨action, hnext, s', hstep⟩
      exact (hwaits.callerBlocked htransit).no_move (fun channel => hwaits.2 c channel rfl)
        (CallerPc.next_move hnext hstep)

/-- A deadlock is final: a thread whose waits lead to it stays where it is,
whatever else the system still does. -/
theorem stuck_for_ever (cfg : Config) (n m : Nat) (s s' : State n m)
    (hreach : (conversionSystem cfg n m).Reachable s) (t : Thread n m)
    (hstuck : s.Stuck t) (schedule : List (Action n m))
    (hrun : (conversionSystem cfg n m).run s schedule = some s') :
    s'.Stuck t ∧ s'.counter t = s.counter t ∧ ¬ s'.CanProceed cfg t := by
  induction schedule generalizing s with
  | nil =>
      simp only [Transition.System.run, Option.some.injEq] at hrun
      subst hrun
      exact ⟨hstuck, rfl, hstuck.not_canProceed (reachable_transitOk hreach)⟩
  | cons action rest ih =>
      obtain ⟨next, hstep, hrest⟩ := Option.bind_eq_some_iff.mp hrun
      obtain ⟨hstill, hsame⟩ := hstuck.next hreach hstep
      obtain ⟨hend, hcounter, hblocked⟩ := ih next (hreach.next hstep) hstill hrest
      exact ⟨hend, hcounter.trans hsame.counter, hblocked⟩

/-- What `secondWaits` leads to. -/
theorem secondWaits_stuck {s : State 2 1} (hlast : s.pc 1 = .lockMx) (hmx : s.mx = some 0)
    (hpc : s.pc 0 = .advance ⟨0, 0, 1, 1⟩ 1) (hinner : s.streamsMutex = some 0)
    (hcaller : s.caller 0 = .erasing [0]) (htransit : s.transit 0 = 1)
    (hqueue : s.queue 1 = []) : s.Stuck (.inl 1) := by
  have hwants : (s.pc 0).wantsInner = true := by rw [hpc]; rfl
  refine ⟨.inr 0, .head ⟨.mx hlast hmx, ?_⟩ (.single ⟨.inner hwants hinner, ?_⟩), 0, ?_⟩
  · rintro c channel ⟨⟩
  · rintro c channel ⟨⟩
  · refine ⟨by rw [hcaller]; rfl, by rw [hcaller]; rfl, hinner, by omega, ?_⟩
    intro w packet hpacket _
    rw [State.outstanding_eq_queue] at hpacket
    · match w with
      | 0 => exact ⟨hpacket, hwants⟩
      | 1 => rw [hqueue] at hpacket; cases hpacket
    · match w with
      | 0 => rw [hpc]; rfl
      | 1 => rw [hlast]; rfl

theorem secondWaits_for_ever :
    ∃ s s' : State 2 1, s.streamsMutex = some 0 ∧
      (conversionSystem .maxSubqueueSize 2 1).run s [.enqueueUpdate 0 (some 8), .stop 1] =
        some s' ∧ s'.counter (.inl 1) = .inl .lockMx ∧
      ¬ s'.CanProceed .maxSubqueueSize (.inl 1) := by
  obtain ⟨s, hreach, hlast, hmx, hpc, hinner, hcaller, htransit, hqueue, hsome⟩ :=
    Transition.System.exists_reachable_of_run (T := conversionSystem .maxSubqueueSize 2 1)
      (fun s => s.pc 1 = .lockMx ∧ s.mx = some 0 ∧ s.pc 0 = .advance ⟨0, 0, 1, 1⟩ 1 ∧
        s.streamsMutex = some 0 ∧ s.caller 0 = .erasing [0] ∧ s.transit 0 = 1 ∧
        s.queue 1 = [] ∧ ((conversionSystem .maxSubqueueSize 2 1).run s
          [.enqueueUpdate 0 (some 8), .stop 1]).isSome = true)
      (secondWaits 0 1 0) ⟨0, rfl⟩ (by decide +kernel)
  obtain ⟨s', hrun⟩ := Option.isSome_iff_exists.mp hsome
  obtain ⟨-, hcounter, hblocked⟩ := stuck_for_ever .maxSubqueueSize 2 1 s s' hreach (.inl 1)
    (secondWaits_stuck hlast hmx hpc hinner hcaller htransit hqueue) _ hrun
  exact ⟨s, s', hinner, hrun, hcounter.trans (by rw [State.counter, hlast]), hblocked⟩

/-- A removal or a worker's step that spares both what is queued inside
`fill` and what workers hold. -/
def State.Spares (cfg : Config) (s : State n m) (action : Action n m) : Prop :=
  s.SparesQueued action ∧ s.SparesHeld cfg action

instance (s : State n m) (action : Action n m) : Decidable (s.Spares cfg action) :=
  inferInstanceAs (Decidable (s.SparesQueued action ∧ s.SparesHeld cfg action))

theorem QueuedSpared.not_cyclicWait (hspared : QueuedSpared s) (htransit : TransitOk cfg s)
    {path : Nat} : ¬ s.CyclicWait c path := by
  intro hwait
  obtain ⟨w, packet, hpacket, hcounts⟩ := htransit.exists_counted hwait.transit
  obtain ⟨hqueued, hwants⟩ := hwait.blocked w packet hpacket hcounts
  simp only [counts, isFor, Bool.and_eq_true, decide_eq_true_eq] at hcounts
  exact hspared c hwait.erasing path (List.mem_of_head? hwait.waits) w
    (WorkerPc.locksMx_of_wantsInner hwants) packet hqueued hcounts.1

theorem HeldSpared.not_selfWait (hspared : HeldSpared s) {path : Nat} :
    ¬ s.SelfWait w path := by
  intro hwait
  obtain ⟨packet, hpacket, hcounts⟩ := hwait.own
  simp only [counts, isFor, Bool.and_eq_true, decide_eq_true_eq] at hcounts
  exact hspared.dying w path (List.mem_of_head? hwait.waits) packet hpacket hcounts.1

/-- Without the two deadlocks every chain of waits ends at a thread that can
proceed. -/
theorem WaitsOk.exists_canProceed (hok : WaitsOk cfg s) (hqueued : QueuedSpared s)
    (hheld : HeldSpared s) {t : Thread n m} (hbusy : s.Busy t) :
    ∃ u, ReflTransGen s.WaitsFor t u ∧ s.CanProceed cfg u := by
  obtain ⟨u, hchain, hproceeds | hdead⟩ := hok.resolved hbusy
  · exact ⟨u, hchain, hproceeds⟩
  · cases u with
    | inl w =>
        obtain ⟨path, hwait⟩ := hdead
        exact absurd hwait hheld.not_selfWait
    | inr c =>
        obtain ⟨path, hwait⟩ := hdead
        exact absurd hwait (hqueued.not_cyclicWait hok.transit)

/-- In a run that spares both, every busy thread waits for one that can
proceed. -/
theorem progress_of_spares (cfg : Config) (n m : Nat) (s : State n m)
    (hreach : (conversionSystem cfg n m).ReachesVia (State.Spares cfg) s)
    (hrunning : s.terminated = false) (t : Thread n m) (hbusy : s.Busy t) :
    ∃ u, ReflTransGen s.WaitsFor t u ∧ s.CanProceed cfg u := by
  have hok : WaitsOk cfg s := .of_reachable hreach.reachable hrunning
  have hqueued : QueuedSpared s := reachesVia_queuedSpared (hreach.mono fun _ _ => And.left)
  have hheld : HeldSpared s := reachesVia_heldSpared (hreach.mono fun _ _ => And.right)
  exact hok.exists_canProceed hqueued hheld hbusy

/-- The channel is stopped while a packet of it is being emitted, so the
removal waits for the worker. -/
def stopWhileEmitting (w : Fin n) (c : Fin m) : List (Action n m) :=
  Action.mapChannel c "pv" ++ [.enqueueUpdate 0 (some 7), .start w] ++
    List.replicate 11 (.work w 1) ++ [.stopChannel c "pv"]

theorem stopWhileEmitting_progress :
    ∃ s : State 1 1, s.caller 0 = .erasing [0] ∧ s.transit 0 = 1 ∧
      ∃ u, ReflTransGen s.WaitsFor (.inr 0) u ∧ s.CanProceed .maxSubqueueSize u := by
  obtain ⟨s, hreach, hcaller, htransit, hrunning⟩ :=
    Transition.System.exists_reachesVia_of_run
      (T := conversionSystem .maxSubqueueSize 1 1) (State.Spares .maxSubqueueSize)
      (fun s => s.caller 0 = .erasing [0] ∧ s.transit 0 = 1 ∧ s.terminated = false)
      (stopWhileEmitting 0 0) ⟨0, rfl⟩ (by decide +kernel)
  refine ⟨s, hcaller, htransit,
    progress_of_spares .maxSubqueueSize 1 1 s hreach hrunning (.inr 0) ?_⟩
  rw [State.Busy, hcaller]
  exact CallerPc.noConfusion

end EpicsToKafka
