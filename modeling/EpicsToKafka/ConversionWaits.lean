/-
Who waits for whom when streams are removed.  A removal holds `StreamsMutex`
while the destructors of its paths wait for packets to be drained, and a
worker drains its queue only after it has left `fill`, which needs that
mutex.  A worker can also drop the last reference to a stream whose packets
lie in its own queue.
-/
import EpicsToKafka.ConversionPackets
import EpicsToKafka.ConversionCursor

namespace EpicsToKafka

open Threads
open ConversionWorkPacket (counts isFor)

variable {n m : Nat} {cfg : Config} {s s' : State n m} {w : Fin n} {c : Fin m}

/-- Program counters inside `fill` whose next step takes `StreamsMutex`. -/
def WorkerPc.wantsInner : WorkerPc → Bool
  | .checkEmpty | .checkSid | .index _ | .advance .. => true
  | _ => false

theorem WorkerPc.locksMx_of_wantsInner {pc : WorkerPc}
    (hwants : pc.wantsInner = true) : pc.locksMx = true := by
  cases pc with
  | checkEmpty | checkSid | index _ | advance _ _ => rfl
  | notStarted | loop | lockMx | lockStreams | filling _ _ _ | release _ _ _
  | destroying _ _ _ | drain | emitting _ | exited => cases hwants

/-- A removal waits in `~ConversionPath` with `StreamsMutex` held, and all
packets it waits for are queued at workers that wait for that mutex. -/
structure State.CyclicWait (s : State n m) (c : Fin m) (path : Nat) : Prop where
  erasing : (s.caller c).erases = true
  waits : (s.caller c).dying.head? = some path
  mutex : s.streamsMutex = some c
  transit : 0 < s.transit path
  blocked : ∀ w, ∀ packet ∈ s.outstanding w, packet.counts path = true →
    packet ∈ s.queue w ∧ (s.pc w).wantsInner = true

/-- A worker waits in `~ConversionPath` for a packet in its own queue. -/
structure State.SelfWait (s : State n m) (w : Fin n) (path : Nat) : Prop where
  waits : (s.pc w).dying.head? = some path
  own : ∃ packet ∈ s.queue w, packet.counts path = true

theorem tagLast_paths {stream : Nat} {cwpLast : List (Option Nat)}
    {queue : List Packet} {packet : Packet}
    (hpacket : packet ∈ tagLast stream cwpLast queue) :
    ∃ old ∈ queue, old.path = packet.path := by
  obtain ⟨old, hold, rfl⟩ := List.mem_map.mp hpacket
  refine ⟨old, hold, ?_⟩
  split <;> rfl

/-- Where the packets of a worker inside `fill` come from: they were queued
there before, or the worker has just taken their entry. -/
theorem WorkerMove.queued_paths (htransit : TransitOk cfg s) (hqueues : QueuesOk s)
    (hmove : WorkerMove cfg s w s') (hinside : (s'.pc w).locksMx = true)
    {packet : Packet} (hpacket : packet ∈ s'.queue w) :
    ((s.pc w).locksMx = true ∧ ∃ old ∈ s.queue w, old.path = packet.path) ∨
      ∃ stream, s.takes cfg w = some stream ∧ (s.pc w).held = some stream ∧
        packet.path ∈ (s.heap stream).conversionPaths := by
  cases hmove with
  | @iterate frame stream locals next hpc hiter =>
      have hwell := htransit.locals w frame stream locals (by rw [hpc]; rfl)
      have hqueue : (s.afterIteration w frame stream next).queue w = next.queue :=
        Function.update_self _ _ _
      rw [hqueue] at hpacket
      obtain ⟨hcontinues, hnull | hrow⟩ := fillIteration_success hwell hiter
      · obtain ⟨rest, -, rfl⟩ := hnull
        exact Or.inl ⟨by rw [hpc]; rfl, packet, hpacket, rfl⟩
      · obtain ⟨entry, rest, hfront, rfl⟩ := hrow
        rcases List.mem_append.mp hpacket with hold | hnew
        · exact Or.inl ⟨by rw [hpc]; rfl, packet, hold, rfl⟩
        · have hfront' : (s.heap stream).outputQueue = some entry :: rest := hfront
          have hcontinues' : locals.continues (uint32Sub cfg.nfm frame.nfc)
              (s.heap stream).conversionPaths.length := hcontinues
          refine Or.inr ⟨stream, ?_, by rw [hpc]; rfl, (mem_packetRow hnew).2.1⟩
          simp [State.takes, hpc, hfront', hcontinues']
  | @closeBatch frame stream locals hpc =>
      refine Or.inl ⟨by rw [hpc]; rfl, ?_⟩
      by_cases hpos : 0 < locals.numQueued
      · have hqueue : (s.closeBatch w frame stream locals).queue w =
            tagLast stream locals.cwpLast (s.queue w) := by
          simp [State.closeBatch, hpos]
        rw [hqueue] at hpacket
        exact tagLast_paths hpacket
      · have hqueue : (s.closeBatch w frame stream locals).queue w = s.queue w := by
          simp [State.closeBatch, hpos, State.setPc]
        rw [hqueue] at hpacket
        exact ⟨packet, hpacket, rfl⟩
  | lockMx hpc _ =>
      have hempty := hqueues w (by rw [hpc]; rfl)
      have hqueue : packet ∈ s.queue w := hpacket
      rw [hempty] at hqueue
      cases hqueue
  | outOfRange hpc _ _ => exact Or.inl ⟨hinside, packet, hpacket, rfl⟩
  | someStreams hpc _ _ | lockStreams hpc _ | enterLoop hpc _ _ | visit hpc _ _
  | lastOwner hpc _ | notLastOwner hpc | pathDestroyed hpc _
  | streamDestroyed hpc | again hpc _ _ _ =>
      exact Or.inl ⟨by rw [hpc]; rfl, packet, hpacket, rfl⟩
  | exit _ _ | callFill _ _ _ | skipFill _ _ | noStreams _ _ _ | drained _ _
  | emit _ _ | destroyPacket _ => simp [WorkerPc.locksMx] at hinside
  | enterFull _ _ _ | finish _ _ _ =>
      simp [State.fillReturns, WorkerPc.locksMx] at hinside

/-- A removal destroys no stream while a worker inside `fill` has packets of
its paths queued. -/
def State.SparesQueued (s : State n m) (action : Action n m) : Prop :=
  ∀ victim ∈ action.victim s, ∀ stream ∈ s.destroyedBy victim, ∀ w,
    (s.pc w).locksMx = true → ∀ packet ∈ s.queue w,
      packet.path ∉ (s.heap stream).conversionPaths

instance (s : State n m) (action : Action n m) : Decidable (s.SparesQueued action) :=
  inferInstanceAs (Decidable (∀ victim ∈ action.victim s,
    ∀ stream ∈ s.destroyedBy victim, ∀ w, (s.pc w).locksMx = true →
      ∀ packet ∈ s.queue w, packet.path ∉ (s.heap stream).conversionPaths))

/-- No worker inside `fill` has packets that a removal waits for. -/
def QueuedSpared (s : State n m) : Prop :=
  ∀ c, (s.caller c).erases = true → ∀ path ∈ (s.caller c).dying, ∀ w,
    (s.pc w).locksMx = true → ∀ packet ∈ s.queue w, packet.path ≠ path

theorem QueuedSpared.workerMove (hspared : QueuedSpared s) (halloc : AllocOk s)
    (hlife : LifetimesOk s) (htransit : TransitOk cfg s) (hqueues : QueuesOk s)
    (hmove : WorkerMove cfg s w s') : QueuedSpared s' := by
  have hframe := hmove.frame
  intro c herases path hpath v hinside packet hpacket
  rw [hframe.caller] at herases hpath
  by_cases hv : v = w
  · subst hv
    rcases hmove.queued_paths htransit hqueues hinside hpacket with
      ⟨hbefore, old, hold, heq⟩ | ⟨stream, -, hheld, hnew⟩
    · rw [← heq]
      exact hspared c herases path hpath v hbefore old hold
    · -- a dying path has no stream that a worker could be filling
      rintro rfl
      exact hlife.not_held halloc (Or.inr ⟨c, hpath⟩) hnew v hheld
  · rw [hframe.pc v hv] at hinside
    rw [hframe.queue v hv] at hpacket
    exact hspared c herases path hpath v hinside packet hpacket

theorem QueuedSpared.removal (hspared : QueuedSpared s) {action : Action n m}
    {victim : Nat → Bool} (hspares : s.SparesQueued action)
    (hmove : RemovalMove s action c victim s') : QueuedSpared s' := by
  have hframe := hmove.callerMove.frame
  intro d herases path hpath w hinside packet hpacket
  rw [hframe.pc] at hinside
  rw [hframe.queue] at hpacket
  by_cases hd : d = c
  · subst hd
    have hdying : (s'.caller d).dying =
        (s.destroyedBy victim).flatMap fun x => (s.heap x).conversionPaths := by
      rw [hmove.next, State.erased, State.setCaller_caller_self]
      rfl
    rw [hdying, List.mem_flatMap] at hpath
    obtain ⟨stream, hstream, hpath⟩ := hpath
    rintro rfl
    exact hspares victim hmove.victim_eq stream hstream w hinside packet hpacket hpath
  · rw [hframe.caller d hd] at herases hpath
    exact hspared d herases path hpath w hinside packet hpacket

theorem QueuedSpared.keepingMove (hspared : QueuedSpared s)
    (hmove : KeepingMove s c s') : QueuedSpared s' := by
  have hframe := hmove.move.frame
  intro d herases path hpath w hinside packet hpacket
  rw [hframe.pc] at hinside
  rw [hframe.queue] at hpacket
  by_cases hd : d = c
  · subst hd
    obtain ⟨hcaller, herasing⟩ := hmove
    cases hcaller with
    | erasePath hpc _ =>
        simp only [State.setCaller_caller_self, CallerPc.dying] at hpath
        refine hspared d (by rw [hpc]; rfl) path ?_ w hinside packet hpacket
        rw [hpc]
        exact List.mem_cons_of_mem _ hpath
    | eraseIf hpc _ =>
        obtain ⟨before, hbefore⟩ := herasing _ (s.setCaller_caller_self d _)
        rw [hpc] at hbefore
        cases hbefore
    | addConverter _ => exact hspared d herases path hpath w hinside packet hpacket
    | addMapping _ _ | found _ _ _ | notFound _ _ _ | add _ _ | throwEarly _
    | keepStream _ | dropStream _ _ | erased _ | returned _ | returnPath _ _ =>
        simp [CallerPc.erases] at herases
  · rw [hframe.caller d hd] at herases hpath
    exact hspared d herases path hpath w hinside packet hpacket

theorem QueuedSpared.outsideMove (hspared : QueuedSpared s)
    (hmove : OutsideMove s s') : QueuedSpared s' := by
  cases hmove with
  | @start w hpc _ =>
      intro c herases path hpath v hinside packet hpacket
      by_cases hv : v = w
      · subst hv
        simp [WorkerPc.locksMx] at hinside
      · rw [s.setPc_pc_of_ne _ hv] at hinside
        exact hspared c herases path hpath v hinside packet hpacket
  | stop | join _ | enqueueUpdate _ | errorInEpics _ => exact hspared

theorem reachesVia_queuedSpared
    (hreach : (conversionSystem cfg n m).ReachesVia State.SparesQueued s) :
    QueuedSpared s := by
  refine hreach.invariant ?_ ?_
  · rintro s ⟨cursor, rfl⟩ c herases
    cases herases
  · intro s action s' hbefore hspared hspares hstep
    rcases step_labelled hstep with
      ⟨w, sizeApprox, rfl, hmove⟩ | ⟨c, victim, hmove⟩ | ⟨c, hmove⟩ | hmove
    · exact hspared.workerMove (reachable_allocOk hbefore)
        (reachable_lifetimesOk hbefore) (reachable_transitOk hbefore)
        (reachable_queuesOk hbefore) hmove
    · exact hspared.removal hspares hmove
    · exact hspared.keepingMove hmove
    · exact hspared.outsideMove hmove

/-- A positive counter is kept up by some outstanding packet. -/
theorem TransitOk.exists_counted (htransit : TransitOk cfg s) {path : Nat}
    (hpos : 0 < s.transit path) :
    ∃ w, ∃ packet ∈ s.outstanding w, packet.counts path = true := by
  by_contra hnone
  have hzero : total s.outstanding (counts path) = 0 := by
    rw [total_eq_zero_iff]
    intro w packet hpacket hcounts
    exact hnone ⟨w, packet, hpacket, hcounts⟩
  rw [htransit.count path, hzero] at hpos
  exact Nat.lt_irrefl 0 hpos

/-- In a run whose removals spare what is queued inside `fill`, no removal
and worker wait for each other. -/
theorem no_cyclicWait_of_sparesQueued (cfg : Config) (n m : Nat) (s : State n m)
    (hreach : (conversionSystem cfg n m).ReachesVia State.SparesQueued s)
    (c : Fin m) (path : Nat) : ¬ s.CyclicWait c path := by
  intro hwait
  obtain ⟨w, packet, hpacket, hcounts⟩ :=
    (reachable_transitOk hreach.reachable).exists_counted hwait.transit
  obtain ⟨hqueued, hwants⟩ := hwait.blocked w packet hpacket hcounts
  have hfor : packet.path = path := by
    simp only [counts, isFor, Bool.and_eq_true, decide_eq_true_eq] at hcounts
    exact hcounts.1
  exact reachesVia_queuedSpared hreach c hwait.erasing path
    (List.mem_of_head? hwait.waits) w (WorkerPc.locksMx_of_wantsInner hwants)
    packet hqueued hfor

theorem stopAfterDrain_no_cyclicWait :
    ∃ s : State 1 1, s.caller 0 = .erasing [0] ∧ s.emitted.length = 1 ∧
      ¬ s.CyclicWait 0 0 := by
  obtain ⟨s, hreach, hcaller, hemitted⟩ :=
    Transition.System.exists_reachesVia_of_run
      (T := conversionSystem .maxSubqueueSize 1 1) State.SparesQueued
      (fun s => s.caller 0 = .erasing [0] ∧ s.emitted.length = 1)
      (stopAfterDrain 0 0) ⟨0, rfl⟩ (by decide +kernel)
  exact ⟨s, hcaller, hemitted,
    no_cyclicWait_of_sparesQueued .maxSubqueueSize 1 1 s hreach 0 0⟩

/-- The channel is stopped when the worker has queued its update and still
has to read `streams.size()`. -/
def stopDuringFill (w : Fin n) (c : Fin m) : List (Action n m) :=
  Action.mapChannel c "pv" ++ [.enqueueUpdate 0 (some 7), .start w] ++
    List.replicate 9 (.work w 1) ++ [.stopChannel c "pv"]

theorem stopDuringFill_cyclicWait :
    ¬ ∀ (cfg : Config) (n m : Nat) (s : State n m),
      (conversionSystem cfg n m).Reachable s →
        ∀ c path, ¬ s.CyclicWait c path := by
  intro hall
  obtain ⟨s, hreach, hcaller, hmutex, hpc, hqueue, htransit⟩ :=
    Transition.System.exists_reachable_of_run
      (T := conversionSystem .maxSubqueueSize 1 1)
      (fun s => s.caller 0 = .erasing [0] ∧ s.streamsMutex = some 0 ∧
        s.pc 0 = .advance ⟨0, 0, 1, 1⟩ 1 ∧
        s.queue 0 = [⟨0, ⟨0, 7⟩, 0, some 0⟩] ∧ s.transit 0 = 1)
      (stopDuringFill 0 0) ⟨0, rfl⟩ (by decide +kernel)
  apply hall .maxSubqueueSize 1 1 s hreach 0 0
  refine ⟨by rw [hcaller]; rfl, by rw [hcaller]; rfl, hmutex, by omega, ?_⟩
  intro w packet hpacket _
  rw [Subsingleton.elim w 0] at hpacket ⊢
  rw [State.outstanding_eq_queue (by rw [hpc]; rfl)] at hpacket
  exact ⟨hpacket, by rw [hpc]; rfl⟩

/-- A worker does not become the last owner of a stream with packets of it in
its queue: no removal takes a stream from `Streams` that a worker holds and
has queued packets of, and no worker takes entries from a stream that is no
longer in `Streams`. -/
def State.SparesHeld (cfg : Config) (s : State n m) (action : Action n m) : Prop :=
  match action with
  | .work w _ => ∀ stream ∈ s.takes cfg w,
      stream ∈ s.streamPointers ∨ (s.heap stream).conversionPaths = []
  | _ => ∀ victim ∈ action.victim s, ∀ w, ∀ stream ∈ (s.pc w).held,
      stream ∈ s.streamPointers → victim stream = true →
        ∀ packet ∈ s.queue w, packet.path ∉ (s.heap stream).conversionPaths

instance (s : State n m) (action : Action n m) :
    Decidable (s.SparesHeld cfg action) :=
  match action with
  | .work w _ => inferInstanceAs (Decidable (∀ stream ∈ s.takes cfg w,
      stream ∈ s.streamPointers ∨ (s.heap stream).conversionPaths = []))
  | .start _ | .stop _ | .join _ | .enqueueUpdate _ _ | .errorInEpics _
  | .addMapping _ _ | .getStreamByChannelName _ | .add _ | .addConverter _
  | .addMappingReturns _ | .stopChannel _ _ | .clearStreams _ | .checkStreamStatus _
  | .destruct _ =>
      inferInstanceAs (Decidable (∀ victim ∈ Action.victim s _, ∀ w,
        ∀ stream ∈ (s.pc w).held, stream ∈ s.streamPointers → victim stream = true →
          ∀ packet ∈ s.queue w, packet.path ∉ (s.heap stream).conversionPaths))

theorem State.SparesHeld.removal {action : Action n m} {victim : Nat → Bool}
    (hspares : s.SparesHeld cfg action) (hvictim : action.victim s = some victim) :
    ∀ w stream, (s.pc w).held = some stream → stream ∈ s.streamPointers →
      victim stream = true →
        ∀ packet ∈ s.queue w, packet.path ∉ (s.heap stream).conversionPaths := by
  cases action with
  | work _ _ => cases hvictim
  | _ => exact fun w stream hheld => hspares victim hvictim w stream hheld

/-- A worker that holds a removed stream, or destroys one, has no packet of
it. -/
structure HeldSpared (s : State n m) : Prop where
  held : ∀ w stream, (s.pc w).held = some stream → stream ∉ s.streamPointers →
    ∀ packet ∈ s.queue w, packet.path ∉ (s.heap stream).conversionPaths
  dying : ∀ w, ∀ path ∈ (s.pc w).dying, ∀ packet ∈ s.queue w, packet.path ≠ path

theorem WorkerPc.locksMx_of_held {pc : WorkerPc} {stream : Nat}
    (hheld : pc.held = some stream) : pc.locksMx = true := by
  cases pc with
  | filling _ _ _ => rfl
  | release _ _ _ => rfl
  | notStarted | loop | lockMx | checkEmpty | lockStreams | checkSid | index _
  | destroying _ _ _ | advance _ _ | drain | emitting _ | exited => cases hheld

theorem WorkerPc.locksMx_of_dying {pc : WorkerPc} {path : Nat}
    (hdying : path ∈ pc.dying) : pc.locksMx = true := by
  cases pc with
  | destroying _ _ _ => rfl
  | notStarted | loop | lockMx | checkEmpty | lockStreams | checkSid | index _
  | filling _ _ _ | release _ _ _ | advance _ _ | drain | emitting _ | exited =>
      cases hdying

theorem WorkerPc.held_of_dying {pc : WorkerPc} {path : Nat}
    (hdying : path ∈ pc.dying) : pc.held = none := by
  cases pc with
  | destroying _ _ _ => rfl
  | notStarted | loop | lockMx | checkEmpty | lockStreams | checkSid | index _
  | filling _ _ _ | release _ _ _ | advance _ _ | drain | emitting _ | exited =>
      cases hdying

/-- A worker starts destroying a stream only when it gives up the last
reference to it. -/
theorem WorkerMove.dying (hmove : WorkerMove cfg s w s') {path : Nat}
    (hdying : path ∈ (s'.pc w).dying) :
    path ∈ (s.pc w).dying ∨ ∃ stream, (s.pc w).held = some stream ∧
      stream ∉ s.streamPointers ∧ path ∈ (s.heap stream).conversionPaths := by
  cases hmove with
  | @lastOwner frame stream n1 hpc hcount =>
      refine Or.inr ⟨stream, by rw [hpc]; rfl, ?_, ?_⟩
      · exact ((State.useCount_eq_zero_iff _ stream).mp hcount).1
      · simpa [WorkerPc.dying] using hdying
  | pathDestroyed hpc _ =>
      rw [State.setPc_pc_self] at hdying
      rw [hpc]
      exact Or.inl (List.mem_cons_of_mem _ hdying)
  | outOfRange _ _ _ => exact Or.inl hdying
  | exit _ _ | callFill _ _ _ | skipFill _ _ | lockMx _ _ | noStreams _ _ _
  | someStreams _ _ _ | lockStreams _ _ | enterLoop _ _ _ | visit _ _ _
  | iterate _ _ | closeBatch _ | notLastOwner _ | streamDestroyed _
  | again _ _ _ _ | drained _ _ | emit _ _ | destroyPacket _ =>
      simp [WorkerPc.dying] at hdying
  | enterFull _ _ _ | finish _ _ _ =>
      simp [State.fillReturns, WorkerPc.dying] at hdying

theorem HeldSpared.workerMove (hspared : HeldSpared s)
    (htransit : TransitOk cfg s) (hqueues : QueuesOk s)
    {sizeApprox : Nat} (hspares : s.SparesHeld cfg (.work w sizeApprox))
    (hmove : WorkerMove cfg s w s') : HeldSpared s' := by
  have hframe := hmove.frame
  constructor
  · intro v stream hheld hremoved packet hpacket
    rw [hframe.streamPointers] at hremoved
    rw [hframe.conversionPaths]
    by_cases hv : v = w
    · subst hv
      have hbefore := (hmove.held hheld).resolve_right hremoved
      rcases hmove.queued_paths htransit hqueues (WorkerPc.locksMx_of_held hheld)
          hpacket with ⟨-, old, hold, heq⟩ | ⟨taken, htakes, htaken, hnew⟩
      · rw [← heq]
        exact hspared.held v stream hbefore hremoved old hold
      · rw [hbefore] at htaken
        cases htaken
        rcases hspares stream htakes with hmem | hnil
        · exact absurd hmem hremoved
        · rw [hnil] at hnew
          cases hnew
    · rw [hframe.pc v hv] at hheld
      rw [hframe.queue v hv] at hpacket
      exact hspared.held v stream hheld hremoved packet hpacket
  · intro v path hpath packet hpacket
    by_cases hv : v = w
    · subst hv
      rcases hmove.queued_paths htransit hqueues (WorkerPc.locksMx_of_dying hpath)
          hpacket with ⟨-, old, hold, heq⟩ | ⟨taken, htakes, htaken, hnew⟩
      · rw [← heq]
        rcases hmove.dying hpath with hbefore | ⟨stream, hheld, hremoved, hmem⟩
        · exact hspared.dying v path hbefore old hold
        · rintro rfl
          exact hspared.held v stream hheld hremoved old hold hmem
      · rcases hmove.dying hpath with hbefore | ⟨stream, hheld, hremoved, hmem⟩
        · rw [WorkerPc.held_of_dying hbefore] at htaken
          cases htaken
        · rw [hheld] at htaken
          cases htaken
          rcases hspares _ htakes with hstill | hnil
          · exact absurd hstill hremoved
          · rw [hnil] at hnew
            cases hnew
    · rw [hframe.pc v hv] at hpath
      rw [hframe.queue v hv] at hpacket
      exact hspared.dying v path hpath packet hpacket

/-- A caller's move changes neither the workers nor the paths of the streams
they hold, so only the streams it removes matter. -/
theorem HeldSpared.callerMove (hspared : HeldSpared s) (hlocks : LocksOk s)
    (halloc : AllocOk s) (hmove : CallerMove s c s')
    (hremoved : ∀ w stream, (s.pc w).held = some stream →
      stream ∈ s.streamPointers → stream ∉ s'.streamPointers →
        ∀ packet ∈ s.queue w, packet.path ∉ (s.heap stream).conversionPaths) :
    HeldSpared s' := by
  have hframe := hmove.frame
  constructor
  · intro w stream hheld hgone packet hpacket
    rw [hframe.pc] at hheld
    rw [hframe.queue] at hpacket
    rw [hmove.conversionPaths_of_held hlocks halloc hheld]
    by_cases hmem : stream ∈ s.streamPointers
    · exact hremoved w stream hheld hmem hgone packet hpacket
    · exact hspared.held w stream hheld hmem packet hpacket
  · rw [hframe.pc, hframe.queue]
    exact hspared.dying

theorem HeldSpared.outsideMove (hspared : HeldSpared s) (hmove : OutsideMove s s') :
    HeldSpared s' := by
  cases hmove with
  | @start w hpc _ =>
      constructor
      · intro v stream hheld
        by_cases hv : v = w
        · subst hv
          simp [WorkerPc.held] at hheld
        · rw [s.setPc_pc_of_ne _ hv] at hheld
          exact hspared.held v stream hheld
      · intro v path hpath
        by_cases hv : v = w
        · subst hv
          simp [WorkerPc.dying] at hpath
        · rw [s.setPc_pc_of_ne _ hv] at hpath
          exact hspared.dying v path hpath
  | stop | join _ => exact ⟨hspared.held, hspared.dying⟩
  | @enqueueUpdate changed _ _ | @errorInEpics changed _ =>
      refine ⟨fun w stream hheld hgone packet hpacket => ?_, hspared.dying⟩
      have hbefore := hspared.held w stream hheld hgone packet hpacket
      by_cases hx : stream = changed
      · subst hx; simpa using hbefore
      · simpa [hx] using hbefore

theorem reachesVia_heldSpared
    (hreach : (conversionSystem cfg n m).ReachesVia (State.SparesHeld cfg) s) :
    HeldSpared s := by
  refine hreach.invariant ?_ ?_
  · rintro s ⟨cursor, rfl⟩
    constructor
    · intro w stream hheld
      cases hheld
    · intro w path hpath
      cases hpath
  · intro s action s' hbefore hspared hspares hstep
    have hlocks := reachable_locksOk hbefore
    have halloc := reachable_allocOk hbefore
    rcases step_labelled hstep with
      ⟨w, sizeApprox, rfl, hmove⟩ | ⟨c, victim, hmove⟩ | ⟨c, hmove⟩ | hmove
    · exact hspared.workerMove (reachable_transitOk hbefore)
        (reachable_queuesOk hbefore) hspares hmove
    · apply hspared.callerMove hlocks halloc hmove.callerMove
      intro w stream hheld hmem hgone
      rw [hmove.streamPointers, List.mem_filter, not_and] at hgone
      exact hspares.removal hmove.victim_eq w stream hheld hmem
        (by simpa using hgone hmem)
    · apply hspared.callerMove hlocks halloc hmove.move
      intro w stream _ hmem hgone
      rcases hmove.streamPointers with hsame | ⟨-, hadded⟩
      · exact absurd (hsame ▸ hmem) hgone
      · exact absurd (hadded ▸ List.mem_append_left _ hmem) hgone
    · exact hspared.outsideMove hmove

/-- In a run that spares what workers hold, no worker waits for itself. -/
theorem no_selfWait_of_sparesHeld (cfg : Config) (n m : Nat) (s : State n m)
    (hreach : (conversionSystem cfg n m).ReachesVia (State.SparesHeld cfg) s)
    (w : Fin n) (path : Nat) : ¬ s.SelfWait w path := by
  intro hwait
  obtain ⟨packet, hpacket, hcounts⟩ := hwait.own
  simp only [counts, isFor, Bool.and_eq_true, decide_eq_true_eq] at hcounts
  exact (reachesVia_heldSpared hreach).dying w path
    (List.mem_of_head? hwait.waits) packet hpacket hcounts.1

/-- The channel is stopped while the worker is in its `fillConversionQueue`,
before any update has arrived. -/
def stopHeldIdle (w : Fin n) (c : Fin m) : List (Action n m) :=
  Action.mapChannel c "pv" ++ [.start w] ++ List.replicate 6 (.work w 1) ++
    [.stopChannel c "pv", .destruct c] ++ List.replicate 2 (.work w 1)

theorem stopHeldIdle_no_selfWait :
    ∃ s : State 1 1, s.pc 0 = .destroying ⟨0, 0, 1, 1⟩ [0] 0 ∧ ¬ s.SelfWait 0 0 := by
  obtain ⟨s, hreach, hpc⟩ := Transition.System.exists_reachesVia_of_run
    (T := conversionSystem .maxSubqueueSize 1 1) (State.SparesHeld .maxSubqueueSize)
    (fun s => s.pc 0 = .destroying ⟨0, 0, 1, 1⟩ [0] 0)
    (stopHeldIdle 0 0) ⟨0, rfl⟩ (by decide +kernel)
  exact ⟨s, hpc, no_selfWait_of_sparesHeld .maxSubqueueSize 1 1 s hreach 0 0⟩

/-- The same with an update that the worker has queued when the channel is
stopped. -/
def stopHeldQueued (w : Fin n) (c : Fin m) : List (Action n m) :=
  Action.mapChannel c "pv" ++ [.enqueueUpdate 0 (some 7), .start w] ++
    List.replicate 7 (.work w 1) ++ [.stopChannel c "pv", .destruct c] ++
    List.replicate 2 (.work w 1)

theorem stopHeldQueued_selfWait :
    ¬ ∀ (cfg : Config) (n m : Nat) (s : State n m),
      (conversionSystem cfg n m).Reachable s → ∀ w path, ¬ s.SelfWait w path := by
  intro hall
  obtain ⟨s, hreach, hpc, hqueue⟩ := Transition.System.exists_reachable_of_run
    (T := conversionSystem .maxSubqueueSize 1 1)
    (fun s => s.pc 0 = .destroying ⟨0, 0, 1, 1⟩ [0] 1 ∧
      s.queue 0 = [⟨0, ⟨0, 7⟩, 0, some 0⟩]) (stopHeldQueued 0 0) ⟨0, rfl⟩ (by decide +kernel)
  apply hall .maxSubqueueSize 1 1 s hreach 0 0
  refine ⟨by rw [hpc]; rfl, ⟨0, ⟨0, 7⟩, 0, some 0⟩, by rw [hqueue]; simp, rfl⟩

end EpicsToKafka
