/-
The packets of the conversion system as traffic of a dispatcher: streams are
the sources, conversion paths the targets, entries the items.  Tagging and
locking are invisible there, so every step of the system is one step of the
dispatcher or none, and accounting and order carry over.
-/
import EpicsToKafka.ConversionTransit
import EpicsToKafka.Dispatch

namespace EpicsToKafka

open Dispatch

variable {n m : Nat} {cfg : Config} {s s' : State n m} {w : Fin n} {c : Fin m}

/-- What a packet asks for: an entry on a path. -/
def ConversionWorkPacket.job (packet : Packet) : Entry × Nat :=
  (packet.update, packet.path)

/-- The dispatcher's view of a state. -/
def State.traffic (s : State n m) : Traffic (Fin n) Nat Nat Entry where
  waiting stream := (s.heap stream).outputQueue
  queued w := (s.queue w).map ConversionWorkPacket.job
  emitted := s.emitted.map fun e => (e.1, e.2.job)
  dequeued := s.dequeued.map fun d => ⟨d.entry, d.stream, d.paths⟩

theorem State.traffic_congr
    (houtput : ∀ x, (s'.heap x).outputQueue = (s.heap x).outputQueue)
    (hqueue : ∀ v, (s'.queue v).map ConversionWorkPacket.job =
      (s.queue v).map ConversionWorkPacket.job)
    (hemitted : s'.emitted = s.emitted) (hdequeued : s'.dequeued = s.dequeued) :
    s'.traffic = s.traffic := by
  simp only [State.traffic, houtput, hqueue, hemitted, hdequeued]

/-- The stream from which worker `w` is about to take an entry. -/
def State.takes (cfg : Config) (s : State n m) (w : Fin n) : Option Nat :=
  match s.pc w with
  | .filling frame stream locals =>
      match (s.heap stream).outputQueue with
      | some _ :: _ =>
          if locals.continues (uint32Sub cfg.nfm frame.nfc)
              (s.heap stream).conversionPaths.length then some stream
          else none
      | _ => none
  | _ => none

/-- The effect of a worker's move on the traffic. -/
inductive WorkerTraffic (cfg : Config) (s : State n m) (w : Fin n)
    (s' : State n m) : Prop
  | quiet (htraffic : s'.traffic = s.traffic)
  | discard {stream : Nat} {rest : List (Option Entry)}
      (hfront : (s.heap stream).outputQueue = none :: rest)
      (htraffic : s'.traffic = s.traffic.discard stream rest)
  | distribute {stream : Nat} {entry : Entry} {rest : List (Option Entry)}
      (htakes : s.takes cfg w = some stream)
      (hfront : (s.heap stream).outputQueue = some entry :: rest)
      (htraffic : s'.traffic = s.traffic.distribute w stream entry rest
        (s.heap stream).conversionPaths)
  | emit {packet : Packet} {rest : List Packet}
      (hqueue : s.queue w = packet :: rest)
      (htraffic : s'.traffic = s.traffic.emit w packet.job
        (rest.map ConversionWorkPacket.job))

theorem tagLast_map_job (stream : Nat) (cwpLast : List (Option Nat))
    (queue : List Packet) :
    (tagLast stream cwpLast queue).map ConversionWorkPacket.job =
      queue.map ConversionWorkPacket.job := by
  rw [tagLast, List.map_map]
  apply List.map_congr_left
  intro packet _
  by_cases hlast : some packet.address ∈ cwpLast
  · simp [hlast, ConversionWorkPacket.job]
  · simp [hlast]

theorem packetRow_map_job (base : Nat) (entry : Entry) (paths : List Nat) :
    (packetRow base entry paths).map ConversionWorkPacket.job =
      paths.map fun path => (entry, path) := by
  induction paths generalizing base with
  | nil => rfl
  | cons path rest ih => simp [packetRow, ih, ConversionWorkPacket.job]

theorem closeBatch_traffic (s : State n m) (w : Fin n) (frame : FillFrame)
    (stream : Nat) (locals : FillLocals) :
    (s.closeBatch w frame stream locals).traffic = s.traffic := by
  unfold State.closeBatch
  split
  · refine State.traffic_congr (fun _ => rfl) (fun v => ?_) rfl rfl
    by_cases hv : v = w
    · subst hv
      simpa using tagLast_map_job stream locals.cwpLast (s.queue v)
    · simp [hv]
  · rfl

/-- An iteration drops a null update or distributes an entry. -/
theorem iterate_traffic (htransit : TransitOk cfg s) {frame : FillFrame}
    {stream : Nat} {locals : FillLocals} {next : FillState Entry}
    (hpc : s.pc w = .filling frame stream locals)
    (hiter : fillIteration (fun _ => true) (s.heap stream).conversionPaths
      (uint32Sub cfg.nfm frame.nfc) (s.fillState w stream locals) = some next) :
    WorkerTraffic cfg s w (s.afterIteration w frame stream next) := by
  have hwell := htransit.locals w frame stream locals (by rw [hpc]; rfl)
  have hwaiting : ∀ output : List (Option Entry),
      (fun x => (Function.update s.heap stream
        { s.heap stream with outputQueue := output } x).outputQueue) =
      Function.update (fun x => (s.heap x).outputQueue) stream output := by
    intro output
    funext x
    by_cases hx : x = stream
    · subst hx; simp
    · simp [hx]
  obtain ⟨hcontinues, hnull | hrow⟩ := fillIteration_success hwell hiter
  · obtain ⟨rest, hfront, rfl⟩ := hnull
    refine .discard hfront ?_
    have hfront' : (s.heap stream).outputQueue = none :: rest := hfront
    simp only [State.traffic, State.afterIteration, State.dequeueRecord, hfront',
      FillState.afterNull, Traffic.discard, State.fillState, hwaiting,
      Function.update_eq_self, List.append_nil, State.setPc]
  · obtain ⟨entry, rest, hfront, rfl⟩ := hrow
    have hfront' : (s.heap stream).outputQueue = some entry :: rest := hfront
    have hcontinues' : locals.continues (uint32Sub cfg.nfm frame.nfc)
        (s.heap stream).conversionPaths.length := hcontinues
    refine .distribute (by simp [State.takes, hpc, hfront', hcontinues']) hfront ?_
    have hqueued : (fun v => (Function.update s.queue w (s.queue w ++
        packetRow s.nextPacket entry (s.heap stream).conversionPaths) v).map
          ConversionWorkPacket.job) =
        Function.update (fun v => (s.queue v).map ConversionWorkPacket.job) w
          ((s.queue w).map ConversionWorkPacket.job ++
            (s.heap stream).conversionPaths.map fun path => (entry, path)) := by
      funext v
      by_cases hv : v = w
      · subst hv; simp [packetRow_map_job]
      · simp [hv]
    simp only [State.traffic, State.afterIteration, State.dequeueRecord, hfront',
      FillState.afterRow, Traffic.distribute, State.fillState, hwaiting,
      hqueued, List.map_append, List.map_cons, List.map_nil, State.setPc]

theorem WorkerMove.traffic (htransit : TransitOk cfg s)
    (hmove : WorkerMove cfg s w s') : WorkerTraffic cfg s w s' := by
  cases hmove with
  | iterate hpc hiter => exact iterate_traffic htransit hpc hiter
  | closeBatch _ => exact .quiet (closeBatch_traffic s w _ _ _)
  | destroyPacket _ =>
      apply WorkerTraffic.quiet
      unfold State.destroyPacket
      split <;> rfl
  | @emit packet rest hpc hqueue =>
      refine .emit hqueue ?_
      have hqueued : (fun v => (Function.update s.queue w rest v).map
          ConversionWorkPacket.job) =
          Function.update (fun v => (s.queue v).map ConversionWorkPacket.job) w
            (rest.map ConversionWorkPacket.job) := by
        funext v
        by_cases hv : v = w
        · subst hv; simp
        · simp [hv]
      simp only [State.traffic, Traffic.emit, hqueued, List.map_append,
        List.map_cons, List.map_nil, State.setPc]
  | exit _ _ | callFill _ _ _ | skipFill _ _ | lockMx _ _ | noStreams _ _ _
  | someStreams _ _ _ | lockStreams _ _ | enterLoop _ _ _ | enterFull _ _ _
  | outOfRange _ _ _ | visit _ _ _ | lastOwner _ _ | notLastOwner _
  | pathDestroyed _ _ | streamDestroyed _ | again _ _ _ _ | finish _ _ _
  | drained _ _ => exact .quiet rfl

theorem CallerMove.traffic (halloc : AllocOk s) (hmove : CallerMove s c s') :
    s'.traffic = s.traffic := by
  have hframe := hmove.frame
  apply State.traffic_congr _ _ hframe.emitted hframe.dequeued
  · intro x
    by_cases hx : x < s.nextStream
    · exact hframe.outputQueue x hx
    · have hfresh := halloc.heap_fresh x (by omega)
      rw [hfresh]
      cases hmove with
      | add _ _ =>
          by_cases heq : x = s.nextStream
          · subst heq; simp
          · simp [heq, hfresh]
      | @addConverter stream hpc =>
          have hlt := halloc.caller_lt c stream (by rw [hpc]; rfl)
          have hne : x ≠ stream := by omega
          simp [hne, hfresh]
      | addMapping _ _ | found _ _ _ | notFound _ _ _ | throwEarly _
      | keepStream _ | dropStream _ _ | eraseIf _ _ | erased _
      | erasePath _ _ | returned _ | returnPath _ _ =>
          simp [State.setCaller, hfresh]
  · intro v
    rw [hframe.queue]

/-- Tickets in use are below the next one. -/
structure TicketsOk (s : State n m) : Prop where
  waiting : ∀ x entry, some entry ∈ (s.heap x).outputQueue →
    entry.ticket < s.nextTicket
  dequeued : ∀ d ∈ s.dequeued, d.entry.ticket < s.nextTicket

/-- Traffic mentions only tickets in use. -/
theorem TicketsOk.of_traffic (htickets : TicketsOk s)
    (hwaiting : ∀ x entry, some entry ∈ s'.traffic.waiting x →
      some entry ∈ s.traffic.waiting x)
    (hdequeued : ∀ taken ∈ s'.traffic.dequeued, taken ∈ s.traffic.dequeued ∨
      ∃ x, some taken.item ∈ s.traffic.waiting x)
    (hnext : s'.nextTicket = s.nextTicket) : TicketsOk s' := by
  constructor
  · intro x entry hentry
    rw [hnext]
    exact htickets.waiting x entry (hwaiting x entry hentry)
  · intro d hd
    rw [hnext]
    rcases hdequeued ⟨d.entry, d.stream, d.paths⟩ (List.mem_map_of_mem hd) with
      hold | ⟨x, hx⟩
    · obtain ⟨old, hmem, heq⟩ := List.mem_map.mp hold
      have hlt := htickets.dequeued old hmem
      simp only [Taken.mk.injEq] at heq
      rwa [heq.1] at hlt
    · exact htickets.waiting x d.entry hx

theorem TicketsOk.workerMove (htickets : TicketsOk s) (htransit : TransitOk cfg s)
    (hmove : WorkerMove cfg s w s') : TicketsOk s' := by
  have hnext := hmove.frame.nextTicket
  have hpopped : ∀ {stream : Nat} {front : Option Entry} {rest : List (Option Entry)},
      (s.heap stream).outputQueue = front :: rest →
      ∀ x entry, some entry ∈ Function.update s.traffic.waiting stream rest x →
        some entry ∈ s.traffic.waiting x := by
    intro stream front rest hfront x entry hentry
    by_cases hx : x = stream
    · subst hx
      simp only [Function.update_self] at hentry
      simp only [State.traffic, hfront]
      exact List.mem_cons_of_mem front hentry
    · simpa [hx] using hentry
  cases hmove.traffic htransit with
  | quiet htraffic =>
      exact htickets.of_traffic (by simp [htraffic])
        (fun taken htaken => Or.inl (htraffic ▸ htaken)) hnext
  | discard hfront htraffic =>
      refine htickets.of_traffic ?_ (fun taken htaken => Or.inl ?_) hnext
      · rw [htraffic]
        exact hpopped hfront
      · rw [htraffic] at htaken
        exact htaken
  | @distribute stream entry rest _ hfront htraffic =>
      refine htickets.of_traffic ?_ (fun taken htaken => ?_) hnext
      · rw [htraffic]
        exact hpopped hfront
      · rw [htraffic] at htaken
        rcases List.mem_append.mp htaken with hold | hnew
        · exact Or.inl hold
        · rw [List.mem_singleton.mp hnew]
          refine Or.inr ⟨stream, ?_⟩
          simp [State.traffic, hfront]
  | emit _ htraffic =>
      refine htickets.of_traffic ?_ (fun taken htaken => Or.inl ?_) hnext
      · rw [htraffic]
        exact fun _ _ hentry => hentry
      · rw [htraffic] at htaken
        exact htaken

theorem TicketsOk.outsideMove (htickets : TicketsOk s) (hmove : OutsideMove s s') :
    TicketsOk s' := by
  cases hmove with
  | start _ _ | stop | join _ => exact ⟨htickets.waiting, htickets.dequeued⟩
  | @enqueueUpdate stream update _ =>
      constructor
      · intro x entry hentry
        by_cases hx : x = stream
        · subst hx
          simp only [Function.update_self, List.mem_append, List.mem_singleton] at hentry
          rcases hentry with hold | hnew
          · exact Nat.lt_succ_of_lt (htickets.waiting x entry hold)
          · obtain ⟨u, -, rfl⟩ := Option.map_eq_some_iff.mp hnew.symm
            exact Nat.lt_succ_self _
        · simp only [Function.update_of_ne hx] at hentry
          exact Nat.lt_succ_of_lt (htickets.waiting x entry hentry)
      · intro d hd
        exact Nat.lt_succ_of_lt (htickets.dequeued d hd)
  | @errorInEpics stream _ =>
      refine ⟨fun x entry hentry => htickets.waiting x entry ?_, htickets.dequeued⟩
      by_cases hx : x = stream
      · subst hx; simpa using hentry
      · simpa [hx] using hentry

theorem reachable_ticketsOk (hreach : (conversionSystem cfg n m).Reachable s) :
    TicketsOk s := by
  refine hreach.invariant ?_ ?_
  · rintro s ⟨cursor, rfl⟩
    constructor <;> simp [State.initial]
  · intro s action s' hbefore htickets hstep
    rcases step_move hstep with ⟨w, hmove⟩ | ⟨c, hmove⟩ | hmove
    · exact htickets.workerMove (reachable_transitOk hbefore) hmove
    · have htraffic := hmove.traffic (reachable_allocOk hbefore)
      exact htickets.of_traffic (by simp [htraffic])
        (fun taken htaken => Or.inl (htraffic ▸ htaken)) hmove.frame.nextTicket
    · exact htickets.outsideMove hmove

/-- A ticket that has not been issued is fresh to the dispatcher. -/
theorem TicketsOk.fresh (htickets : TicketsOk s) (update : Nat) :
    s.traffic.Fresh ⟨s.nextTicket, update⟩ := by
  constructor
  · intro x hmem
    exact Nat.lt_irrefl _ (htickets.waiting x _ hmem)
  · intro taken htaken heq
    obtain ⟨d, hd, rfl⟩ := List.mem_map.mp htaken
    have hlt := htickets.dequeued d hd
    have hentry : d.entry = ⟨s.nextTicket, update⟩ := heq
    rw [hentry] at hlt
    exact Nat.lt_irrefl _ hlt

theorem enqueueUpdate_traffic (s : State n m) (stream : Nat)
    (item : Option Entry) (ticket : Nat) :
    State.traffic { s with
      heap := Function.update s.heap stream
        { s.heap stream with outputQueue := (s.heap stream).outputQueue ++ [item] }
      nextTicket := ticket } = s.traffic.enqueue stream item := by
  have hwaiting : (fun x => (Function.update s.heap stream
      { s.heap stream with outputQueue := (s.heap stream).outputQueue ++ [item] }
        x).outputQueue) =
      Function.update (fun x => (s.heap x).outputQueue) stream
        ((s.heap stream).outputQueue ++ [item]) := by
    funext x
    by_cases hx : x = stream
    · subst hx; simp
    · simp [hx]
  simp only [State.traffic, Traffic.enqueue, hwaiting]

theorem errorInEpics_traffic (s : State n m) (stream : Nat) (status : Int) :
    State.traffic { s with
      heap := Function.update s.heap stream
        { s.heap stream with status := status } } = s.traffic := by
  refine State.traffic_congr (fun x => ?_) (fun _ => rfl) rfl rfl
  by_cases hx : x = stream
  · subst hx; simp
  · simp [hx]

/-- The conversion system simulates the dispatcher: a run whose steps take
entries only under `ok` is a run of the dispatcher under the matching guard. -/
theorem reachesVia_traffic {ok : State n m → Action n m → Prop}
    {guard : Traffic (Fin n) Nat Nat Entry → Fin n → List Nat → Prop}
    (hguard : ∀ s w sizeApprox stream, ok s (.work w sizeApprox) →
      s.takes cfg w = some stream →
        guard s.traffic w (s.heap stream).conversionPaths)
    (hreach : (conversionSystem cfg n m).ReachesVia ok s) :
    Runs guard s.traffic := by
  induction hreach with
  | init hinit =>
      obtain ⟨cursor, rfl⟩ := hinit
      exact .initial
  | @step s s' action hbefore hok hstep hruns =>
      have halloc := reachable_allocOk hbefore.reachable
      rcases step_labelled hstep with
        ⟨w, sizeApprox, rfl, hmove⟩ | ⟨c, victim, hmove⟩ | ⟨c, hmove⟩ | hmove
      · cases hmove.traffic (reachable_transitOk hbefore.reachable) with
        | quiet htraffic => exact htraffic ▸ hruns
        | discard hfront htraffic => exact htraffic ▸ hruns.discard hfront
        | @distribute stream entry rest htakes hfront htraffic =>
            rw [htraffic]
            exact hruns.distribute (hguard s w sizeApprox stream hok htakes)
              (halloc.paths_nodup stream) hfront
        | emit hqueue htraffic =>
            rw [htraffic]
            exact hruns.emit (by simp [State.traffic, hqueue])
      · rw [hmove.callerMove.traffic halloc]
        exact hruns
      · rw [hmove.move.traffic halloc]
        exact hruns
      · cases hmove with
        | start _ _ | stop | join _ => exact hruns
        | @enqueueUpdate stream update _ =>
            rw [enqueueUpdate_traffic]
            refine hruns.enqueue stream _ fun entry hentry => ?_
            obtain ⟨u, -, rfl⟩ := Option.map_eq_some_iff.mp hentry
            exact (reachable_ticketsOk hbefore.reachable).fresh u
        | @errorInEpics stream _ =>
            rw [errorInEpics_traffic]
            exact hruns

/-- A worker whose `stop` has returned is not running. -/
def JoinedOk (s : State n m) : Prop :=
  ∀ w, s.joined w = true → s.pc w = .notStarted ∨ s.pc w = .exited

theorem reachable_joinedOk (hreach : (conversionSystem cfg n m).Reachable s) :
    JoinedOk s := by
  refine hreach.invariant ?_ ?_
  · rintro s ⟨cursor, rfl⟩ w hjoined
    exact Or.inl rfl
  · intro s action s' _ hstopped hstep v hjoined
    rcases step_move hstep with ⟨w, hmove⟩ | ⟨c, hmove⟩ | hmove
    · rw [hmove.frame.joined] at hjoined
      have hpc := hstopped v hjoined
      have hne : v ≠ w := by
        rintro rfl
        rcases hpc with hpc | hpc <;> cases hmove <;> simp_all
      rwa [hmove.frame.pc v hne]
    · rw [hmove.frame.joined] at hjoined
      rw [hmove.frame.pc]
      exact hstopped v hjoined
    · cases hmove with
      | @start w hpc hfree =>
          have hne : v ≠ w := by
            rintro rfl
            exact Bool.false_ne_true (hfree.symm.trans hjoined)
          rw [s.setPc_pc_of_ne _ hne]
          exact hstopped v hjoined
      | @join w hpc =>
          by_cases hv : v = w
          · subst hv
            exact hpc
          · exact hstopped v (by simpa [hv] using hjoined)
      | stop | enqueueUpdate _ | errorInEpics _ => exact hstopped v hjoined

/-- How often a worker's queue holds the entry on the path. -/
def State.queuedCount (s : State n m) (w : Fin n) (entry : Entry) (path : Nat) : Nat :=
  (s.queue w).countP fun packet => packet.update = entry ∧ packet.path = path

/-- How often the entry has been passed to the path's `emit`. -/
def State.emittedCount (s : State n m) (entry : Entry) (path : Nat) : Nat :=
  s.emitted.countP fun e => e.2.update = entry ∧ e.2.path = path

/-- Entries a worker passed to the path's `emit`, in order. -/
def State.emittedBy (s : State n m) (w : Fin n) (path : Nat) : List Entry :=
  (s.emitted.filter fun e => e.1 = w ∧ e.2.path = path).map fun e => e.2.update

/-- Entries passed to the path's `emit` by any worker, in order. -/
def State.emittedFor (s : State n m) (path : Nat) : List Entry :=
  (s.emitted.filter fun e => e.2.path = path).map fun e => e.2.update

/-- Entries dequeued while their stream had the path, in order. -/
def State.dequeuedFor (s : State n m) (path : Nat) : List Entry :=
  (s.dequeued.filter fun d => path ∈ d.paths).map Dequeue.entry

theorem State.queuedCount_eq (s : State n m) (w : Fin n) (entry : Entry)
    (path : Nat) : s.queuedCount w entry path =
      (s.traffic.queued w).count (entry, path) := by
  rw [State.queuedCount, State.traffic, List.count, List.countP_map]
  apply List.countP_congr
  intro packet _
  simp [ConversionWorkPacket.job, Prod.ext_iff]

theorem State.emittedCount_eq (s : State n m) (entry : Entry) (path : Nat) :
    s.emittedCount entry path =
      (s.traffic.emitted.map Prod.snd).count (entry, path) := by
  rw [State.emittedCount, State.traffic, List.count, List.countP_map,
    List.countP_map]
  apply List.countP_congr
  intro e _
  simp [ConversionWorkPacket.job, Prod.ext_iff]

theorem State.emittedBy_eq (s : State n m) (w : Fin n) (path : Nat) :
    s.emittedBy w path = s.traffic.emittedBy w path := by
  simp only [State.emittedBy, State.traffic, Traffic.emittedBy, Traffic.itemsFor,
    List.filter_map, List.map_map, List.filter_filter]
  congr 1
  apply List.filter_congr
  intro e _
  simp [ConversionWorkPacket.job, Bool.and_comm]

theorem State.emittedFor_eq (s : State n m) (path : Nat) :
    s.emittedFor path = s.traffic.emittedFor path := by
  simp only [State.emittedFor, State.traffic, Traffic.emittedFor, Traffic.itemsFor,
    List.filter_map, List.map_map]
  rfl

theorem State.dequeuedFor_eq (s : State n m) (path : Nat) :
    s.dequeuedFor path = s.traffic.dequeuedFor path := by
  simp only [State.dequeuedFor, State.traffic, Traffic.dequeuedFor,
    List.filter_map, List.map_map]
  rfl

/-- The entry's packet for the path is in exactly one queue and not emitted,
or in no queue and emitted once. -/
def State.AccountedFor (s : State n m) (entry : Entry) (path : Nat) : Prop :=
  (∃ w, s.queuedCount w entry path = 1 ∧
      (∀ v, v ≠ w → s.queuedCount v entry path = 0) ∧
      s.emittedCount entry path = 0) ∨
    ((∀ w, s.queuedCount w entry path = 0) ∧ s.emittedCount entry path = 1)

theorem JoinedOk.drained (hjoined : JoinedOk s) (hqueues : QueuesOk s)
    (hall : ∀ w, s.joined w = true) (w : Fin n) :
    s.queue w = [] ∧ s.outstanding w = [] := by
  have hstopped := hjoined w (hall w)
  have hdrained : (s.pc w).drained = true := by
    rcases hstopped with hpc | hpc <;> rw [hpc] <;> rfl
  have hhand : (s.pc w).inHand = [] := by
    rcases hstopped with hpc | hpc <;> rw [hpc] <;> rfl
  have hqueue := hqueues w hdrained
  exact ⟨hqueue, by rw [State.outstanding_eq_queue hhand, hqueue]⟩

/-- Packets are conserved: nothing dequeued is lost or duplicated, each worker
keeps the order of a path, and after the workers have been stopped nothing is
left in a queue or in transit. -/
theorem packets_conserved (cfg : Config) (n m : Nat) (s : State n m)
    (hreach : (conversionSystem cfg n m).Reachable s) :
    (s.dequeued.map Dequeue.entry).Nodup ∧
      (∀ d ∈ s.dequeued, ∀ path ∈ d.paths, s.AccountedFor d.entry path) ∧
      (∀ w path, (s.emittedBy w path).Sublist (s.dequeuedFor path)) ∧
      ((∀ w, s.joined w = true) →
        (∀ w, s.queue w = []) ∧ ∀ path, s.transit path = 0) := by
  have hruns : Runs (fun _ _ _ => True) s.traffic :=
    reachesVia_traffic (fun _ _ _ _ _ _ => trivial) hreach
  refine ⟨?_, ?_, ?_, ?_⟩
  · have hnodup := hruns.distinct.dequeued_nodup
    simpa [State.traffic, Function.comp_def] using hnodup
  · intro d hd path hpath
    have htaken : (⟨d.entry, d.stream, d.paths⟩ : Taken Nat Nat Entry) ∈
        s.traffic.dequeued := List.mem_map_of_mem hd
    simpa only [State.AccountedFor, State.queuedCount_eq, State.emittedCount_eq] using
      hruns.accounted htaken hpath
  · intro w path
    rw [State.emittedBy_eq, State.dequeuedFor_eq]
    exact hruns.emittedBy_sublist w path
  · intro hall
    have hdrained := (reachable_joinedOk hreach).drained (reachable_queuesOk hreach) hall
    refine ⟨fun w => (hdrained w).1, fun path => ?_⟩
    rw [(reachable_transitOk hreach).count path, Threads.total_eq_zero_iff]
    intro w packet hpacket
    rw [(hdrained w).2] at hpacket
    cases hpacket

/-- Two updates are forwarded by one worker, which is then stopped. -/
def forwardTwoAndStop (w : Fin n) (c : Fin m) : List (Action n m) :=
  Action.mapChannel c "pv" ++
    [.enqueueUpdate 0 (some 7), .enqueueUpdate 0 (some 7), .start w] ++
    List.replicate 16 (.work w 2) ++ [.stop w, .work w 2, .join w]

theorem forwardTwoAndStop_conserved :
    ∃ s : State 1 1, s.dequeuedFor 0 = [⟨0, 7⟩, ⟨1, 7⟩] ∧ s.joined 0 = true ∧
      s.AccountedFor ⟨1, 7⟩ 0 ∧ s.queue 0 = [] ∧ s.transit 0 = 0 := by
  obtain ⟨s, hreach, hdequeued, hjoined⟩ :=
    Transition.System.exists_reachable_of_run
      (T := conversionSystem .maxSubqueueSize 1 1)
      (fun s => s.dequeued = [⟨⟨0, 7⟩, 0, [0]⟩, ⟨⟨1, 7⟩, 0, [0]⟩] ∧ s.joined 0 = true)
      (forwardTwoAndStop 0 0) ⟨0, rfl⟩ (by decide +kernel)
  obtain ⟨-, haccounted, -, hstopped⟩ :=
    packets_conserved .maxSubqueueSize 1 1 s hreach
  have hall : ∀ w, s.joined w = true := fun w => by
    rw [Subsingleton.elim w 0]
    exact hjoined
  refine ⟨s, by rw [State.dequeuedFor, hdequeued]; rfl, hjoined, ?_,
    (hstopped hall).1 0, (hstopped hall).2 0⟩
  exact haccounted ⟨⟨1, 7⟩, 0, [0]⟩ (by simp [hdequeued]) 0 (by simp)

/-- A worker takes an entry only while no other worker has a packet for the
paths of that stream, queued or in hand. -/
def State.TakesAlone (cfg : Config) (s : State n m) : Action n m → Prop
  | .work w _ => ∀ stream ∈ s.takes cfg w, ∀ v, v ≠ w →
      ∀ packet ∈ s.outstanding v, packet.path ∉ (s.heap stream).conversionPaths
  | _ => True

instance (s : State n m) (action : Action n m) :
    Decidable (s.TakesAlone cfg action) :=
  match action with
  | .work w _ => inferInstanceAs (Decidable (∀ stream ∈ s.takes cfg w, ∀ v, v ≠ w →
      ∀ packet ∈ s.outstanding v, packet.path ∉ (s.heap stream).conversionPaths))
  | .start _ | .stop _ | .join _ | .enqueueUpdate _ _ | .errorInEpics _
  | .addMapping _ _ | .getStreamByChannelName _ | .add _ | .addConverter _
  | .addMappingReturns _ | .stopChannel _ _ | .clearStreams _ | .checkStreamStatus _
  | .destruct _ => inferInstanceAs (Decidable True)

theorem reachesVia_takesAlone_inOrder
    (hreach : (conversionSystem cfg n m).ReachesVia (State.TakesAlone cfg) s)
    (path : Nat) : InOrder s.traffic path := by
  refine Runs.inOrder (reachesVia_traffic ?_ hreach) path
  intro s w sizeApprox stream halone htakes v hv job hjob
  obtain ⟨packet, hpacket, rfl⟩ := List.mem_map.mp hjob
  exact halone stream htakes v hv packet (List.mem_append_right _ hpacket)

/-- Publish order: in a run whose workers take entries alone, the entries of
each path are emitted in the order they were dequeued. -/
theorem publish_order_of_takesAlone (cfg : Config) (n m : Nat) (s : State n m)
    (hreach : (conversionSystem cfg n m).ReachesVia (State.TakesAlone cfg) s)
    (path : Nat) : (s.emittedFor path).Sublist (s.dequeuedFor path) := by
  rw [State.emittedFor_eq, State.dequeuedFor_eq]
  exact (reachesVia_takesAlone_inOrder hreach path).emitted

/-- A single worker is always alone. -/
theorem publish_order_single_worker {s : State 1 m}
    (hreach : (conversionSystem cfg 1 m).Reachable s) (path : Nat) :
    (s.emittedFor path).Sublist (s.dequeuedFor path) := by
  rw [State.emittedFor_eq, State.dequeuedFor_eq]
  refine (reachesVia_takesAlone_inOrder (hreach.mono ?_) path).emitted
  intro s action _
  cases action with
  | work w _ => exact fun _ _ v hv => absurd (Subsingleton.elim v w) hv
  | _ => trivial

/-- Two workers share one stream, but the second one takes the second update
only after the first worker has emitted the first. -/
def takeTurns (w v : Fin n) (c : Fin m) : List (Action n m) :=
  Action.mapChannel c "pv" ++ [.start w, .start v, .enqueueUpdate 0 (some 7)] ++
    List.replicate 12 (.work w 1) ++ [.enqueueUpdate 0 (some 8)] ++
    List.replicate 11 (.work v 1)

theorem takeTurns_in_order :
    ∃ s : State 2 1, s.emittedFor 0 = [⟨0, 7⟩, ⟨1, 8⟩] ∧
      (s.emittedFor 0).Sublist (s.dequeuedFor 0) := by
  obtain ⟨s, hreach, hemitted⟩ := Transition.System.exists_reachesVia_of_run
    (T := conversionSystem .maxSubqueueSize 2 1) (State.TakesAlone .maxSubqueueSize)
    (fun s => s.emittedFor 0 = [⟨0, 7⟩, ⟨1, 8⟩]) (takeTurns 0 1 0) ⟨0, rfl⟩ (by decide +kernel)
  exact ⟨s, hemitted, publish_order_of_takesAlone .maxSubqueueSize 2 1 s hreach 0⟩

/-- The second worker takes and emits the second update while the first one
still has the first update in its queue. -/
def overtake (w v : Fin n) (c : Fin m) : List (Action n m) :=
  Action.mapChannel c "pv" ++ [.start w, .start v, .enqueueUpdate 0 (some 7)] ++
    List.replicate 10 (.work w 1) ++ [.enqueueUpdate 0 (some 8)] ++
    List.replicate 11 (.work v 1) ++ [.work w 1]

theorem overtake_out_of_order :
    ¬ ∀ (cfg : Config) (n m : Nat) (s : State n m), 1 ≤ n →
      (conversionSystem cfg n m).Reachable s →
        ∀ path, (s.emittedFor path).Sublist (s.dequeuedFor path) := by
  intro hall
  obtain ⟨s, hreach, hemitted, hdequeued⟩ :=
    Transition.System.exists_reachable_of_run
      (T := conversionSystem .maxSubqueueSize 2 1)
      (fun s => s.emittedFor 0 = [⟨1, 8⟩, ⟨0, 7⟩] ∧
        s.dequeuedFor 0 = [⟨0, 7⟩, ⟨1, 8⟩]) (overtake 0 1 0) ⟨0, rfl⟩ (by decide +kernel)
  have hsub := hall .maxSubqueueSize 2 1 s (by decide) hreach 0
  rw [hemitted, hdequeued] at hsub
  revert hsub
  decide

end EpicsToKafka
