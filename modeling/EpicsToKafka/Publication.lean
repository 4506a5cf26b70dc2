/-
From a dequeued update to a message in Kafka: a worker hands each packet to
`ConversionPath::emit`, which converts the update and passes the message to
`KafkaOutput::emit`, which produces it and keeps the totals of the forwarder.
The conversion system is extended by these calls; the worker destroys its
packet when `emit` has returned.
-/
import Mathlib
import EpicsToKafka.ConversionPackets
import EpicsToKafka.Producer

namespace EpicsToKafka

open Dispatch Threads

/-- The totals over all outputs, `uint64_t` both. -/
structure Totals where
  messages : Nat := 0
  bytes : Nat := 0
deriving Repr, DecidableEq

/-- `ProducerTopic::produce`, as far as its caller can see. -/
def KafkaW.ErrorCode.produce : KafkaW.ErrorCode → Int
  | .noError => 0
  | _ => 1

/-- `KafkaOutput::emit`. -/
def KafkaOutput.emit (message : Option (List UInt8)) (answer : KafkaW.ErrorCode)
    (totals : Totals) : Int × Totals :=
  match message with
  | none => (-1024, totals)
  | some data =>
      if answer.produce = 0 then
        (0, ⟨(totals.messages + 1) % 2 ^ 64, (totals.bytes + data.length) % 2 ^ 64⟩)
      else (answer.produce, totals)

/-- `ConversionPath::emit`, which returns 1 if there is no message and 0 else.
What Kafka answers does not matter to it. -/
def ConversionPath.emit (message : Option (List UInt8)) (answer : KafkaW.ErrorCode)
    (totals : Totals) : Int × Totals :=
  match message with
  | none => (1, totals)
  | some data => (0, (KafkaOutput.emit (some data) answer totals).2)

/-- History of one call of `ConversionPath::emit`: what the converter made of
the update, if anything, and what Kafka answered to it. -/
structure Emission (n : Nat) where
  worker : Fin n
  path : Nat
  entry : Entry
  message : Option (List UInt8)
  answer : KafkaW.ErrorCode
deriving Repr, DecidableEq

/-- The conversion system with its output.  `enqueued` and `emissions` are
history: the non-null updates enqueued at each stream, and the calls of `emit`
that have returned. -/
structure Publication (n m : Nat) where
  conversion : State n m
  totals : Totals
  enqueued : List (Nat × Entry)
  emissions : List (Emission n)

variable {n m : Nat}

/-- The packet a worker has passed to `emit`. -/
def WorkerPc.packet : WorkerPc → Option Packet
  | .emitting packet => some packet
  | _ => none

inductive PublicationAction (n m : Nat) where
  | conversion (action : Action n m)
  | emitReturns (w : Fin n) (message : Option (List UInt8)) (answer : KafkaW.ErrorCode)
deriving Repr, DecidableEq

/-- The worker that an action belongs to. -/
def Action.worker : Action n m → Option (Fin n)
  | .work w _ => some w
  | _ => none

/-- The entry an action adds to a stream. -/
def Action.entry (s : State n m) : Action n m → List (Nat × Entry)
  | .enqueueUpdate stream (some update) => [(stream, ⟨s.nextTicket, update⟩)]
  | _ => []

namespace Publication

def initial (n m cursor : Nat) : Publication n m :=
  ⟨.initial n m cursor, {}, [], []⟩

/-- A step of the conversion system; a worker inside `emit` has to return
first. -/
def convert (cfg : Config) (s : Publication n m) (action : Action n m) :
    Option (Publication n m) :=
  if ∃ w ∈ action.worker, (s.conversion.pc w).packet.isSome then none
  else (s.conversion.step cfg action).map fun conversion =>
    { s with conversion, enqueued := s.enqueued ++ action.entry s.conversion }

/-- `emit` returns, and the packet is destroyed.  The converter may give any
message, also another one for the same update later. -/
def emitReturns (cfg : Config) (s : Publication n m) (w : Fin n)
    (message : Option (List UInt8)) (answer : KafkaW.ErrorCode) : Option (Publication n m) :=
  match (s.conversion.pc w).packet with
  | none => none
  | some packet =>
      (s.conversion.step cfg (.work w 0)).map fun conversion =>
        { s with
          conversion
          totals := (ConversionPath.emit message answer s.totals).2
          emissions := s.emissions ++ [⟨w, packet.path, packet.update, message, answer⟩] }

def step (cfg : Config) (s : Publication n m) : PublicationAction n m → Option (Publication n m)
  | .conversion action => s.convert cfg action
  | .emitReturns w message answer => s.emitReturns cfg w message answer

end Publication

def publicationSystem (cfg : Config) (n m : Nat) :
    Transition.System (Publication n m) (PublicationAction n m) where
  init s := ∃ cursor, s = .initial n m cursor
  step := Publication.step cfg

variable {cfg : Config} {s s' : Publication n m}

namespace Emission

/-- What the call was asked for. -/
def job (e : Emission n) : Entry × Nat :=
  (e.entry, e.path)

/-- The size of the message, if Kafka has accepted one. -/
def acceptedSize (e : Emission n) : Option Nat :=
  if e.answer = .noError then e.message.map List.length else none

end Emission

namespace Publication

/-- Updates enqueued at a stream, in order. -/
def enqueuedAt (s : Publication n m) (stream : Nat) : List Entry :=
  (s.enqueued.filter fun e => e.1 = stream).map Prod.snd

/-- Updates dequeued from a stream, in order. -/
def dequeuedFrom (s : Publication n m) (stream : Nat) : List Entry :=
  (s.conversion.dequeued.filter fun d => d.stream = stream).map Dequeue.entry

/-- Updates that were passed to a path's `emit`, in the order the calls
returned. -/
def emissionsFor (s : Publication n m) (path : Nat) : List Entry :=
  (s.emissions.filter fun e => e.path = path).map Emission.entry

/-- What has left the conversion system, and what Kafka was given of it. -/
structure Accounted (s : Publication n m) : Prop where
  handed : ∀ w, (s.emissions.filter fun e => e.worker = w).map Emission.job ++
      (s.conversion.pc w).inHand.map ConversionWorkPacket.job =
    (s.conversion.emitted.filter fun e => e.1 = w).map fun e => e.2.job
  messages : s.totals.messages =
    (s.emissions.filterMap Emission.acceptedSize).length % 2 ^ 64
  bytes : s.totals.bytes = (s.emissions.filterMap Emission.acceptedSize).sum % 2 ^ 64

theorem Accounted.initial (cursor : Nat) :
    Accounted (Publication.initial n m cursor) := by
  constructor <;> simp [Publication.initial, State.initial, WorkerPc.inHand]

/-- The totals count the messages that Kafka has accepted. -/
theorem emit_totals {emissions : List (Emission n)} {totals : Totals} (e : Emission n)
    (hmessages : totals.messages = (emissions.filterMap Emission.acceptedSize).length % 2 ^ 64)
    (hbytes : totals.bytes = (emissions.filterMap Emission.acceptedSize).sum % 2 ^ 64) :
    (ConversionPath.emit e.message e.answer totals).2.messages =
        ((emissions ++ [e]).filterMap Emission.acceptedSize).length % 2 ^ 64 ∧
      (ConversionPath.emit e.message e.answer totals).2.bytes =
        ((emissions ++ [e]).filterMap Emission.acceptedSize).sum % 2 ^ 64 := by
  cases hmessage : e.message with
  | none =>
      simpa [ConversionPath.emit, Emission.acceptedSize, hmessage] using
        And.intro hmessages hbytes
  | some data =>
      cases hanswer : e.answer with
      | noError =>
          simp [ConversionPath.emit, KafkaOutput.emit, KafkaW.ErrorCode.produce,
            Emission.acceptedSize, hmessage, hanswer, hmessages, hbytes]
      | queueFull | msgSizeTooLarge | other _ =>
          simpa [ConversionPath.emit, KafkaOutput.emit, KafkaW.ErrorCode.produce,
            Emission.acceptedSize, hanswer] using And.intro hmessages hbytes

end Publication

/-- What a step of the conversion system does to the packets in the hands of
the workers. -/
inductive HandMove (s : State n m) (action : Action n m) (s' : State n m) : Prop
  | keeps (hemitted : s'.emitted = s.emitted)
      (hhand : ∀ v, (s'.pc v).inHand = (s.pc v).inHand)
  | takes {w : Fin n} {packet : Packet} (hemitted : s'.emitted = s.emitted ++ [(w, packet)])
      (hbefore : (s.pc w).inHand = []) (hafter : (s'.pc w).inHand = [packet])
      (hother : ∀ v, v ≠ w → (s'.pc v).inHand = (s.pc v).inHand)
  | returns {w : Fin n} {packet : Packet} (haction : action.worker = some w)
      (hpc : s.pc w = .emitting packet)
      (hemitted : s'.emitted = s.emitted) (hafter : (s'.pc w).inHand = [])
      (hother : ∀ v, v ≠ w → (s'.pc v).inHand = (s.pc v).inHand)

theorem State.closeBatch_emitted (s : State n m) (w : Fin n) (frame : FillFrame)
    (stream : Nat) (locals : FillLocals) :
    (s.closeBatch w frame stream locals).emitted = s.emitted := by
  unfold State.closeBatch
  split <;> rfl

theorem State.destroyPacket_emitted (s : State n m) (packet : Packet) :
    (s.destroyPacket packet).emitted = s.emitted := by
  unfold State.destroyPacket
  split <;> rfl

theorem WorkerMove.handMove {s s' : State n m} {w : Fin n} (hmove : WorkerMove cfg s w s')
    (sizeApprox : Nat) : HandMove s (.work w sizeApprox) s' := by
  have hother : ∀ v, v ≠ w → (s'.pc v).inHand = (s.pc v).inHand := by
    intro v hv
    rw [hmove.frame.pc v hv]
  have hkeeps : s'.emitted = s.emitted → (s.pc w).inHand = [] → (s'.pc w).inHand = [] →
      HandMove s (.work w sizeApprox) s' := by
    intro hemitted hbefore hafter
    refine .keeps hemitted fun v => ?_
    by_cases hv : v = w
    · rw [hv, hbefore, hafter]
    · exact hother v hv
  cases hmove with
  | emit hpc hqueue => exact .takes rfl (by rw [hpc]; rfl) (by simp [WorkerPc.inHand]) hother
  | destroyPacket hpc =>
      exact .returns rfl hpc (State.destroyPacket_emitted _ _) (by simp [WorkerPc.inHand])
        hother
  | closeBatch hpc =>
      exact hkeeps (s.closeBatch_emitted w _ _ _) (by rw [hpc]; rfl) (by simp [WorkerPc.inHand])
  | outOfRange hpc _ _ => exact hkeeps rfl (by rw [hpc]; rfl) (by simp [hpc, WorkerPc.inHand])
  | enterFull hpc _ _ | finish hpc _ _ =>
      exact hkeeps rfl (by rw [hpc]; rfl) (by simp [State.fillReturns, WorkerPc.inHand])
  | exit hpc _ | callFill hpc _ _ | skipFill hpc _ | lockMx hpc _ | noStreams hpc _ _
  | someStreams hpc _ _ | lockStreams hpc _ | enterLoop hpc _ _ | visit hpc _ _
  | iterate hpc _ | lastOwner hpc _ | notLastOwner hpc | pathDestroyed hpc _
  | streamDestroyed hpc | again hpc _ _ _ | drained hpc _ =>
      exact hkeeps rfl (by rw [hpc]; rfl) (by simp [WorkerPc.inHand])

theorem step_handMove {s s' : State n m} {action : Action n m}
    (hstep : s.step cfg action = some s') : HandMove s action s' := by
  rcases step_labelled hstep with
    ⟨w, sizeApprox, rfl, hmove⟩ | ⟨c, victim, hmove⟩ | ⟨c, hmove⟩ | hmove
  · exact hmove.handMove sizeApprox
  · exact .keeps hmove.callerMove.frame.emitted fun v => by rw [hmove.callerMove.frame.pc]
  · exact .keeps hmove.move.frame.emitted fun v => by rw [hmove.move.frame.pc]
  · cases hmove with
    | @start w hpc _ =>
        refine .keeps rfl fun v => ?_
        by_cases hv : v = w
        · subst hv
          simp [hpc, WorkerPc.inHand]
        · rw [s.setPc_pc_of_ne _ hv]
    | stop | join _ | enqueueUpdate _ | errorInEpics _ => exact .keeps rfl fun _ => rfl

namespace Publication

theorem Accounted.convert (hok : Accounted s) {action : Action n m}
    (hstep : s.convert cfg action = some s') : Accounted s' := by
  unfold Publication.convert at hstep
  split at hstep
  · cases hstep
  rename_i houtside
  obtain ⟨conversion, hconversion, rfl⟩ := Option.map_eq_some_iff.mp hstep
  refine ⟨fun v => ?_, hok.messages, hok.bytes⟩
  have hhanded := hok.handed v
  cases step_handMove hconversion with
  | keeps hemitted hhand => rw [hemitted, hhand]; exact hhanded
  | @takes w packet hemitted hbefore hafter hother =>
      simp only
      rw [hemitted, List.filter_append, List.map_append, ← hhanded]
      by_cases hv : v = w
      · subst hv
        simp [hbefore, hafter]
      · simp [hother v hv, Ne.symm hv]
  | @returns w packet haction hpc _ _ _ =>
      exact absurd ⟨w, haction, by rw [hpc]; rfl⟩ houtside

theorem emitReturns_eq_some {w : Fin n} {message : Option (List UInt8)}
    {answer : KafkaW.ErrorCode}
    (hstep : s.emitReturns cfg w message answer = some s') :
    ∃ packet conversion, s.conversion.pc w = .emitting packet ∧
      s.conversion.step cfg (.work w 0) = some conversion ∧
      s' = { s with
        conversion
        totals := (ConversionPath.emit message answer s.totals).2
        emissions := s.emissions ++ [⟨w, packet.path, packet.update, message, answer⟩] } := by
  unfold Publication.emitReturns at hstep
  split at hstep
  · cases hstep
  · rename_i packet hpacket
    obtain ⟨conversion, hconversion, rfl⟩ := Option.map_eq_some_iff.mp hstep
    refine ⟨packet, conversion, ?_, hconversion, rfl⟩
    cases hpc : s.conversion.pc w <;> simp_all [WorkerPc.packet]

theorem Accounted.emitReturns (hok : Accounted s) {w : Fin n}
    {message : Option (List UInt8)} {answer : KafkaW.ErrorCode}
    (hstep : s.emitReturns cfg w message answer = some s') :
    Accounted s' := by
  obtain ⟨packet, conversion, hpc, hconversion, rfl⟩ := emitReturns_eq_some hstep
  have hmove : conversion = (s.conversion.setPc w .drain).destroyPacket packet := by
    simp only [State.step] at hconversion
    split at hconversion
    · cases hconversion
    · simpa [State.workerStep, hpc, eq_comm] using hconversion
  have htotals := emit_totals ⟨w, packet.path, packet.update, message, answer⟩
    hok.messages hok.bytes
  refine ⟨fun v => ?_, htotals.1, htotals.2⟩
  · have hhanded := hok.handed v
    have hemitted : conversion.emitted = s.conversion.emitted := by
      rw [hmove, State.destroyPacket_emitted]
      rfl
    simp only
    rw [hemitted, ← hhanded, List.filter_append, List.map_append, hmove]
    by_cases hv : v = w
    · subst hv
      simp [hpc, WorkerPc.inHand, Emission.job, ConversionWorkPacket.job]
    · have hsame : ((s.conversion.setPc w .drain).destroyPacket packet).pc v =
          s.conversion.pc v := by
        rw [State.destroyPacket_pc, s.conversion.setPc_pc_of_ne _ hv]
      simp [hsame, Ne.symm hv]

end Publication

/-- A step brings no more to a stream than the entry of its action. -/
theorem step_arrived {s s' : State n m} {action : Action n m}
    (hreach : (conversionSystem cfg n m).Reachable s) (hstep : s.step cfg action = some s')
    (stream : Nat) :
    s'.traffic.arrivedAt stream = s.traffic.arrivedAt stream ++
      ((action.entry s).filter fun e => e.1 = stream).map Prod.snd := by
  have halloc := reachable_allocOk hreach
  have hsame : s'.traffic = s.traffic → action.entry s = [] →
      s'.traffic.arrivedAt stream = s.traffic.arrivedAt stream ++
        ((action.entry s).filter fun e => e.1 = stream).map Prod.snd := by
    intro htraffic hentry
    rw [htraffic, hentry, List.filter_nil, List.map_nil, List.append_nil]
  have hcaller : ∀ c, CallerMove s c s' → s'.traffic = s.traffic :=
    fun c hmove => hmove.traffic halloc
  have hremoval := hstep
  unfold State.step at hstep
  split at hstep
  · cases hstep
  cases action with
  | work w sizeApprox =>
      simp only [Action.entry, List.filter_nil, List.map_nil, List.append_nil]
      cases (workerStep_move hstep).traffic (reachable_transitOk hreach) with
      | quiet htraffic => rw [htraffic]
      | discard hfront htraffic => rw [htraffic, Traffic.arrivedAt_discard hfront]
      | distribute _ hfront htraffic =>
          rw [htraffic, Traffic.arrivedAt_distribute hfront]
      | emit _ htraffic =>
          rw [htraffic]
          rfl
  | enqueueUpdate target update =>
      simp only [State.enqueueUpdate, Option.ite_none_right_eq_some, Option.some.injEq] at hstep
      rw [← hstep.2, enqueueUpdate_traffic, Traffic.arrivedAt_enqueue]
      cases update with
      | none => simp [Action.entry]
      | some u =>
          by_cases htarget : target = stream
          · simp [Action.entry, htarget]
          · simp [Action.entry, htarget]
  | errorInEpics target =>
      simp only [State.errorInEpics, Option.ite_none_right_eq_some, Option.some.injEq] at hstep
      exact hsame (by rw [← hstep.2, errorInEpics_traffic]) rfl
  | start w =>
      simp only [State.start, Option.ite_none_right_eq_some, Option.some.injEq] at hstep
      exact hsame (by rw [← hstep.2]; rfl) rfl
  | stop w =>
      cases hstep
      exact hsame rfl rfl
  | join w =>
      simp only [State.join, Option.ite_none_right_eq_some, Option.some.injEq] at hstep
      exact hsame (by rw [← hstep.2]; rfl) rfl
  | stopChannel c channel | clearStreams c | checkStreamStatus c =>
      obtain ⟨_, hmove⟩ := step_removal rfl hremoval
      exact hsame (hcaller _ hmove.callerMove) rfl
  | addMapping c channel => exact hsame (hcaller c (addMapping_move hstep)) rfl
  | getStreamByChannelName c =>
      exact hsame (hcaller c (getStreamByChannelName_move hstep)) rfl
  | add c => exact hsame (hcaller c (add_move hstep)) rfl
  | addConverter c => exact hsame (hcaller c (addConverter_move hstep)) rfl
  | addMappingReturns c => exact hsame (hcaller c (addMappingReturns_move hstep)) rfl
  | destruct c => exact hsame (hcaller c (destruct_move hstep)) rfl

namespace Publication

/-- The conversion system runs as before, and its history is that of the
output. -/
structure Followed (cfg : Config) (s : Publication n m) : Prop where
  reachable : (conversionSystem cfg n m).Reachable s.conversion
  arrived : ∀ stream, s.conversion.traffic.arrivedAt stream = s.enqueuedAt stream
  accounted : Accounted s

theorem Followed.convert (hok : Followed cfg s) {action : Action n m}
    (hstep : s.convert cfg action = some s') : Followed cfg s' := by
  have haccounted := hok.accounted.convert hstep
  unfold Publication.convert at hstep
  split at hstep
  · cases hstep
  obtain ⟨conversion, hconversion, rfl⟩ := Option.map_eq_some_iff.mp hstep
  refine ⟨hok.reachable.next hconversion, fun stream => ?_, haccounted⟩
  rw [step_arrived hok.reachable hconversion, hok.arrived]
  simp [enqueuedAt]

theorem Followed.emitReturns (hok : Followed cfg s) {w : Fin n}
    {message : Option (List UInt8)} {answer : KafkaW.ErrorCode}
    (hstep : s.emitReturns cfg w message answer = some s') :
    Followed cfg s' := by
  have haccounted := hok.accounted.emitReturns hstep
  obtain ⟨packet, conversion, -, hconversion, rfl⟩ := emitReturns_eq_some hstep
  have hlabelled : (conversionSystem cfg n m).step s.conversion (.work w 0) =
      some conversion := hconversion
  refine ⟨hok.reachable.next hlabelled, fun stream => ?_, haccounted⟩
  rw [step_arrived hok.reachable hconversion, hok.arrived]
  simp [enqueuedAt, Action.entry]

theorem reachable_followed (hreach : (publicationSystem cfg n m).Reachable s) :
    Followed cfg s := by
  refine hreach.invariant ?_ ?_
  · rintro s ⟨cursor, rfl⟩
    refine ⟨.init ⟨cursor, rfl⟩, fun stream => ?_, Accounted.initial cursor⟩
    simp [Publication.initial, State.initial, State.traffic, Traffic.arrivedAt,
      Traffic.takenFrom, enqueuedAt]
  · intro s action s' _ hok hstep
    cases action with
    | conversion action => exact hok.convert hstep
    | emitReturns w message answer => exact hok.emitReturns hstep

theorem emissionsFor_eq (s : Publication n m) (path : Nat) :
    s.emissionsFor path = Traffic.itemsFor path (s.emissions.map Emission.job) := by
  simp only [emissionsFor, Traffic.itemsFor, List.filter_map, List.map_map]
  rfl

/-- A job is done, in a worker's hand, or queued, as often as it was taken. -/
theorem Followed.jobs (hok : Followed cfg s) (entry : Entry) (path : Nat) :
    total (fun w => (s.conversion.queue w).map ConversionWorkPacket.job) (· == (entry, path)) +
        total (fun w => (s.conversion.pc w).inHand.map ConversionWorkPacket.job)
          (· == (entry, path)) +
        (s.emissionsFor path).count entry =
      (s.conversion.dequeuedFor path).count entry := by
  have hconserved :=
    (reachesVia_traffic (fun _ _ _ _ _ _ => trivial) hok.reachable :
      Runs (fun _ _ _ => True) s.conversion.traffic).conserved entry path
  have hemitted : (s.conversion.traffic.emitted.map Prod.snd).count (entry, path) =
      (s.emissionsFor path).count entry +
        total (fun w => (s.conversion.pc w).inHand.map ConversionWorkPacket.job)
          (· == (entry, path)) := by
    calc (s.conversion.traffic.emitted.map Prod.snd).count (entry, path)
        = (s.conversion.emitted.map fun e => e.2.job).countP (· == (entry, path)) := by
          simp [State.traffic, List.count, Function.comp_def]
      _ = total (fun w => (s.conversion.emitted.filter fun e => e.1 = w).map fun e => e.2.job)
            (· == (entry, path)) := (total_filter _ _ _ _).symm
      _ = total (fun w => (s.emissions.filter fun e => e.worker = w).map Emission.job ++
            (s.conversion.pc w).inHand.map ConversionWorkPacket.job) (· == (entry, path)) := by
          simp only [hok.accounted.handed]
      _ = (s.emissions.map Emission.job).countP (· == (entry, path)) +
            total (fun w => (s.conversion.pc w).inHand.map ConversionWorkPacket.job)
              (· == (entry, path)) := by
          rw [total_append, total_filter]
      _ = (s.emissionsFor path).count entry + _ := by
          rw [emissionsFor_eq, count_itemsFor, List.count]
  rw [State.dequeuedFor_eq, count_dequeuedFor, ← hconserved, hemitted]
  simp only [State.traffic]
  omega

theorem Followed.emissionsFor_subperm (hok : Followed cfg s) (path : Nat) :
    (s.emissionsFor path).Subperm (s.conversion.dequeuedFor path) := by
  rw [List.subperm_iff_count]
  intro entry
  have hjobs := hok.jobs entry path
  omega

/-- Once the workers have been stopped, nothing is left in a queue or in a
hand. -/
theorem Followed.emissionsFor_perm (hok : Followed cfg s)
    (hall : ∀ w, s.conversion.joined w = true) (path : Nat) :
    (s.emissionsFor path).Perm (s.conversion.dequeuedFor path) := by
  have hdrained := (reachable_joinedOk hok.reachable).drained
    (reachable_queuesOk hok.reachable) hall
  have hqueue : ∀ w, s.conversion.queue w = [] := fun w => (hdrained w).1
  have hhand : ∀ w, (s.conversion.pc w).inHand = [] := by
    intro w
    rcases reachable_joinedOk hok.reachable w (hall w) with hpc | hpc
    · rw [hpc]; rfl
    · rw [hpc]; rfl
  rw [List.perm_iff_count]
  intro entry
  have hjobs := hok.jobs entry path
  simpa [hqueue, hhand, total] using hjobs

/-- Updates are taken from a stream in the order they came in. -/
theorem Followed.arrivals (hok : Followed cfg s) (stream : Nat) :
    s.dequeuedFrom stream ++ (s.conversion.heap stream).outputQueue.filterMap id =
      s.enqueuedAt stream := by
  rw [← hok.arrived stream, Traffic.arrivedAt, Traffic.takenFrom, dequeuedFrom]
  simp [State.traffic, List.filter_map, Function.comp_def]

/-- Two updates of one stream; Kafka accepts the first message and refuses the
second. -/
def publishTwoAndStop (w : Fin n) (c : Fin m) : List (PublicationAction n m) :=
  (Action.mapChannel c "pv").map .conversion ++
    [.conversion (.enqueueUpdate 0 (some 7)), .conversion (.enqueueUpdate 0 (some 8)),
      .conversion (.start w)] ++
    List.replicate 12 (.conversion (.work w 2)) ++
    [.emitReturns w (some [1, 2, 3]) .noError, .conversion (.work w 2),
      .emitReturns w (some [4]) .queueFull,
      .conversion (.work w 2), .conversion (.stop w), .conversion (.work w 2),
      .conversion (.join w)]

/-- A single worker has passed the updates of a path to `emit` in the order
they were dequeued, without a gap; the packet in its hand and its queue come
next. -/
theorem Followed.single_worker {s : Publication 1 m} (hok : Followed cfg s)
    (path : Nat) :
    s.emissionsFor path ++ (Traffic.itemsFor path
        ((s.conversion.pc 0).inHand.map ConversionWorkPacket.job) ++
      Traffic.itemsFor path (s.conversion.traffic.queued 0)) =
      s.conversion.dequeuedFor path := by
  have hruns : Runs (fun _ _ _ => True) s.conversion.traffic :=
    reachesVia_traffic (fun _ _ _ _ _ _ => trivial) hok.reachable
  have hhanded := hok.accounted.handed 0
  have hemissions : s.emissions.filter (fun e => e.worker = 0) = s.emissions :=
    List.filter_eq_self.mpr fun e _ => by simp [Subsingleton.elim e.worker 0]
  have hemitted : s.conversion.emitted.filter (fun e => e.1 = 0) = s.conversion.emitted :=
    List.filter_eq_self.mpr fun e _ => by simp [Subsingleton.elim e.1 0]
  rw [hemissions, hemitted] at hhanded
  have hjobs : s.conversion.traffic.emitted.map Prod.snd =
      s.conversion.emitted.map fun e => e.2.job := by
    simp [State.traffic]
  rw [State.dequeuedFor_eq, ← hruns.single_worker 0 path, Traffic.emittedFor, hjobs,
    ← hhanded, itemsFor_append, emissionsFor_eq, List.append_assoc]

theorem Followed.emissionsFor_initial {s : Publication 1 m} (hok : Followed cfg s)
    (path : Nat) : s.emissionsFor path <+: s.conversion.dequeuedFor path := by
  rw [← hok.single_worker path]
  exact List.prefix_append _ _

/-- With one worker the calls of a path's `emit` are, at any time, an initial
segment of the updates dequeued for it, and all of them when the worker has
been stopped. -/
theorem forwarded_in_order (cfg : Config) (m : Nat) (s : Publication 1 m)
    (hreach : (publicationSystem cfg 1 m).Reachable s) (path : Nat) :
    s.emissionsFor path <+: s.conversion.dequeuedFor path ∧
      (s.conversion.joined 0 = true → s.emissionsFor path = s.conversion.dequeuedFor path) := by
  have hok := reachable_followed hreach
  have hordered := hok.emissionsFor_initial path
  refine ⟨hordered, fun hjoined => ?_⟩
  have hall : ∀ w, s.conversion.joined w = true := fun w => by
    rw [Subsingleton.elim w 0]
    exact hjoined
  exact hordered.eq_of_length (hok.emissionsFor_perm hall path).length_eq

theorem publishTwoAndStop_in_order :
    ∃ s : Publication 1 1, s.conversion.joined 0 = true ∧
      s.emissionsFor 0 = [⟨0, 7⟩, ⟨1, 8⟩] := by
  obtain ⟨s, hreach, hjoined, hdequeued⟩ :=
    Transition.System.exists_reachable_of_run
      (T := publicationSystem .maxSubqueueSize 1 1)
      (fun s => s.conversion.joined 0 = true ∧
        s.conversion.dequeuedFor 0 = [⟨0, 7⟩, ⟨1, 8⟩])
      (publishTwoAndStop 0 0) ⟨0, rfl⟩ (by decide +kernel)
  obtain ⟨-, hstopped⟩ := forwarded_in_order _ 1 s hreach 0
  exact ⟨s, hjoined, (hstopped hjoined).trans hdequeued⟩

end Publication

end EpicsToKafka
