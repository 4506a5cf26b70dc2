/-
The conversion workers, the scheduler and the callers of `Streams` as one
interleaved system.  A worker follows the program text of
`ConversionWorker::run` and `ConversionScheduler::fill`; every acquisition of
`StreamsMutex` is a step of its own, and a removal keeps that mutex while the
destructors of the erased streams wait for their transit counters.
-/
import EpicsToKafka.Stream
import EpicsToKafka.Transition
import Mathlib.Data.List.FinRange

namespace EpicsToKafka

/-- A non-null element of an `OutputQueue`.  Tickets number the enqueues, so
entries that share one update object stay distinct. -/
structure Entry where
  ticket : Nat
  update : Nat
deriving Repr, DecidableEq

abbrev Packet := ConversionWorkPacket Entry

/-- The part of a `Stream` that conversion and removal read; `status` is the
status of its EPICS client. -/
structure Stream where
  channelName : String := ""
  status : Int := 0
  conversionPaths : List Nat := []
  outputQueue : List (Option Entry) := []
deriving Repr, DecidableEq

/-- History of one dequeued entry: its stream and the conversion paths that
stream had at that moment. -/
structure Dequeue where
  entry : Entry
  stream : Nat
  paths : List Nat
deriving Repr, DecidableEq

/-- Locals of `ConversionScheduler::fill`.  `visits` and `total` are history:
the calls of `fillConversionQueue` made so far, and the number of streams
when the `while` loop was entered. -/
structure FillFrame where
  sid0 : Nat
  nfc : Nat
  visits : Nat
  total : Nat
deriving Repr, DecidableEq

/-- Where a worker stands, named after the call it is about to make. -/
inductive WorkerPc where
  | notStarted
  | loop
  | lockMx
  | checkEmpty
  | lockStreams
  | checkSid
  | index (frame : FillFrame)
  | filling (frame : FillFrame) (stream : Nat) (locals : FillLocals)
  | release (frame : FillFrame) (stream : Nat) (n1 : Nat)
  | destroying (frame : FillFrame) (paths : List Nat) (n1 : Nat)
  | advance (frame : FillFrame) (n1 : Nat)
  | drain
  | emitting (packet : Packet)
  | exited
deriving Repr, DecidableEq

/-- Where a caller of `Streams` stands: inside `addMapping`, or inside a
removal that still runs destructors. -/
inductive CallerPc where
  | idle
  | lookup (channel : String)
  | found (stream : Nat)
  | publish (channel : String)
  | converting (stream : Nat)
  | returning (paths : List Nat)
  | erasing (paths : List Nat)
deriving Repr, DecidableEq

/-- The temporary `shared_ptr` returned by `streams[sid]`. -/
def WorkerPc.held : WorkerPc → Option Nat
  | filling _ stream _ => some stream
  | release _ stream _ => some stream
  | _ => none

/-- The local `shared_ptr`s of `addStream` and `addMapping`. -/
def CallerPc.held : CallerPc → Option Nat
  | found stream => some stream
  | converting stream => some stream
  | _ => none

/-- `n` conversion workers and `m` threads calling `addMapping`,
`stopChannel`, `clearStreams` and `checkStreamStatus`.  The last two fields
are history. -/
structure State (n m : Nat) where
  heap : Nat → Stream
  streamPointers : List Nat
  streamsMutex : Option (Fin m)
  forwarderStreamsMutex : Option (Fin n ⊕ Fin m)
  mx : Option (Fin n)
  sid : Nat
  transit : Nat → Nat
  queue : Fin n → List Packet
  pc : Fin n → WorkerPc
  doRun : Fin n → Bool
  joined : Fin n → Bool
  caller : Fin m → CallerPc
  nextStream : Nat
  nextPath : Nat
  nextTicket : Nat
  nextPacket : Nat
  terminated : Bool
  dequeued : List Dequeue
  emitted : List (Fin n × Packet)

/-- The `uint32_t` bound a worker passes to `fill`. -/
structure Config where
  nfm : Nat
  nfm_lt : nfm < 2 ^ 32

variable {n m : Nat}

/-- The state before the workers start.  The scheduler's cursor begins at 0 in
the source; `fill` has to work from every cursor, so it is left open here. -/
def State.initial (n m cursor : Nat) : State n m where
  heap _ := {}
  streamPointers := []
  streamsMutex := none
  forwarderStreamsMutex := none
  mx := none
  sid := cursor
  transit _ := 0
  queue _ := []
  pc _ := .notStarted
  doRun _ := false
  joined _ := false
  caller _ := .idle
  nextStream := 0
  nextPath := 0
  nextTicket := 0
  nextPacket := 0
  terminated := false
  dequeued := []
  emitted := []

namespace State

/-- Owners of a `shared_ptr<Stream>`: `Streams`, the temporaries of `fill`
and the locals of `addMapping`. -/
def useCount (s : State n m) (stream : Nat) : Nat :=
  s.streamPointers.count stream +
    (List.finRange n).countP (fun w => (s.pc w).held = some stream) +
    (List.finRange m).countP (fun c => (s.caller c).held = some stream)

def setPc (s : State n m) (w : Fin n) (pc : WorkerPc) : State n m :=
  { s with pc := Function.update s.pc w pc }

def setCaller (s : State n m) (c : Fin m) (pc : CallerPc) : State n m :=
  { s with caller := Function.update s.caller c pc }

/-- Leaving `fill` releases both of its locks. -/
def fillReturns (s : State n m) (w : Fin n) : State n m :=
  { s.setPc w .drain with mx := none, forwarderStreamsMutex := none }

/-- `while (nfc < nfm)`. -/
def whileTest (cfg : Config) (s : State n m) (w : Fin n) (frame : FillFrame) :
    State n m :=
  if frame.nfc < cfg.nfm then s.setPc w (.index frame) else s.fillReturns w

/-- The cursor after a bounds check against the current number of streams. -/
def wrapSid (s : State n m) (sid : Nat) : Nat :=
  if s.streamPointers.length ≤ sid then 0 else sid

/-- What `fillConversionQueue` sees when worker `w` runs it on `stream`. -/
def fillState (s : State n m) (w : Fin n) (stream : Nat) (locals : FillLocals) :
    FillState Entry :=
  ⟨locals, (s.heap stream).outputQueue, s.queue w, s.nextPacket⟩

/-- The history entry of an iteration, if it dequeues a non-null update. -/
def dequeueRecord (s : State n m) (stream : Nat) : List Dequeue :=
  match (s.heap stream).outputQueue with
  | some entry :: _ => [⟨entry, stream, (s.heap stream).conversionPaths⟩]
  | _ => []

/-- Write the result of one iteration of `fillConversionQueue` back. -/
def afterIteration (s : State n m) (w : Fin n) (frame : FillFrame) (stream : Nat)
    (next : FillState Entry) : State n m :=
  { s.setPc w (.filling frame stream next.locals) with
    heap := Function.update s.heap stream
      { s.heap stream with outputQueue := next.outputQueue }
    queue := Function.update s.queue w next.queue
    nextPacket := next.nextPacket
    dequeued := s.dequeued ++ s.dequeueRecord stream }

/-- The end of `fillConversionQueue`: the last packet of each path is tagged
and the path's counter raised, if anything was queued. -/
def closeBatch (s : State n m) (w : Fin n) (frame : FillFrame) (stream : Nat)
    (locals : FillLocals) : State n m :=
  if 0 < locals.numQueued then
    { s.setPc w (.release frame stream locals.numQueued) with
      queue := Function.update s.queue w
        (tagLast stream locals.cwpLast (s.queue w))
      transit := raiseTransit (s.heap stream).conversionPaths s.transit }
  else s.setPc w (.release frame stream locals.numQueued)

/-- `ConversionWorkPacket::~ConversionWorkPacket`. -/
def destroyPacket (s : State n m) (packet : Packet) : State n m :=
  match packet.stream with
  | some _ => { s with
      transit := Function.update s.transit packet.path (s.transit packet.path - 1) }
  | none => s

/-- One step of `ConversionWorker::run`.  `sizeApprox` is what
`OutputQueue->size_approx()` answers, which need not be exact. -/
def workerStep (cfg : Config) (s : State n m) (w : Fin n) (sizeApprox : Nat) :
    Option (State n m) :=
  match s.pc w with
  | .notStarted => none
  | .loop =>
      some (s.setPc w
        (if s.doRun w then if s.queue w = [] then .lockMx else .drain
        else .exited))
  | .lockMx =>
      if s.mx = none then some { s.setPc w .checkEmpty with mx := some w }
      else none
  | .checkEmpty =>
      if s.streamsMutex = none then
        if s.streamPointers = [] then some { s.setPc w .drain with mx := none }
        else some (s.setPc w .lockStreams)
      else none
  | .lockStreams =>
      if s.forwarderStreamsMutex = none then
        some { s.setPc w .checkSid with forwarderStreamsMutex := some (.inl w) }
      else none
  | .checkSid =>
      if s.streamsMutex = none then
        let sid := s.wrapSid s.sid
        some (whileTest cfg { s with sid } w
          ⟨sid, 0, 0, s.streamPointers.length⟩)
      else none
  | .index frame =>
      if s.streamsMutex = none then
        match s.streamPointers[s.sid]? with
        -- `StreamPointers.at` throws and nothing on this thread catches it
        | none => some { s with terminated := true }
        | some stream =>
            some (s.setPc w (.filling { frame with visits := frame.visits + 1 }
              stream (.enter sizeApprox (s.heap stream).conversionPaths.length)))
      else none
  | .filling frame stream locals =>
      match fillIteration (fun _ => true) (s.heap stream).conversionPaths
          (uint32Sub cfg.nfm frame.nfc) (s.fillState w stream locals) with
      | some next => some (s.afterIteration w frame stream next)
      | none => some (s.closeBatch w frame stream locals)
  | .release frame stream n1 =>
      let released := s.setPc w (.advance frame n1)
      if released.useCount stream = 0 then
        some (s.setPc w
          (.destroying frame (s.heap stream).conversionPaths n1))
      else some released
  | .destroying frame [] n1 => some (s.setPc w (.advance frame n1))
  | .destroying frame (path :: paths) n1 =>
      if s.transit path = 0 then some (s.setPc w (.destroying frame paths n1))
      else none
  | .advance frame n1 =>
      if s.streamsMutex = none then
        let sid := s.wrapSid (s.sid + 1)
        if sid = frame.sid0 then some (fillReturns { s with sid } w)
        else some (whileTest cfg { s with sid } w
          { frame with nfc := uint32Add frame.nfc n1 })
      else none
  | .drain =>
      match s.queue w with
      | [] => some (s.setPc w .loop)
      | packet :: rest =>
          some { s.setPc w (.emitting packet) with
            queue := Function.update s.queue w rest
            emitted := s.emitted ++ [(w, packet)] }
  | .emitting packet => some ((s.setPc w .drain).destroyPacket packet)
  | .exited => none

/-- `ConversionWorker::start`. -/
def start (s : State n m) (w : Fin n) : Option (State n m) :=
  if s.pc w = .notStarted ∧ s.joined w = false then
    some { s.setPc w .loop with doRun := Function.update s.doRun w true }
  else none

/-- The first half of `ConversionWorker::stop`. -/
def stop (s : State n m) (w : Fin n) : Option (State n m) :=
  some { s with doRun := Function.update s.doRun w false }

/-- `ConversionWorker::stop` returns once the thread can be joined, or was
never started. -/
def join (s : State n m) (w : Fin n) : Option (State n m) :=
  if s.doRun w = false ∧ (s.pc w = .notStarted ∨ s.pc w = .exited) then
    some { s with joined := Function.update s.joined w true }
  else none

/-- An EPICS client enqueues an update, possibly a null one; it may outlive
its stream's membership in `Streams`. -/
def enqueueUpdate (s : State n m) (stream : Nat) (update : Option Nat) :
    Option (State n m) :=
  if stream < s.nextStream then
    some { s with
      heap := Function.update s.heap stream
        { s.heap stream with
          outputQueue := (s.heap stream).outputQueue ++
            [update.map fun u => ⟨s.nextTicket, u⟩] }
      nextTicket := s.nextTicket + 1 }
  else none

def errorInEpics (s : State n m) (stream : Nat) : Option (State n m) :=
  if stream < s.nextStream then
    some { s with
      heap := Function.update s.heap stream { s.heap stream with status := -1 } }
  else none

/-- `Forwarder::addMapping` takes `streams_mutex`. -/
def addMapping (s : State n m) (c : Fin m) (channel : String) :
    Option (State n m) :=
  if s.caller c = .idle ∧ s.forwarderStreamsMutex = none then
    some { s.setCaller c (.lookup channel) with
      forwarderStreamsMutex := some (.inr c) }
  else none

/-- `addStream` throws if the channel exists, with a reference to the stream
it found. -/
def getStreamByChannelName (s : State n m) (c : Fin m) : Option (State n m) :=
  match s.caller c with
  | .lookup channel =>
      if s.streamsMutex = none then
        match s.streamPointers.find? fun x => (s.heap x).channelName = channel with
        | some stream => some (s.setCaller c (.found stream))
        | none => some (s.setCaller c (.publish channel))
      else none
  | _ => none

/-- `addStream` publishes the new stream with `Streams::add`. -/
def add (s : State n m) (c : Fin m) : Option (State n m) :=
  match s.caller c with
  | .publish channel =>
      if s.streamsMutex = none then
        some { s.setCaller c (.converting s.nextStream) with
          heap := Function.update s.heap s.nextStream { channelName := channel }
          streamPointers := s.streamPointers ++ [s.nextStream]
          nextStream := s.nextStream + 1 }
      else none
  | _ => none

/-- `Stream::addConverter` with a path that is not a duplicate. -/
def addConverter (s : State n m) (c : Fin m) : Option (State n m) :=
  match s.caller c with
  | .converting stream =>
      some { s with
        heap := Function.update s.heap stream
          { s.heap stream with
            conversionPaths := (s.heap stream).conversionPaths ++ [s.nextPath] }
        transit := Function.update s.transit s.nextPath 0
        nextPath := s.nextPath + 1 }
  | _ => none

/-- A caller drops its local reference; the last owner runs `~Stream`. -/
def dropLocal (s : State n m) (c : Fin m) (stream : Nat) : State n m :=
  let released := s.setCaller c (.returning [])
  if released.useCount stream = 0 then
    s.setCaller c (.returning (s.heap stream).conversionPaths)
  else released

/-- `addMapping` is left, normally or by an exception, and drops its local
reference before it unlocks. -/
def addMappingReturns (s : State n m) (c : Fin m) : Option (State n m) :=
  match s.caller c with
  | .publish _ => some (s.setCaller c (.returning []))
  | .found stream => some (s.dropLocal c stream)
  | .converting stream => some (s.dropLocal c stream)
  | _ => none

/-- The streams an `erase(remove_if(..))` drops the last reference to. -/
def destroyedBy (s : State n m) (victim : Nat → Bool) : List Nat :=
  let kept := { s with streamPointers := s.streamPointers.filter (!victim ·) }
  (s.streamPointers.filter victim).filter fun x => kept.useCount x = 0

/-- `StreamPointers.erase(remove_if(.., victim), ..)` under `StreamsMutex`.
Streams that lose their last owner are destroyed before the mutex is
released. -/
def eraseIf (s : State n m) (c : Fin m) (victim : Nat → Bool) :
    Option (State n m) :=
  if s.caller c = .idle ∧ s.streamsMutex = none then
    some { s.setCaller c (.erasing ((s.destroyedBy victim).flatMap
        fun x => (s.heap x).conversionPaths)) with
      streamPointers := s.streamPointers.filter (!victim ·)
      streamsMutex := some c }
  else none

def stopChannel (s : State n m) (c : Fin m) (channel : String) :
    Option (State n m) :=
  s.eraseIf c fun x => (s.heap x).channelName = channel

def clearStreams (s : State n m) (c : Fin m) : Option (State n m) :=
  s.eraseIf c fun _ => true

def checkStreamStatus (s : State n m) (c : Fin m) : Option (State n m) :=
  s.eraseIf c fun x => (s.heap x).status < 0

/-- A caller leaves the wait loop of one `~ConversionPath`, or unlocks after
the last one. -/
def destruct (s : State n m) (c : Fin m) : Option (State n m) :=
  match s.caller c with
  | .erasing [] => some { s.setCaller c .idle with streamsMutex := none }
  | .erasing (path :: paths) =>
      if s.transit path = 0 then some (s.setCaller c (.erasing paths)) else none
  | .returning [] =>
      some { s.setCaller c .idle with forwarderStreamsMutex := none }
  | .returning (path :: paths) =>
      if s.transit path = 0 then some (s.setCaller c (.returning paths)) else none
  | _ => none

end State

/-- Labels of the system. -/
inductive Action (n m : Nat) where
  | start (w : Fin n)
  | stop (w : Fin n)
  | join (w : Fin n)
  | work (w : Fin n) (sizeApprox : Nat)
  | enqueueUpdate (stream : Nat) (update : Option Nat)
  | errorInEpics (stream : Nat)
  | addMapping (c : Fin m) (channel : String)
  | getStreamByChannelName (c : Fin m)
  | add (c : Fin m)
  | addConverter (c : Fin m)
  | addMappingReturns (c : Fin m)
  | stopChannel (c : Fin m) (channel : String)
  | clearStreams (c : Fin m)
  | checkStreamStatus (c : Fin m)
  | destruct (c : Fin m)
deriving Repr, DecidableEq

/-- One atomic step.  Nothing runs after the process has been terminated. -/
def State.step (cfg : Config) (s : State n m) (action : Action n m) :
    Option (State n m) :=
  if s.terminated then none
  else match action with
    | .start w => s.start w
    | .stop w => s.stop w
    | .join w => s.join w
    | .work w sizeApprox => s.workerStep cfg w sizeApprox
    | .enqueueUpdate stream update => s.enqueueUpdate stream update
    | .errorInEpics stream => s.errorInEpics stream
    | .addMapping c channel => s.addMapping c channel
    | .getStreamByChannelName c => s.getStreamByChannelName c
    | .add c => s.add c
    | .addConverter c => s.addConverter c
    | .addMappingReturns c => s.addMappingReturns c
    | .stopChannel c channel => s.stopChannel c channel
    | .clearStreams c => s.clearStreams c
    | .checkStreamStatus c => s.checkStreamStatus c
    | .destruct c => s.destruct c

/-- An undisturbed `addMapping` of a stream with one converter. -/
def Action.mapChannel (c : Fin m) (channel : String) : List (Action n m) :=
  [.addMapping c channel, .getStreamByChannelName c, .add c, .addConverter c,
    .addMappingReturns c, .destruct c]

/-- The bound `run` passes to `fill`: `MAX_SUBQUEUE_SIZE` as a `uint32_t`. -/
def Config.maxSubqueueSize : Config :=
  ⟨4294967295, by decide⟩

/-- The conversion system with `n` workers and `m` callers. -/
def conversionSystem (cfg : Config) (n m : Nat) :
    Transition.System (State n m) (Action n m) where
  init s := ∃ cursor, s = State.initial n m cursor
  step := State.step cfg

end EpicsToKafka
