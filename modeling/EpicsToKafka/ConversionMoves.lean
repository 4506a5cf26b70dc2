/-
What one step of the conversion system can do.  Every invariant of the system
is proved by cases on these relations, so the step functions are unfolded
here and nowhere else.
-/
import EpicsToKafka.ConversionSystem

namespace EpicsToKafka

variable {n m : Nat} {cfg : Config} {s s' : State n m} {w : Fin n} {c : Fin m}

namespace State

@[simp] theorem setPc_pc_self (s : State n m) (w : Fin n) (pc : WorkerPc) :
    (s.setPc w pc).pc w = pc := by simp [setPc]

theorem setPc_pc_of_ne (s : State n m) {w other : Fin n} (pc : WorkerPc)
    (hne : other ≠ w) : (s.setPc w pc).pc other = s.pc other := by
  simp [setPc, hne]

@[simp] theorem setCaller_caller_self (s : State n m) (c : Fin m) (pc : CallerPc) :
    (s.setCaller c pc).caller c = pc := by simp [setCaller]

theorem setCaller_caller_of_ne (s : State n m) {c other : Fin m} (pc : CallerPc)
    (hne : other ≠ c) : (s.setCaller c pc).caller other = s.caller other := by
  simp [setCaller, hne]

@[simp] theorem afterIteration_pc (s : State n m) (w : Fin n) (frame : FillFrame)
    (stream : Nat) (next : FillState Entry) :
    (s.afterIteration w frame stream next).pc =
      (s.setPc w (.filling frame stream next.locals)).pc := rfl

@[simp] theorem closeBatch_pc (s : State n m) (w : Fin n) (frame : FillFrame)
    (stream : Nat) (locals : FillLocals) :
    (s.closeBatch w frame stream locals).pc =
      (s.setPc w (.release frame stream locals.numQueued)).pc := by
  unfold closeBatch
  split <;> rfl

@[simp] theorem destroyPacket_pc (s : State n m) (packet : Packet) :
    (s.destroyPacket packet).pc = s.pc := by
  unfold destroyPacket
  split <;> rfl

/-- A stream has no owner left exactly when nobody mentions it. -/
theorem useCount_eq_zero_iff (s : State n m) (stream : Nat) :
    s.useCount stream = 0 ↔
      stream ∉ s.streamPointers ∧ (∀ w, (s.pc w).held ≠ some stream) ∧
        ∀ c, (s.caller c).held ≠ some stream := by
  simp [useCount, List.count_eq_zero, List.countP_eq_zero, and_assoc]

end State

/-- The moves of a worker, guards included. -/
inductive WorkerMove (cfg : Config) (s : State n m) (w : Fin n) :
    State n m → Prop
  | exit (hpc : s.pc w = .loop) (hrun : s.doRun w = false) :
      WorkerMove cfg s w (s.setPc w .exited)
  | callFill (hpc : s.pc w = .loop) (hrun : s.doRun w = true)
      (hqueue : s.queue w = []) : WorkerMove cfg s w (s.setPc w .lockMx)
  | skipFill (hpc : s.pc w = .loop) (hqueue : s.queue w ≠ []) :
      WorkerMove cfg s w (s.setPc w .drain)
  | lockMx (hpc : s.pc w = .lockMx) (hmx : s.mx = none) :
      WorkerMove cfg s w { s.setPc w .checkEmpty with mx := some w }
  | noStreams (hpc : s.pc w = .checkEmpty) (hinner : s.streamsMutex = none)
      (hempty : s.streamPointers = []) :
      WorkerMove cfg s w { s.setPc w .drain with mx := none }
  | someStreams (hpc : s.pc w = .checkEmpty) (hinner : s.streamsMutex = none)
      (hsome : s.streamPointers ≠ []) :
      WorkerMove cfg s w (s.setPc w .lockStreams)
  | lockStreams (hpc : s.pc w = .lockStreams)
      (houter : s.forwarderStreamsMutex = none) :
      WorkerMove cfg s w
        { s.setPc w .checkSid with forwarderStreamsMutex := some (.inl w) }
  | enterLoop (hpc : s.pc w = .checkSid) (hinner : s.streamsMutex = none)
      (hspace : 0 < cfg.nfm) :
      WorkerMove cfg s w (State.setPc { s with sid := s.wrapSid s.sid } w
        (.index ⟨s.wrapSid s.sid, 0, 0, s.streamPointers.length⟩))
  | enterFull (hpc : s.pc w = .checkSid) (hinner : s.streamsMutex = none)
      (hfull : cfg.nfm = 0) :
      WorkerMove cfg s w (State.fillReturns { s with sid := s.wrapSid s.sid } w)
  | outOfRange {frame : FillFrame} (hpc : s.pc w = .index frame)
      (hinner : s.streamsMutex = none)
      (hrange : s.streamPointers.length ≤ s.sid) :
      WorkerMove cfg s w { s with terminated := true }
  | visit {frame : FillFrame} {stream sizeApprox : Nat}
      (hpc : s.pc w = .index frame) (hinner : s.streamsMutex = none)
      (hstream : s.streamPointers[s.sid]? = some stream) :
      WorkerMove cfg s w
        (s.setPc w (.filling { frame with visits := frame.visits + 1 } stream
          (.enter sizeApprox (s.heap stream).conversionPaths.length)))
  | iterate {frame : FillFrame} {stream : Nat} {locals : FillLocals}
      {next : FillState Entry} (hpc : s.pc w = .filling frame stream locals)
      (hiter : fillIteration (fun _ => true) (s.heap stream).conversionPaths
        (uint32Sub cfg.nfm frame.nfc) (s.fillState w stream locals) = some next) :
      WorkerMove cfg s w (s.afterIteration w frame stream next)
  | closeBatch {frame : FillFrame} {stream : Nat} {locals : FillLocals}
      (hpc : s.pc w = .filling frame stream locals) :
      WorkerMove cfg s w (s.closeBatch w frame stream locals)
  | lastOwner {frame : FillFrame} {stream n1 : Nat}
      (hpc : s.pc w = .release frame stream n1)
      (hcount : (s.setPc w (.advance frame n1)).useCount stream = 0) :
      WorkerMove cfg s w
        (s.setPc w (.destroying frame (s.heap stream).conversionPaths n1))
  | notLastOwner {frame : FillFrame} {stream n1 : Nat}
      (hpc : s.pc w = .release frame stream n1) :
      WorkerMove cfg s w (s.setPc w (.advance frame n1))
  | pathDestroyed {frame : FillFrame} {path : Nat} {paths : List Nat} {n1 : Nat}
      (hpc : s.pc w = .destroying frame (path :: paths) n1)
      (htransit : s.transit path = 0) :
      WorkerMove cfg s w (s.setPc w (.destroying frame paths n1))
  | streamDestroyed {frame : FillFrame} {n1 : Nat}
      (hpc : s.pc w = .destroying frame [] n1) :
      WorkerMove cfg s w (s.setPc w (.advance frame n1))
  | again {frame : FillFrame} {n1 : Nat} (hpc : s.pc w = .advance frame n1)
      (hinner : s.streamsMutex = none)
      (hsid : s.wrapSid (s.sid + 1) ≠ frame.sid0)
      (hspace : uint32Add frame.nfc n1 < cfg.nfm) :
      WorkerMove cfg s w (State.setPc { s with sid := s.wrapSid (s.sid + 1) } w
        (.index { frame with nfc := uint32Add frame.nfc n1 }))
  | finish {frame : FillFrame} {n1 : Nat} (hpc : s.pc w = .advance frame n1)
      (hinner : s.streamsMutex = none)
      (hend : s.wrapSid (s.sid + 1) = frame.sid0 ∨
        cfg.nfm ≤ uint32Add frame.nfc n1) :
      WorkerMove cfg s w
        (State.fillReturns { s with sid := s.wrapSid (s.sid + 1) } w)
  | drained (hpc : s.pc w = .drain) (hqueue : s.queue w = []) :
      WorkerMove cfg s w (s.setPc w .loop)
  | emit {packet : Packet} {rest : List Packet} (hpc : s.pc w = .drain)
      (hqueue : s.queue w = packet :: rest) :
      WorkerMove cfg s w
        { s.setPc w (.emitting packet) with
          queue := Function.update s.queue w rest
          emitted := s.emitted ++ [(w, packet)] }
  | destroyPacket {packet : Packet} (hpc : s.pc w = .emitting packet) :
      WorkerMove cfg s w ((s.setPc w .drain).destroyPacket packet)

theorem workerStep_move {sizeApprox : Nat}
    (hstep : s.workerStep cfg w sizeApprox = some s') :
    WorkerMove cfg s w s' := by
  unfold State.workerStep at hstep
  split at hstep
  case h_1 => cases hstep
  case h_2 hpc =>
    cases hstep
    by_cases hrun : s.doRun w = true
    · by_cases hqueue : s.queue w = []
      · rw [if_pos hrun, if_pos hqueue]
        exact .callFill hpc hrun hqueue
      · rw [if_pos hrun, if_neg hqueue]
        exact .skipFill hpc hqueue
    · rw [if_neg hrun]
      exact .exit hpc (by simpa using hrun)
  case h_3 hpc =>
    split at hstep
    · cases hstep; exact .lockMx hpc ‹_›
    · cases hstep
  case h_4 hpc =>
    split at hstep
    · split at hstep
      · cases hstep; exact .noStreams hpc ‹_› ‹_›
      · cases hstep; exact .someStreams hpc ‹_› ‹_›
    · cases hstep
  case h_5 hpc =>
    split at hstep
    · cases hstep; exact .lockStreams hpc ‹_›
    · cases hstep
  case h_6 hpc =>
    split at hstep
    · cases hstep
      unfold State.whileTest
      split
      · exact .enterLoop hpc ‹_› ‹_›
      · exact .enterFull hpc ‹_› (Nat.le_zero.mp (Nat.not_lt.mp ‹_›))
    · cases hstep
  case h_7 hpc =>
    split at hstep
    · split at hstep
      · rename_i hnone
        cases hstep
        exact .outOfRange hpc ‹_› (List.getElem?_eq_none_iff.mp hnone)
      · cases hstep; exact .visit hpc ‹_› ‹_›
    · cases hstep
  case h_8 hpc =>
    split at hstep
    · cases hstep; exact .iterate hpc ‹_›
    · cases hstep; exact .closeBatch hpc
  case h_9 hpc =>
    simp only at hstep
    split at hstep
    · cases hstep; exact .lastOwner hpc ‹_›
    · cases hstep; exact .notLastOwner hpc
  case h_10 hpc => cases hstep; exact .streamDestroyed hpc
  case h_11 hpc =>
    split at hstep
    · cases hstep; exact .pathDestroyed hpc ‹_›
    · cases hstep
  case h_12 hpc =>
    split at hstep
    · simp only at hstep
      split at hstep
      · cases hstep; exact .finish hpc ‹_› (Or.inl ‹_›)
      · cases hstep
        unfold State.whileTest
        split
        · exact .again hpc ‹_› ‹_› ‹_›
        · exact .finish hpc ‹_› (Or.inr (Nat.not_lt.mp ‹_›))
    · cases hstep
  case h_13 hpc =>
    split at hstep
    · cases hstep; exact .drained hpc ‹_›
    · cases hstep; exact .emit hpc ‹_›
  case h_14 hpc => cases hstep; exact .destroyPacket hpc
  case h_15 => cases hstep

/-- What no move of worker `w` touches. -/
structure WorkerFrame (s : State n m) (w : Fin n) (s' : State n m) : Prop where
  pc : ∀ v, v ≠ w → s'.pc v = s.pc v
  queue : ∀ v, v ≠ w → s'.queue v = s.queue v
  caller : s'.caller = s.caller
  streamPointers : s'.streamPointers = s.streamPointers
  streamsMutex : s'.streamsMutex = s.streamsMutex
  doRun : s'.doRun = s.doRun
  joined : s'.joined = s.joined
  nextStream : s'.nextStream = s.nextStream
  nextPath : s'.nextPath = s.nextPath
  nextTicket : s'.nextTicket = s.nextTicket
  channelName : ∀ x, (s'.heap x).channelName = (s.heap x).channelName
  conversionPaths : ∀ x,
    (s'.heap x).conversionPaths = (s.heap x).conversionPaths

theorem WorkerFrame.setPc (s : State n m) (w : Fin n) (pc : WorkerPc) :
    WorkerFrame s w (s.setPc w pc) where
  pc _ hne := s.setPc_pc_of_ne pc hne
  queue _ _ := rfl
  caller := rfl
  streamPointers := rfl
  streamsMutex := rfl
  doRun := rfl
  joined := rfl
  nextStream := rfl
  nextPath := rfl
  nextTicket := rfl
  channelName _ := rfl
  conversionPaths _ := rfl

theorem WorkerFrame.afterIteration (s : State n m) (w : Fin n)
    (frame : FillFrame) (stream : Nat) (next : FillState Entry) :
    WorkerFrame s w (s.afterIteration w frame stream next) where
  pc _ hne := s.setPc_pc_of_ne _ hne
  queue _ hne := Function.update_of_ne hne _ _
  caller := rfl
  streamPointers := rfl
  streamsMutex := rfl
  doRun := rfl
  joined := rfl
  nextStream := rfl
  nextPath := rfl
  nextTicket := rfl
  channelName x := by
    by_cases hx : x = stream
    · subst hx; simp [State.afterIteration]
    · simp [State.afterIteration, hx]
  conversionPaths x := by
    by_cases hx : x = stream
    · subst hx; simp [State.afterIteration]
    · simp [State.afterIteration, hx]

theorem WorkerMove.frame (hmove : WorkerMove cfg s w s') :
    WorkerFrame s w s' := by
  cases hmove with
  | iterate _ _ => exact .afterIteration s w _ _ _
  | closeBatch _ =>
      unfold State.closeBatch
      split
      · exact { WorkerFrame.setPc s w _ with
          queue := fun _ hne => Function.update_of_ne hne _ _ }
      · exact .setPc s w _
  | destroyPacket _ =>
      unfold State.destroyPacket
      split
      · exact { WorkerFrame.setPc s w _ with }
      · exact .setPc s w _
  | emit _ _ =>
      exact { WorkerFrame.setPc s w _ with
        queue := fun _ hne => Function.update_of_ne hne _ _ }
  | outOfRange _ _ _ =>
      exact { WorkerFrame.setPc s w (s.pc w) with
        pc := fun _ _ => rfl }
  | exit _ _ => exact .setPc s w _
  | callFill _ _ _ => exact .setPc s w _
  | skipFill _ _ => exact .setPc s w _
  | lockMx _ _ => exact { WorkerFrame.setPc s w _ with }
  | noStreams _ _ _ => exact { WorkerFrame.setPc s w _ with }
  | someStreams _ _ _ => exact .setPc s w _
  | lockStreams _ _ => exact { WorkerFrame.setPc s w _ with }
  | enterLoop _ _ _ => exact { WorkerFrame.setPc s w _ with }
  | enterFull _ _ _ => exact { WorkerFrame.setPc s w _ with }
  | visit _ _ _ => exact .setPc s w _
  | lastOwner _ _ => exact .setPc s w _
  | notLastOwner _ => exact .setPc s w _
  | pathDestroyed _ _ => exact .setPc s w _
  | streamDestroyed _ => exact .setPc s w _
  | again _ _ _ _ => exact { WorkerFrame.setPc s w _ with }
  | finish _ _ _ => exact { WorkerFrame.setPc s w _ with }
  | drained _ _ => exact .setPc s w _

/-- The moves of a thread calling into `Streams`. -/
inductive CallerMove (s : State n m) (c : Fin m) : State n m → Prop
  | addMapping {channel : String} (hpc : s.caller c = .idle)
      (houter : s.forwarderStreamsMutex = none) :
      CallerMove s c { s.setCaller c (.lookup channel) with
        forwarderStreamsMutex := some (.inr c) }
  | found {channel : String} {stream : Nat} (hpc : s.caller c = .lookup channel)
      (hinner : s.streamsMutex = none) (hmem : stream ∈ s.streamPointers) :
      CallerMove s c (s.setCaller c (.found stream))
  | notFound {channel : String} (hpc : s.caller c = .lookup channel)
      (hinner : s.streamsMutex = none)
      (hfresh : ∀ x ∈ s.streamPointers, (s.heap x).channelName ≠ channel) :
      CallerMove s c (s.setCaller c (.publish channel))
  | add {channel : String} (hpc : s.caller c = .publish channel)
      (hinner : s.streamsMutex = none) :
      CallerMove s c { s.setCaller c (.converting s.nextStream) with
        heap := Function.update s.heap s.nextStream { channelName := channel }
        streamPointers := s.streamPointers ++ [s.nextStream]
        nextStream := s.nextStream + 1 }
  | addConverter {stream : Nat} (hpc : s.caller c = .converting stream) :
      CallerMove s c { s with
        heap := Function.update s.heap stream
          { s.heap stream with
            conversionPaths := (s.heap stream).conversionPaths ++ [s.nextPath] }
        transit := Function.update s.transit s.nextPath 0
        nextPath := s.nextPath + 1 }
  | throwEarly {channel : String} (hpc : s.caller c = .publish channel) :
      CallerMove s c (s.setCaller c (.returning []))
  | keepStream {stream : Nat} (hpc : (s.caller c).held = some stream) :
      CallerMove s c (s.setCaller c (.returning []))
  | dropStream {stream : Nat} (hpc : (s.caller c).held = some stream)
      (hcount : (s.setCaller c (.returning [])).useCount stream = 0) :
      CallerMove s c
        (s.setCaller c (.returning (s.heap stream).conversionPaths))
  | eraseIf {victim : Nat → Bool} (hpc : s.caller c = .idle)
      (hinner : s.streamsMutex = none) :
      CallerMove s c { s.setCaller c (.erasing ((s.destroyedBy victim).flatMap
          fun x => (s.heap x).conversionPaths)) with
        streamPointers := s.streamPointers.filter (!victim ·)
        streamsMutex := some c }
  | erased (hpc : s.caller c = .erasing []) :
      CallerMove s c { s.setCaller c .idle with streamsMutex := none }
  | erasePath {path : Nat} {paths : List Nat}
      (hpc : s.caller c = .erasing (path :: paths))
      (htransit : s.transit path = 0) :
      CallerMove s c (s.setCaller c (.erasing paths))
  | returned (hpc : s.caller c = .returning []) :
      CallerMove s c { s.setCaller c .idle with forwarderStreamsMutex := none }
  | returnPath {path : Nat} {paths : List Nat}
      (hpc : s.caller c = .returning (path :: paths))
      (htransit : s.transit path = 0) :
      CallerMove s c (s.setCaller c (.returning paths))

/-- What no move of caller `c` touches. -/
structure CallerFrame (s : State n m) (c : Fin m) (s' : State n m) : Prop where
  pc : s'.pc = s.pc
  queue : s'.queue = s.queue
  caller : ∀ d, d ≠ c → s'.caller d = s.caller d
  mx : s'.mx = s.mx
  sid : s'.sid = s.sid
  nextTicket : s'.nextTicket = s.nextTicket
  nextPacket : s'.nextPacket = s.nextPacket
  dequeued : s'.dequeued = s.dequeued
  emitted : s'.emitted = s.emitted
  joined : s'.joined = s.joined
  terminated : s'.terminated = s.terminated
  outputQueue : ∀ x, x < s.nextStream →
    (s'.heap x).outputQueue = (s.heap x).outputQueue

theorem CallerFrame.setCaller (s : State n m) (c : Fin m) (pc : CallerPc) :
    CallerFrame s c (s.setCaller c pc) where
  pc := rfl
  queue := rfl
  caller _ hne := s.setCaller_caller_of_ne pc hne
  mx := rfl
  sid := rfl
  nextTicket := rfl
  nextPacket := rfl
  dequeued := rfl
  emitted := rfl
  joined := rfl
  terminated := rfl
  outputQueue _ _ := rfl

theorem CallerMove.frame (hmove : CallerMove s c s') : CallerFrame s c s' := by
  cases hmove with
  | addMapping _ _ => exact { CallerFrame.setCaller s c _ with }
  | found _ _ _ => exact .setCaller s c _
  | notFound _ _ _ => exact .setCaller s c _
  | add _ _ =>
      exact { CallerFrame.setCaller s c (.converting s.nextStream) with
        outputQueue := fun x hx => by
          simp [Function.update_of_ne (Nat.ne_of_lt hx)] }
  | @addConverter stream _ =>
      exact { CallerFrame.setCaller s c (s.caller c) with
        caller := fun _ _ => rfl
        outputQueue := fun x _ => by
          by_cases hx : x = stream
          · subst hx; simp
          · simp [hx] }
  | throwEarly _ => exact .setCaller s c _
  | keepStream _ => exact .setCaller s c _
  | dropStream _ _ => exact .setCaller s c _
  | eraseIf _ _ => exact { CallerFrame.setCaller s c _ with }
  | erased _ => exact { CallerFrame.setCaller s c _ with }
  | erasePath _ _ => exact .setCaller s c _
  | returned _ => exact { CallerFrame.setCaller s c _ with }
  | returnPath _ _ => exact .setCaller s c _

theorem addMapping_move {channel : String}
    (hstep : s.addMapping c channel = some s') : CallerMove s c s' := by
  unfold State.addMapping at hstep
  split at hstep
  · rename_i hguard
    cases hstep
    exact .addMapping hguard.1 hguard.2
  · cases hstep

theorem getStreamByChannelName_move
    (hstep : s.getStreamByChannelName c = some s') : CallerMove s c s' := by
  unfold State.getStreamByChannelName at hstep
  split at hstep
  · rename_i hpc
    split at hstep
    · split at hstep
      · rename_i hfind
        cases hstep
        exact .found hpc ‹_› (List.mem_of_find?_eq_some hfind)
      · rename_i hfind
        cases hstep
        refine .notFound hpc ‹_› ?_
        simpa using hfind
    · cases hstep
  · cases hstep

theorem add_move (hstep : s.add c = some s') : CallerMove s c s' := by
  unfold State.add at hstep
  split at hstep
  · split at hstep
    · cases hstep; exact .add ‹_› ‹_›
    · cases hstep
  · cases hstep

theorem addConverter_move (hstep : s.addConverter c = some s') :
    CallerMove s c s' := by
  unfold State.addConverter at hstep
  split at hstep
  · cases hstep; exact .addConverter ‹_›
  · cases hstep

theorem dropLocal_move {stream : Nat} (hpc : (s.caller c).held = some stream) :
    CallerMove s c (s.dropLocal c stream) := by
  unfold State.dropLocal
  simp only
  split
  · exact .dropStream hpc ‹_›
  · exact .keepStream hpc

theorem addMappingReturns_move (hstep : s.addMappingReturns c = some s') :
    CallerMove s c s' := by
  unfold State.addMappingReturns at hstep
  split at hstep
  · cases hstep; exact .throwEarly ‹_›
  · rename_i hpc
    cases hstep; exact dropLocal_move (by simp [hpc, CallerPc.held])
  · rename_i hpc
    cases hstep; exact dropLocal_move (by simp [hpc, CallerPc.held])
  · cases hstep

theorem destruct_move (hstep : s.destruct c = some s') : CallerMove s c s' := by
  unfold State.destruct at hstep
  split at hstep
  · cases hstep; exact .erased ‹_›
  · split at hstep
    · cases hstep; exact .erasePath ‹_› ‹_›
    · cases hstep
  · cases hstep; exact .returned ‹_›
  · split at hstep
    · cases hstep; exact .returnPath ‹_› ‹_›
    · cases hstep
  · cases hstep

/-- The moves of the EPICS clients and of the thread that starts and stops
the workers. -/
inductive OutsideMove (s : State n m) : State n m → Prop
  | start {w : Fin n} (hpc : s.pc w = .notStarted) (hjoined : s.joined w = false) :
      OutsideMove s { s.setPc w .loop with doRun := Function.update s.doRun w true }
  | stop {w : Fin n} :
      OutsideMove s { s with doRun := Function.update s.doRun w false }
  | join {w : Fin n} (hpc : s.pc w = .notStarted ∨ s.pc w = .exited) :
      OutsideMove s { s with joined := Function.update s.joined w true }
  | enqueueUpdate {stream : Nat} {update : Option Nat}
      (hstream : stream < s.nextStream) :
      OutsideMove s { s with
        heap := Function.update s.heap stream
          { s.heap stream with
            outputQueue := (s.heap stream).outputQueue ++
              [update.map fun u => ⟨s.nextTicket, u⟩] }
        nextTicket := s.nextTicket + 1 }
  | errorInEpics {stream : Nat} (hstream : stream < s.nextStream) :
      OutsideMove s { s with
        heap := Function.update s.heap stream
          { s.heap stream with status := -1 } }

theorem start_move (hstep : s.start w = some s') : OutsideMove s s' := by
  unfold State.start at hstep
  split at hstep
  · rename_i hguard
    cases hstep
    exact .start hguard.1 hguard.2
  · cases hstep

theorem stop_move (hstep : s.stop w = some s') : OutsideMove s s' := by
  cases hstep
  exact .stop

theorem join_move (hstep : s.join w = some s') : OutsideMove s s' := by
  unfold State.join at hstep
  split at hstep
  · rename_i hguard
    cases hstep
    exact .join hguard.2
  · cases hstep

theorem enqueueUpdate_move {stream : Nat} {update : Option Nat}
    (hstep : s.enqueueUpdate stream update = some s') : OutsideMove s s' := by
  unfold State.enqueueUpdate at hstep
  split at hstep
  · cases hstep; exact .enqueueUpdate ‹_›
  · cases hstep

theorem errorInEpics_move {stream : Nat}
    (hstep : s.errorInEpics stream = some s') : OutsideMove s s' := by
  unfold State.errorInEpics at hstep
  split at hstep
  · cases hstep; exact .errorInEpics ‹_›
  · cases hstep

/-- The streams an action asks `Streams` to drop, if it is a removal. -/
def Action.victim (s : State n m) : Action n m → Option (Nat → Bool)
  | .stopChannel _ channel => some fun x => (s.heap x).channelName = channel
  | .clearStreams _ => some fun _ => true
  | .checkStreamStatus _ => some fun x => (s.heap x).status < 0
  | _ => none

/-- The state in which a removal has filtered `StreamPointers` and starts to
destroy what it dropped. -/
def State.erased (s : State n m) (c : Fin m) (victim : Nat → Bool) : State n m :=
  { s.setCaller c (.erasing ((s.destroyedBy victim).flatMap
      fun x => (s.heap x).conversionPaths)) with
    streamPointers := s.streamPointers.filter (!victim ·)
    streamsMutex := some c }

/-- A step that is a removal, with the action it belongs to. -/
structure RemovalMove (s : State n m) (action : Action n m) (c : Fin m)
    (victim : Nat → Bool) (s' : State n m) : Prop where
  victim_eq : action.victim s = some victim
  caller : s.caller c = .idle
  inner : s.streamsMutex = none
  next : s' = s.erased c victim

theorem RemovalMove.callerMove {action : Action n m} {victim : Nat → Bool}
    (hmove : RemovalMove s action c victim s') : CallerMove s c s' := by
  rw [hmove.next]
  exact .eraseIf hmove.caller hmove.inner

theorem eraseIf_removal {action : Action n m} {victim : Nat → Bool}
    (hvictim : action.victim s = some victim)
    (hstep : s.eraseIf c victim = some s') : RemovalMove s action c victim s' := by
  unfold State.eraseIf at hstep
  split at hstep
  · rename_i hguard
    cases hstep
    exact ⟨hvictim, hguard.1, hguard.2, rfl⟩
  · cases hstep

/-- A caller's move that does not start a removal. -/
structure KeepingMove (s : State n m) (c : Fin m) (s' : State n m) : Prop where
  move : CallerMove s c s'
  erasing : ∀ paths, s'.caller c = .erasing paths →
    ∃ before, s.caller c = .erasing before

/-- A caller that ends up outside a removal did not start one. -/
theorem KeepingMove.of_not_erasing (hmove : CallerMove s c s')
    (hcaller : ∀ paths, s'.caller c ≠ .erasing paths) : KeepingMove s c s' :=
  ⟨hmove, fun paths heq => absurd heq (hcaller paths)⟩

theorem addMapping_keeping {channel : String}
    (hstep : s.addMapping c channel = some s') : KeepingMove s c s' := by
  refine .of_not_erasing (addMapping_move hstep) fun paths => ?_
  unfold State.addMapping at hstep
  split at hstep
  · cases hstep; simp
  · cases hstep

theorem getStreamByChannelName_keeping
    (hstep : s.getStreamByChannelName c = some s') : KeepingMove s c s' := by
  refine .of_not_erasing (getStreamByChannelName_move hstep) fun paths => ?_
  unfold State.getStreamByChannelName at hstep
  split at hstep
  · split at hstep
    · split at hstep
      · cases hstep; simp
      · cases hstep; simp
    · cases hstep
  · cases hstep

theorem add_keeping (hstep : s.add c = some s') : KeepingMove s c s' := by
  refine .of_not_erasing (add_move hstep) fun paths => ?_
  unfold State.add at hstep
  split at hstep
  · split at hstep
    · cases hstep; simp
    · cases hstep
  · cases hstep

theorem addConverter_keeping (hstep : s.addConverter c = some s') :
    KeepingMove s c s' := by
  refine ⟨addConverter_move hstep, fun paths heq => ?_⟩
  unfold State.addConverter at hstep
  split at hstep
  · cases hstep; exact ⟨paths, heq⟩
  · cases hstep

theorem addMappingReturns_keeping (hstep : s.addMappingReturns c = some s') :
    KeepingMove s c s' := by
  refine .of_not_erasing (addMappingReturns_move hstep) fun paths => ?_
  have hdrop : ∀ stream, (s.dropLocal c stream).caller c ≠ .erasing paths := by
    intro stream
    simp only [State.dropLocal]
    split <;> simp
  unfold State.addMappingReturns at hstep
  split at hstep
  · cases hstep; simp
  · cases hstep; exact hdrop _
  · cases hstep; exact hdrop _
  · cases hstep

theorem destruct_keeping (hstep : s.destruct c = some s') : KeepingMove s c s' := by
  refine ⟨destruct_move hstep, fun paths heq => ?_⟩
  unfold State.destruct at hstep
  split at hstep
  · rename_i hpc; exact ⟨[], hpc⟩
  · rename_i hpc; exact ⟨_, hpc⟩
  · cases hstep; simp at heq
  · split at hstep
    · cases hstep; simp at heq
    · cases hstep
  · cases hstep

theorem step_work {sizeApprox : Nat}
    (hstep : s.step cfg (.work w sizeApprox) = some s') : WorkerMove cfg s w s' := by
  unfold State.step at hstep
  split at hstep
  · cases hstep
  · exact workerStep_move hstep

theorem step_removal {action : Action n m} {victim : Nat → Bool}
    (hvictim : action.victim s = some victim)
    (hstep : s.step cfg action = some s') : ∃ c, RemovalMove s action c victim s' := by
  unfold State.step at hstep
  split at hstep
  · cases hstep
  cases action with
  | stopChannel c channel | clearStreams c | checkStreamStatus c =>
      cases hvictim
      exact ⟨c, eraseIf_removal rfl hstep⟩
  | _ => cases hvictim

/-- Every step with the action it belongs to: a worker's move, a removal,
another move of a caller, or a move from outside both. -/
theorem step_labelled {action : Action n m} (hstep : s.step cfg action = some s') :
    (∃ w sizeApprox, action = .work w sizeApprox ∧ WorkerMove cfg s w s') ∨
      (∃ c victim, RemovalMove s action c victim s') ∨
      (∃ c, KeepingMove s c s') ∨ OutsideMove s s' := by
  unfold State.step at hstep
  split at hstep
  · cases hstep
  cases action with
  | work w sizeApprox => exact Or.inl ⟨w, sizeApprox, rfl, workerStep_move hstep⟩
  | stopChannel c channel | clearStreams c | checkStreamStatus c =>
      exact Or.inr (Or.inl ⟨c, _, eraseIf_removal rfl hstep⟩)
  | addMapping c channel =>
      exact Or.inr (Or.inr (Or.inl ⟨c, addMapping_keeping hstep⟩))
  | getStreamByChannelName c =>
      exact Or.inr (Or.inr (Or.inl ⟨c, getStreamByChannelName_keeping hstep⟩))
  | add c => exact Or.inr (Or.inr (Or.inl ⟨c, add_keeping hstep⟩))
  | addConverter c =>
      exact Or.inr (Or.inr (Or.inl ⟨c, addConverter_keeping hstep⟩))
  | addMappingReturns c =>
      exact Or.inr (Or.inr (Or.inl ⟨c, addMappingReturns_keeping hstep⟩))
  | destruct c => exact Or.inr (Or.inr (Or.inl ⟨c, destruct_keeping hstep⟩))
  | start w => exact Or.inr (Or.inr (Or.inr (start_move hstep)))
  | stop w => exact Or.inr (Or.inr (Or.inr (stop_move hstep)))
  | join w => exact Or.inr (Or.inr (Or.inr (join_move hstep)))
  | enqueueUpdate stream update =>
      exact Or.inr (Or.inr (Or.inr (enqueueUpdate_move hstep)))
  | errorInEpics stream => exact Or.inr (Or.inr (Or.inr (errorInEpics_move hstep)))

/-- Every step is a move of one worker, of one caller, or comes from outside
both. -/
theorem step_move {action : Action n m} (hstep : s.step cfg action = some s') :
    (∃ w, WorkerMove cfg s w s') ∨ (∃ c, CallerMove s c s') ∨
      OutsideMove s s' := by
  rcases step_labelled hstep with ⟨w, _, _, hmove⟩ | ⟨c, _, hmove⟩ | ⟨c, hmove⟩ | hmove
  · exact Or.inl ⟨w, hmove⟩
  · exact Or.inr (Or.inl ⟨c, hmove.callerMove⟩)
  · exact Or.inr (Or.inl ⟨c, hmove.move⟩)
  · exact Or.inr (Or.inr hmove)

section Labels

variable {action : Action n m}

/-- The caller of `Streams` that takes a step. -/
def Action.callerOf : Action n m → Option (Fin m)
  | .addMapping c _ | .getStreamByChannelName c | .add c | .addConverter c
  | .addMappingReturns c | .stopChannel c _ | .clearStreams c | .checkStreamStatus c
  | .destruct c => some c
  | .start _ | .stop _ | .join _ | .work _ _ | .enqueueUpdate _ _ | .errorInEpics _ => none

theorem step_removal_of {victim : Nat → Bool} (hstep : s.step cfg action = some s')
    (hcaller : action.callerOf = some c) (hvictim : action.victim s = some victim) :
    RemovalMove s action c victim s' := by
  unfold State.step at hstep
  split at hstep
  · cases hstep
  cases action with
  | stopChannel _ _ | clearStreams _ | checkStreamStatus _ =>
      cases hcaller
      cases hvictim
      exact eraseIf_removal rfl hstep
  | _ => cases hvictim

theorem RemovalMove.erasing {victim : Nat → Bool} (hmove : RemovalMove s action c victim s') :
    ∃ paths, s'.caller c = .erasing paths := by
  rw [hmove.next]
  exact ⟨_, s.setCaller_caller_self c _⟩

theorem step_keeping (hstep : s.step cfg action = some s')
    (hcaller : action.callerOf = some c) (hvictim : action.victim s = none) :
    KeepingMove s c s' := by
  unfold State.step at hstep
  split at hstep
  · cases hstep
  cases action with
  | addMapping _ _ => cases hcaller; exact addMapping_keeping hstep
  | getStreamByChannelName _ => cases hcaller; exact getStreamByChannelName_keeping hstep
  | add _ => cases hcaller; exact add_keeping hstep
  | addConverter _ => cases hcaller; exact addConverter_keeping hstep
  | addMappingReturns _ => cases hcaller; exact addMappingReturns_keeping hstep
  | destruct _ => cases hcaller; exact destruct_keeping hstep
  | stopChannel _ _ | clearStreams _ | checkStreamStatus _ => cases hvictim
  | start _ | stop _ | join _ | work _ _ | enqueueUpdate _ _ | errorInEpics _ => cases hcaller

theorem step_callerMove (hstep : s.step cfg action = some s')
    (hcaller : action.callerOf = some c) : CallerMove s c s' := by
  cases hvictim : action.victim s with
  | none => exact (step_keeping hstep hcaller hvictim).move
  | some victim => exact (step_removal_of hstep hcaller hvictim).callerMove

theorem step_outside (hstep : s.step cfg action = some s') (hcaller : action.callerOf = none) :
    (∃ w, WorkerMove cfg s w s') ∨ OutsideMove s s' := by
  unfold State.step at hstep
  split at hstep
  · cases hstep
  cases action with
  | work w _ => exact Or.inl ⟨w, workerStep_move hstep⟩
  | start _ => exact Or.inr (start_move hstep)
  | stop _ => exact Or.inr (stop_move hstep)
  | join _ => exact Or.inr (join_move hstep)
  | enqueueUpdate _ _ => exact Or.inr (enqueueUpdate_move hstep)
  | errorInEpics _ => exact Or.inr (errorInEpics_move hstep)
  | addMapping _ _ | getStreamByChannelName _ | add _ | addConverter _
  | addMappingReturns _ | stopChannel _ _ | clearStreams _ | checkStreamStatus _
  | destruct _ => cases hcaller

theorem step_start (hstep : s.step cfg (.start w) = some s') : s'.pc w ≠ .notStarted := by
  unfold State.step at hstep
  split at hstep
  · cases hstep
  simp only [State.start] at hstep
  split at hstep
  · cases hstep
    simp
  · cases hstep

theorem step_stop (hstep : s.step cfg (.stop w) = some s') : s'.doRun w = false := by
  unfold State.step at hstep
  split at hstep
  · cases hstep
  · cases hstep
    simp

theorem step_join (hstep : s.step cfg (.join w) = some s') : s'.joined w = true := by
  unfold State.step at hstep
  split at hstep
  · cases hstep
  simp only [State.join] at hstep
  split at hstep
  · cases hstep
    simp
  · cases hstep

end Labels

end EpicsToKafka
