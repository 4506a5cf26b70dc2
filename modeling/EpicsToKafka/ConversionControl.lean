/-
Control invariants of the conversion system: which program counters hold
which mutex, when a worker's queue is empty, how stream and path objects are
allocated, and that a path under destruction belongs to an unowned stream.
-/
import EpicsToKafka.ConversionMoves
import EpicsToKafka.Threads

namespace EpicsToKafka

open Threads

variable {n m : Nat} {cfg : Config} {s s' : State n m} {w : Fin n} {c : Fin m}

/-- Program counters at which a worker holds `ConversionScheduler::mx`. -/
def WorkerPc.locksMx : WorkerPc → Bool
  | .checkEmpty | .lockStreams | .checkSid | .index _ | .filling ..
  | .release .. | .destroying .. | .advance .. => true
  | _ => false

/-- Program counters at which a worker holds `Forwarder::streams_mutex`. -/
def WorkerPc.locksStreams : WorkerPc → Bool
  | .checkSid | .index _ | .filling .. | .release .. | .destroying ..
  | .advance .. => true
  | _ => false

/-- Program counters at which a caller holds `Forwarder::streams_mutex`. -/
def CallerPc.locksStreams : CallerPc → Bool
  | .idle | .erasing _ => false
  | _ => true

/-- Program counters at which a caller holds `Streams::StreamsMutex`. -/
def CallerPc.erases : CallerPc → Bool
  | .erasing _ => true
  | _ => false

/-- Threads inside the section of `streams_mutex`. -/
def State.insideStreams (s : State n m) : Fin n ⊕ Fin m → Prop :=
  Sum.elim (fun w => (s.pc w).locksStreams = true)
    (fun c => (s.caller c).locksStreams = true)

/-- Every mutex is held exactly at the program counters that say so. -/
structure LocksOk (s : State n m) : Prop where
  mx : Guards s.mx fun w => (s.pc w).locksMx = true
  outer : Guards s.forwarderStreamsMutex s.insideStreams
  inner : Guards s.streamsMutex fun c => (s.caller c).erases = true

theorem LocksOk.initial (cursor : Nat) : LocksOk (State.initial n m cursor) := by
  refine ⟨fun w => ?_, fun t => ?_, fun c => ?_⟩
  · simp [State.initial, WorkerPc.locksMx]
  · cases t <;> simp [State.initial, State.insideStreams,
      WorkerPc.locksStreams, CallerPc.locksStreams]
  · simp [State.initial, CallerPc.erases]

theorem WorkerFrame.insideStreams (hframe : WorkerFrame s w s')
    (t : Fin n ⊕ Fin m) (hne : t ≠ .inl w) :
    s'.insideStreams t ↔ s.insideStreams t := by
  cases t with
  | inl v =>
      have hv : v ≠ w := fun heq => hne (by rw [heq])
      simp [State.insideStreams, hframe.pc v hv]
  | inr c => simp [State.insideStreams, hframe.caller]

theorem CallerFrame.insideStreams (hframe : CallerFrame s c s')
    (t : Fin n ⊕ Fin m) (hne : t ≠ .inr c) :
    s'.insideStreams t ↔ s.insideStreams t := by
  cases t with
  | inl v => simp [State.insideStreams, hframe.pc]
  | inr d =>
      have hd : d ≠ c := fun heq => hne (by rw [heq])
      simp [State.insideStreams, hframe.caller d hd]

theorem LocksOk.mxKept (hlocks : LocksOk s) (hframe : WorkerFrame s w s')
    (hmx : s'.mx = s.mx) (hclass : (s'.pc w).locksMx = (s.pc w).locksMx) :
    Guards s'.mx fun w => (s'.pc w).locksMx = true := by
  rw [hmx]
  refine hlocks.mx.frame fun v => ?_
  by_cases hv : v = w
  · rw [hv, hclass]
  · rw [hframe.pc v hv]

theorem LocksOk.outerKept (hlocks : LocksOk s) (hframe : WorkerFrame s w s')
    (houter : s'.forwarderStreamsMutex = s.forwarderStreamsMutex)
    (hclass : (s'.pc w).locksStreams = (s.pc w).locksStreams) :
    Guards s'.forwarderStreamsMutex s'.insideStreams := by
  rw [houter]
  refine hlocks.outer.frame fun t => ?_
  by_cases ht : t = .inl w
  · simp [ht, State.insideStreams, hclass]
  · exact hframe.insideStreams t ht

theorem LocksOk.innerKept (hlocks : LocksOk s) (hframe : WorkerFrame s w s') :
    Guards s'.streamsMutex fun c => (s'.caller c).erases = true := by
  rw [hframe.streamsMutex, hframe.caller]
  exact hlocks.inner

/-- A worker's move that neither takes nor releases a mutex. -/
theorem LocksOk.workerKeeps (hlocks : LocksOk s) (hframe : WorkerFrame s w s')
    (hmx : s'.mx = s.mx)
    (houter : s'.forwarderStreamsMutex = s.forwarderStreamsMutex)
    (hclassMx : (s'.pc w).locksMx = (s.pc w).locksMx)
    (hclassStreams : (s'.pc w).locksStreams = (s.pc w).locksStreams) :
    LocksOk s' :=
  ⟨hlocks.mxKept hframe hmx hclassMx, hlocks.outerKept hframe houter hclassStreams,
    hlocks.innerKept hframe⟩

/-- Leaving `fill` from a program counter that holds both locks. -/
theorem LocksOk.fillReturns (hlocks : LocksOk s)
    (hframe : WorkerFrame s w (s'.fillReturns w))
    (hclass : (s.pc w).locksStreams = true ∧ (s.pc w).locksMx = true) :
    LocksOk (s'.fillReturns w) := by
  refine ⟨?_, ?_, hlocks.innerKept hframe⟩
  · have hheld : s.mx = some w := (hlocks.mx w).mpr hclass.2
    refine (hheld ▸ hlocks.mx).release ?_ fun v hv => ?_
    · simp [State.fillReturns, WorkerPc.locksMx]
    · rw [hframe.pc v hv]
  · have hheld : s.forwarderStreamsMutex = some (.inl w) :=
      (hlocks.outer (.inl w)).mpr hclass.1
    refine (hheld ▸ hlocks.outer).release ?_ hframe.insideStreams
    simp [State.insideStreams, State.fillReturns, WorkerPc.locksStreams]

theorem LocksOk.workerMove (hlocks : LocksOk s) (hmove : WorkerMove cfg s w s') :
    LocksOk s' := by
  have hframe := hmove.frame
  cases hmove with
  | lockMx hpc hmx =>
      refine ⟨?_, ?_, hlocks.innerKept hframe⟩
      · refine (hmx ▸ hlocks.mx).acquire ?_ fun v hv => ?_
        · simp [WorkerPc.locksMx]
        · rw [hframe.pc v hv]
      · exact hlocks.outerKept hframe rfl (by simp [hpc, WorkerPc.locksStreams])
  | noStreams hpc _ _ =>
      refine ⟨?_, ?_, hlocks.innerKept hframe⟩
      · have hheld : s.mx = some w :=
          (hlocks.mx w).mpr (by simp [hpc, WorkerPc.locksMx])
        refine (hheld ▸ hlocks.mx).release ?_ fun v hv => ?_
        · simp [WorkerPc.locksMx]
        · rw [hframe.pc v hv]
      · exact hlocks.outerKept hframe rfl (by simp [hpc, WorkerPc.locksStreams])
  | lockStreams hpc houter =>
      refine ⟨hlocks.mxKept hframe rfl (by simp [hpc, WorkerPc.locksMx]), ?_,
        hlocks.innerKept hframe⟩
      refine (houter ▸ hlocks.outer).acquire ?_ hframe.insideStreams
      simp [State.insideStreams, WorkerPc.locksStreams]
  | enterFull hpc _ _ => exact hlocks.fillReturns hframe (by rw [hpc]; exact ⟨rfl, rfl⟩)
  | finish hpc _ _ => exact hlocks.fillReturns hframe (by rw [hpc]; exact ⟨rfl, rfl⟩)
  | exit hpc _ | callFill hpc _ _ | skipFill hpc _ | someStreams hpc _ _
  | enterLoop hpc _ _ | visit hpc _ _ | iterate hpc _ | lastOwner hpc _
  | notLastOwner hpc | pathDestroyed hpc _ | streamDestroyed hpc
  | again hpc _ _ _ | drained hpc _ | emit hpc _ =>
      exact hlocks.workerKeeps hframe rfl rfl
        (by simp [hpc, WorkerPc.locksMx]) (by simp [hpc, WorkerPc.locksStreams])
  | outOfRange _ _ _ => exact hlocks.workerKeeps hframe rfl rfl rfl rfl
  | closeBatch hpc =>
      refine hlocks.workerKeeps hframe ?_ ?_
        (by simp [hpc, WorkerPc.locksMx]) (by simp [hpc, WorkerPc.locksStreams])
      · unfold State.closeBatch; split <;> rfl
      · unfold State.closeBatch; split <;> rfl
  | destroyPacket hpc =>
      refine hlocks.workerKeeps hframe ?_ ?_
        (by simp [hpc, WorkerPc.locksMx]) (by simp [hpc, WorkerPc.locksStreams])
      · unfold State.destroyPacket; split <;> rfl
      · unfold State.destroyPacket; split <;> rfl

theorem CallerPc.locksStreams_of_held {pc : CallerPc} {stream : Nat}
    (hheld : pc.held = some stream) :
    pc.locksStreams = true ∧ pc.erases = false := by
  cases pc with
  | found x => exact ⟨rfl, rfl⟩
  | converting x => exact ⟨rfl, rfl⟩
  | idle | lookup _ | publish _ | returning _ | erasing _ =>
      simp [CallerPc.held] at hheld

theorem LocksOk.callerMx (hlocks : LocksOk s) (hframe : CallerFrame s c s') :
    Guards s'.mx fun w => (s'.pc w).locksMx = true := by
  rw [hframe.mx, hframe.pc]
  exact hlocks.mx

theorem LocksOk.callerOuterKept (hlocks : LocksOk s)
    (hframe : CallerFrame s c s')
    (houter : s'.forwarderStreamsMutex = s.forwarderStreamsMutex)
    (hclass : (s'.caller c).locksStreams = (s.caller c).locksStreams) :
    Guards s'.forwarderStreamsMutex s'.insideStreams := by
  rw [houter]
  refine hlocks.outer.frame fun t => ?_
  by_cases ht : t = .inr c
  · simp [ht, State.insideStreams, hclass]
  · exact hframe.insideStreams t ht

theorem LocksOk.callerInnerKept (hlocks : LocksOk s)
    (hframe : CallerFrame s c s') (hinner : s'.streamsMutex = s.streamsMutex)
    (hclass : (s'.caller c).erases = (s.caller c).erases) :
    Guards s'.streamsMutex fun c => (s'.caller c).erases = true := by
  rw [hinner]
  refine hlocks.inner.frame fun d => ?_
  by_cases hd : d = c
  · rw [hd, hclass]
  · rw [hframe.caller d hd]

/-- A caller's move that neither takes nor releases a mutex. -/
theorem LocksOk.callerKeeps (hlocks : LocksOk s) (hframe : CallerFrame s c s')
    (houter : s'.forwarderStreamsMutex = s.forwarderStreamsMutex)
    (hinner : s'.streamsMutex = s.streamsMutex)
    (hclassStreams : (s'.caller c).locksStreams = (s.caller c).locksStreams)
    (hclassErases : (s'.caller c).erases = (s.caller c).erases) : LocksOk s' :=
  ⟨hlocks.callerMx hframe, hlocks.callerOuterKept hframe houter hclassStreams,
    hlocks.callerInnerKept hframe hinner hclassErases⟩

theorem LocksOk.callerMove (hlocks : LocksOk s) (hmove : CallerMove s c s') :
    LocksOk s' := by
  have hframe := hmove.frame
  cases hmove with
  | addMapping hpc houter =>
      refine ⟨hlocks.callerMx hframe, ?_,
        hlocks.callerInnerKept hframe rfl (by simp [hpc, CallerPc.erases])⟩
      refine (houter ▸ hlocks.outer).acquire ?_ hframe.insideStreams
      simp [State.insideStreams, CallerPc.locksStreams]
  | eraseIf hpc hinner =>
      refine ⟨hlocks.callerMx hframe,
        hlocks.callerOuterKept hframe rfl (by simp [hpc, CallerPc.locksStreams]), ?_⟩
      refine (hinner ▸ hlocks.inner).acquire ?_ fun d hd => ?_
      · simp [CallerPc.erases]
      · rw [hframe.caller d hd]
  | erased hpc =>
      refine ⟨hlocks.callerMx hframe,
        hlocks.callerOuterKept hframe rfl (by simp [hpc, CallerPc.locksStreams]), ?_⟩
      have hheld : s.streamsMutex = some c :=
        (hlocks.inner c).mpr (by simp [hpc, CallerPc.erases])
      refine (hheld ▸ hlocks.inner).release ?_ fun d hd => ?_
      · simp [CallerPc.erases]
      · rw [hframe.caller d hd]
  | returned hpc =>
      refine ⟨hlocks.callerMx hframe, ?_,
        hlocks.callerInnerKept hframe rfl (by simp [hpc, CallerPc.erases])⟩
      have hheld : s.forwarderStreamsMutex = some (.inr c) :=
        (hlocks.outer (.inr c)).mpr
          (by simp [State.insideStreams, hpc, CallerPc.locksStreams])
      refine (hheld ▸ hlocks.outer).release ?_ hframe.insideStreams
      simp [State.insideStreams, CallerPc.locksStreams]
  | found hpc _ _ | notFound hpc _ _ | add hpc _ | throwEarly hpc
  | erasePath hpc _ | returnPath hpc _ =>
      exact hlocks.callerKeeps hframe rfl rfl
        (by simp [hpc, CallerPc.locksStreams]) (by simp [hpc, CallerPc.erases])
  | addConverter hpc => exact hlocks.callerKeeps hframe rfl rfl rfl rfl
  | keepStream hpc | dropStream hpc _ =>
      obtain ⟨hstreams, herases⟩ := CallerPc.locksStreams_of_held hpc
      exact hlocks.callerKeeps hframe rfl rfl
        (by rw [hstreams, State.setCaller_caller_self]; rfl)
        (by rw [herases, State.setCaller_caller_self]; rfl)

theorem LocksOk.outsideMove (hlocks : LocksOk s) (hmove : OutsideMove s s') :
    LocksOk s' := by
  cases hmove with
  | @start w hpc _ =>
      have hframe : WorkerFrame s w (s.setPc w .loop) := .setPc s w .loop
      have hkept : LocksOk (s.setPc w .loop) :=
        hlocks.workerKeeps hframe rfl rfl (by simp [hpc, WorkerPc.locksMx])
          (by simp [hpc, WorkerPc.locksStreams])
      exact ⟨hkept.mx, hkept.outer, hkept.inner⟩
  | stop | join _ | enqueueUpdate _ | errorInEpics _ =>
      exact ⟨hlocks.mx, hlocks.outer, hlocks.inner⟩

theorem reachable_locksOk (hreach : (conversionSystem cfg n m).Reachable s) :
    LocksOk s := by
  refine hreach.invariant (fun s ⟨cursor, hinit⟩ => hinit ▸ .initial cursor) ?_
  intro s action s' _ hlocks hstep
  rcases step_move hstep with ⟨w, hmove⟩ | ⟨c, hmove⟩ | hmove
  · exact hlocks.workerMove hmove
  · exact hlocks.callerMove hmove
  · exact hlocks.outsideMove hmove

/-- Only the thread inside `fill` or `addMapping` holds `streams_mutex`, so a
worker in the loop excludes every `addMapping`. -/
theorem LocksOk.worker_excludes_caller (hlocks : LocksOk s)
    (hworker : (s.pc w).locksStreams = true) :
    (s.caller c).locksStreams = false := by
  by_contra hcaller
  simp only [Bool.not_eq_false] at hcaller
  have hinside : s.insideStreams (.inl w) := hworker
  have hinsideCaller : s.insideStreams (.inr c) := hcaller
  cases hlocks.outer.exclusive hinside hinsideCaller

/-- Allocation: pointers and references are to allocated streams, and no
conversion path has two owners. -/
structure AllocOk (s : State n m) : Prop where
  pointers_lt : ∀ x ∈ s.streamPointers, x < s.nextStream
  pointers_nodup : s.streamPointers.Nodup
  worker_lt : ∀ w x, (s.pc w).held = some x → x < s.nextStream
  caller_lt : ∀ c x, (s.caller c).held = some x → x < s.nextStream
  heap_fresh : ∀ x, s.nextStream ≤ x → s.heap x = {}
  paths_lt : ∀ x, ∀ p ∈ (s.heap x).conversionPaths, p < s.nextPath
  paths_nodup : ∀ x, (s.heap x).conversionPaths.Nodup
  paths_owner : ∀ x y, ∀ p ∈ (s.heap x).conversionPaths,
    p ∈ (s.heap y).conversionPaths → x = y

theorem AllocOk.initial (cursor : Nat) : AllocOk (State.initial n m cursor) := by
  constructor <;> simp [State.initial, WorkerPc.held, CallerPc.held]

/-- A worker comes to hold a stream only from `StreamPointers`. -/
theorem WorkerMove.held (hmove : WorkerMove cfg s w s') {stream : Nat}
    (hheld : (s'.pc w).held = some stream) :
    (s.pc w).held = some stream ∨ stream ∈ s.streamPointers := by
  cases hmove with
  | visit hpc _ hstream =>
      simp only [State.setPc_pc_self, WorkerPc.held, Option.some.injEq] at hheld
      exact Or.inr (hheld ▸ List.mem_of_getElem? hstream)
  | iterate hpc _ => exact Or.inl (by simpa [hpc, WorkerPc.held] using hheld)
  | closeBatch hpc => exact Or.inl (by simpa [hpc, WorkerPc.held] using hheld)
  | outOfRange _ _ _ => exact Or.inl hheld
  | exit _ _ | callFill _ _ _ | skipFill _ _ | lockMx _ _ | noStreams _ _ _
  | someStreams _ _ _ | lockStreams _ _ | enterLoop _ _ _ | lastOwner _ _
  | notLastOwner _ | pathDestroyed _ _ | streamDestroyed _ | again _ _ _ _
  | drained _ _ | emit _ _ => simp [WorkerPc.held] at hheld
  | enterFull _ _ _ | finish _ _ _ =>
      simp [State.fillReturns, WorkerPc.held] at hheld
  | destroyPacket _ => simp [WorkerPc.held] at hheld

/-- Objects of the heap that a worker has not reached stay as they were. -/
theorem WorkerMove.heap (hmove : WorkerMove cfg s w s') {x : Nat}
    (hne : (s.pc w).held ≠ some x) : s'.heap x = s.heap x := by
  cases hmove with
  | @iterate frame stream locals next hpc hiter =>
      have hx : x ≠ stream := by
        intro heq
        exact hne (by rw [hpc, heq]; rfl)
      simp [State.afterIteration, hx]
  | closeBatch _ => unfold State.closeBatch; split <;> rfl
  | destroyPacket _ => unfold State.destroyPacket; split <;> rfl
  | exit _ _ | callFill _ _ _ | skipFill _ _ | lockMx _ _ | noStreams _ _ _
  | someStreams _ _ _ | lockStreams _ _ | enterLoop _ _ _ | enterFull _ _ _
  | outOfRange _ _ _ | visit _ _ _ | lastOwner _ _ | notLastOwner _
  | pathDestroyed _ _ | streamDestroyed _ | again _ _ _ _ | finish _ _ _
  | drained _ _ | emit _ _ => rfl

theorem AllocOk.workerMove (halloc : AllocOk s) (hmove : WorkerMove cfg s w s') :
    AllocOk s' := by
  have hframe := hmove.frame
  constructor
  case pointers_lt =>
    rw [hframe.streamPointers, hframe.nextStream]
    exact halloc.pointers_lt
  case pointers_nodup =>
    rw [hframe.streamPointers]
    exact halloc.pointers_nodup
  case worker_lt =>
    intro v x hheld
    rw [hframe.nextStream]
    by_cases hv : v = w
    · subst hv
      rcases hmove.held hheld with hold | hmem
      · exact halloc.worker_lt v x hold
      · exact halloc.pointers_lt x hmem
    · exact halloc.worker_lt v x (by rwa [← hframe.pc v hv])
  case caller_lt =>
    rw [hframe.caller, hframe.nextStream]
    exact halloc.caller_lt
  case heap_fresh =>
    intro x hx
    rw [hframe.nextStream] at hx
    have hne : (s.pc w).held ≠ some x := fun hheld =>
      absurd (halloc.worker_lt w x hheld) (by omega)
    rw [hmove.heap hne]
    exact halloc.heap_fresh x hx
  case paths_lt =>
    intro x p hp
    rw [hframe.conversionPaths] at hp
    rw [hframe.nextPath]
    exact halloc.paths_lt x p hp
  case paths_nodup =>
    intro x
    rw [hframe.conversionPaths]
    exact halloc.paths_nodup x
  case paths_owner =>
    intro x y p hx hy
    rw [hframe.conversionPaths] at hx hy
    exact halloc.paths_owner x y p hx hy

/-- A caller's move that leaves the heap and the allocators alone. -/
theorem AllocOk.callerKeeps (halloc : AllocOk s) (hframe : CallerFrame s c s')
    (hheap : s'.heap = s.heap) (hstream : s'.nextStream = s.nextStream)
    (hpath : s'.nextPath = s.nextPath)
    (hsub : s'.streamPointers.Sublist s.streamPointers)
    (hheld : ∀ x, (s'.caller c).held = some x →
      (s.caller c).held = some x ∨ x ∈ s.streamPointers) : AllocOk s' := by
  constructor
  case pointers_lt =>
    rw [hstream]
    exact fun x hx => halloc.pointers_lt x (hsub.subset hx)
  case pointers_nodup => exact halloc.pointers_nodup.sublist hsub
  case worker_lt =>
    rw [hframe.pc, hstream]
    exact halloc.worker_lt
  case caller_lt =>
    intro d x hd
    rw [hstream]
    by_cases heq : d = c
    · subst heq
      rcases hheld x hd with hold | hmem
      · exact halloc.caller_lt d x hold
      · exact halloc.pointers_lt x hmem
    · exact halloc.caller_lt d x (by rwa [← hframe.caller d heq])
  case heap_fresh =>
    rw [hheap, hstream]
    exact halloc.heap_fresh
  case paths_lt =>
    rw [hheap, hpath]
    exact halloc.paths_lt
  case paths_nodup =>
    rw [hheap]
    exact halloc.paths_nodup
  case paths_owner =>
    rw [hheap]
    exact halloc.paths_owner

/-- `Streams::add` publishes a stream that nobody knew. -/
theorem AllocOk.add (halloc : AllocOk s) (c : Fin m) (channel : String) :
    AllocOk { s.setCaller c (.converting s.nextStream) with
      heap := Function.update s.heap s.nextStream { channelName := channel }
      streamPointers := s.streamPointers ++ [s.nextStream]
      nextStream := s.nextStream + 1 } := by
  have hfresh := halloc.heap_fresh s.nextStream (Nat.le_refl _)
  have hpaths : ∀ x, (Function.update s.heap s.nextStream
      ({ channelName := channel } : Stream) x).conversionPaths =
      (s.heap x).conversionPaths := by
    intro x
    by_cases hx : x = s.nextStream
    · subst hx; simp [hfresh]
    · simp [hx]
  constructor
  case pointers_lt =>
    intro x hx
    rcases List.mem_append.mp hx with hold | hnew
    · exact Nat.lt_succ_of_lt (halloc.pointers_lt x hold)
    · rw [List.mem_singleton.mp hnew]
      exact Nat.lt_succ_self _
  case pointers_nodup =>
    refine List.nodup_append.mpr ⟨halloc.pointers_nodup, List.nodup_singleton _, ?_⟩
    intro x hx y hy heq
    have hlt := halloc.pointers_lt x hx
    rw [heq, List.mem_singleton.mp hy] at hlt
    exact Nat.lt_irrefl _ hlt
  case worker_lt => exact fun v x hx => Nat.lt_succ_of_lt (halloc.worker_lt v x hx)
  case caller_lt =>
    intro d x hx
    by_cases hd : d = c
    · subst hd
      simp only [State.setCaller_caller_self, CallerPc.held,
        Option.some.injEq] at hx
      rw [← hx]
      exact Nat.lt_succ_self _
    · rw [s.setCaller_caller_of_ne _ hd] at hx
      exact Nat.lt_succ_of_lt (halloc.caller_lt d x hx)
  case heap_fresh =>
    intro x hx
    have hlt : s.nextStream < x := hx
    simp only [Function.update_of_ne (Nat.ne_of_gt hlt)]
    exact halloc.heap_fresh x (Nat.le_of_lt hlt)
  case paths_lt =>
    intro x p hp
    exact halloc.paths_lt x p (hpaths x ▸ hp)
  case paths_nodup =>
    intro x
    exact (hpaths x).symm ▸ halloc.paths_nodup x
  case paths_owner =>
    intro x y p hx hy
    exact halloc.paths_owner x y p (hpaths x ▸ hx) (hpaths y ▸ hy)

/-- `Stream::addConverter` allocates a path for one stream. -/
theorem AllocOk.addConverter (halloc : AllocOk s) {stream : Nat}
    (hlt : stream < s.nextStream) :
    AllocOk { s with
      heap := Function.update s.heap stream
        { s.heap stream with
          conversionPaths := (s.heap stream).conversionPaths ++ [s.nextPath] }
      transit := Function.update s.transit s.nextPath 0
      nextPath := s.nextPath + 1 } := by
  have hother : ∀ x p, p ∈ (Function.update s.heap stream
      { s.heap stream with conversionPaths :=
        (s.heap stream).conversionPaths ++ [s.nextPath] } x).conversionPaths →
      p ∈ (s.heap x).conversionPaths ∨ (x = stream ∧ p = s.nextPath) := by
    intro x p hp
    by_cases hx : x = stream
    · subst hx
      simpa using hp
    · exact Or.inl (by simpa [hx] using hp)
  constructor
  case pointers_lt => exact halloc.pointers_lt
  case pointers_nodup => exact halloc.pointers_nodup
  case worker_lt => exact halloc.worker_lt
  case caller_lt => exact halloc.caller_lt
  case heap_fresh =>
    intro x hx
    have hge : s.nextStream ≤ x := hx
    simp only [Function.update_of_ne (show x ≠ stream by omega)]
    exact halloc.heap_fresh x hge
  case paths_lt =>
    intro x p hp
    rcases hother x p hp with hold | ⟨_, rfl⟩
    · exact Nat.lt_succ_of_lt (halloc.paths_lt x p hold)
    · exact Nat.lt_succ_self _
  case paths_nodup =>
    intro x
    by_cases hx : x = stream
    · subst hx
      simp only [Function.update_self]
      refine List.nodup_append.mpr ⟨halloc.paths_nodup x, List.nodup_singleton _, ?_⟩
      intro p hp q hq heq
      have hplt := halloc.paths_lt x p hp
      rw [heq, List.mem_singleton.mp hq] at hplt
      exact Nat.lt_irrefl _ hplt
    · simp only [Function.update_of_ne hx]
      exact halloc.paths_nodup x
  case paths_owner =>
    intro x y p hx hy
    rcases hother x p hx with hxold | ⟨hxs, rfl⟩
    · rcases hother y p hy with hyold | ⟨_, rfl⟩
      · exact halloc.paths_owner x y p hxold hyold
      · exact absurd (halloc.paths_lt x _ hxold) (Nat.lt_irrefl _)
    · rcases hother y _ hy with hyold | ⟨hys, _⟩
      · exact absurd (halloc.paths_lt y _ hyold) (Nat.lt_irrefl _)
      · rw [hxs, hys]

theorem AllocOk.callerMove (halloc : AllocOk s) (hmove : CallerMove s c s') :
    AllocOk s' := by
  have hframe := hmove.frame
  cases hmove with
  | found hpc _ hmem =>
      refine halloc.callerKeeps hframe rfl rfl rfl (List.Sublist.refl _) fun x hx => ?_
      simp only [State.setCaller_caller_self, CallerPc.held, Option.some.injEq] at hx
      exact Or.inr (hx ▸ hmem)
  | addMapping _ _ | notFound _ _ _ | throwEarly _ | keepStream _
  | dropStream _ _ | erased _ | erasePath _ _ | returned _ | returnPath _ _ =>
      exact halloc.callerKeeps hframe rfl rfl rfl (List.Sublist.refl _)
        (by simp [CallerPc.held])
  | eraseIf _ _ =>
      exact halloc.callerKeeps hframe rfl rfl rfl List.filter_sublist
        (by simp [CallerPc.held])
  | @add channel _ _ => exact halloc.add c channel
  | @addConverter stream hpc =>
      exact halloc.addConverter (halloc.caller_lt c stream (by rw [hpc]; rfl))

/-- Changing a stream's queue or status does not affect allocation. -/
theorem AllocOk.outputChange (halloc : AllocOk s) {stream : Nat}
    (hstream : stream < s.nextStream) {changed : Stream} {ticket : Nat}
    (hpaths : changed.conversionPaths = (s.heap stream).conversionPaths) :
    AllocOk { s with
      heap := Function.update s.heap stream changed
      nextTicket := ticket } := by
  have hall : ∀ x, (Function.update s.heap stream changed x).conversionPaths =
      (s.heap x).conversionPaths := by
    intro x
    by_cases hx : x = stream
    · subst hx; simpa using hpaths
    · simp [hx]
  refine { halloc with
    heap_fresh := ?_, paths_lt := ?_, paths_nodup := ?_, paths_owner := ?_ }
  · intro x hx
    have hge : s.nextStream ≤ x := hx
    simp only [Function.update_of_ne (show x ≠ stream by omega)]
    exact halloc.heap_fresh x hge
  · exact fun x p hp => halloc.paths_lt x p (hall x ▸ hp)
  · exact fun x => (hall x).symm ▸ halloc.paths_nodup x
  · exact fun x y p hx hy =>
      halloc.paths_owner x y p (hall x ▸ hx) (hall y ▸ hy)

theorem AllocOk.outsideMove (halloc : AllocOk s) (hmove : OutsideMove s s') :
    AllocOk s' := by
  cases hmove with
  | @start w hpc _ =>
      refine { halloc with worker_lt := ?_ }
      intro v x hheld
      by_cases hv : v = w
      · subst hv
        simp [WorkerPc.held] at hheld
      · exact halloc.worker_lt v x (by rwa [s.setPc_pc_of_ne _ hv] at hheld)
  | stop | join _ => exact { halloc with }
  | @enqueueUpdate stream update hstream =>
      exact halloc.outputChange hstream rfl
  | @errorInEpics stream hstream => exact halloc.outputChange hstream rfl

theorem reachable_allocOk (hreach : (conversionSystem cfg n m).Reachable s) :
    AllocOk s := by
  refine hreach.invariant (fun s ⟨cursor, hinit⟩ => hinit ▸ .initial cursor) ?_
  intro s action s' _ halloc hstep
  rcases step_move hstep with ⟨w, hmove⟩ | ⟨c, hmove⟩ | hmove
  · exact halloc.workerMove hmove
  · exact halloc.callerMove hmove
  · exact halloc.outsideMove hmove

/-- Program counters at which a worker has drained its queue. -/
def WorkerPc.drained : WorkerPc → Bool
  | .notStarted | .loop | .lockMx | .checkEmpty | .lockStreams | .checkSid
  | .exited => true
  | _ => false

/-- `fill` is only called on an empty queue, and `run` only returns with one. -/
def QueuesOk (s : State n m) : Prop :=
  ∀ w, (s.pc w).drained = true → s.queue w = []

theorem QueuesOk.workerMove (hqueues : QueuesOk s)
    (hmove : WorkerMove cfg s w s') : QueuesOk s' := by
  have hframe := hmove.frame
  intro v hdrained
  by_cases hv : v = w
  · subst hv
    cases hmove with
    | exit hpc _ => exact hqueues v (by rw [hpc]; rfl)
    | callFill _ _ hqueue => exact hqueue
    | lockMx hpc _ => exact hqueues v (by rw [hpc]; rfl)
    | someStreams hpc _ _ => exact hqueues v (by rw [hpc]; rfl)
    | lockStreams hpc _ => exact hqueues v (by rw [hpc]; rfl)
    | drained _ hqueue => exact hqueue
    | outOfRange hpc _ _ =>
        have hpc' : ({ s with terminated := true } : State n m).pc v =
            .index _ := hpc
        rw [hpc'] at hdrained
        cases hdrained
    | skipFill _ _ | noStreams _ _ _ | enterLoop _ _ _ | visit _ _ _
    | iterate _ _ | closeBatch _ | lastOwner _ _ | notLastOwner _
    | pathDestroyed _ _ | streamDestroyed _ | again _ _ _ _ | emit _ _
    | destroyPacket _ => simp [WorkerPc.drained] at hdrained
    | enterFull _ _ _ | finish _ _ _ =>
        simp [State.fillReturns, WorkerPc.drained] at hdrained
  · rw [hframe.queue v hv]
    exact hqueues v (by rwa [hframe.pc v hv] at hdrained)

theorem QueuesOk.outsideMove (hqueues : QueuesOk s) (hmove : OutsideMove s s') :
    QueuesOk s' := by
  cases hmove with
  | @start w hpc _ =>
      intro v hdrained
      by_cases hv : v = w
      · subst hv
        exact hqueues v (by rw [hpc]; rfl)
      · exact hqueues v (by rwa [s.setPc_pc_of_ne _ hv] at hdrained)
  | stop | join _ | enqueueUpdate _ | errorInEpics _ => exact hqueues

theorem reachable_queuesOk (hreach : (conversionSystem cfg n m).Reachable s) :
    QueuesOk s := by
  refine hreach.invariant (fun s ⟨_, hinit⟩ => hinit ▸ fun _ _ => rfl) ?_
  intro s action s' _ hqueues hstep
  rcases step_move hstep with ⟨w, hmove⟩ | ⟨c, hmove⟩ | hmove
  · exact hqueues.workerMove hmove
  · intro v hdrained
    rw [hmove.frame.queue]
    exact hqueues v (by rwa [hmove.frame.pc] at hdrained)
  · exact hqueues.outsideMove hmove

end EpicsToKafka
