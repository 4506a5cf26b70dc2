/-
`FwdMonitorRequester::monitorEvent`.  A monitor hands out its elements one by
one and uses an element again once it was released, so each is copied before
that; the copies are emitted when the monitor has no more elements.  Several
monitors of one client may call at the same time, for instance around a
reconnect, and timer ticks and conversions go on meanwhile.
-/
import EpicsToKafka.UpdateCache

namespace EpicsToKafka.PVData

/-- Where a call of `monitorEvent` is, with its local `Updates`. -/
inductive MonitorCall where
  | idle
  | polling (updates : List Nat)
  | copying (element : Nat) (updates : List Nat)
  | releasing (element update : Nat) (updates : List Nat)
  | emitting (updates : List Nat)
deriving Repr, DecidableEq

namespace MonitorCall

/-- The element that was polled and not released. -/
def held : MonitorCall → Option Nat
  | copying element _ => some element
  | releasing element _ _ => some element
  | _ => none

/-- The updates that are still to be emitted. -/
def pending : MonitorCall → List Nat
  | idle => []
  | polling updates => updates
  | copying _ updates => updates
  | releasing _ update updates => updates ++ [update]
  | emitting updates => updates

end MonitorCall

/-- `k` monitors of one client with their elements, and the calls they make.
The last four fields are history: what the elements held when they were polled,
the elements polled and released, and the updates that were emitted. -/
structure MonitorEvents (k : Nat) where
  elements : Fin k → Nat → PVStructure
  call : Fin k → MonitorCall
  client : EpicsClientMonitor
  polled : Fin k → List PVStructure
  acquired : Fin k → List Nat
  released : Fin k → List Nat
  emissions : List (Fin k × Nat)

/-- A step of EPICS, which may write to an element that is not handed out, of a
call of `monitorEvent`, of the timer, or of a worker. -/
inductive MonitorAction (k : Nat) where
  | write (t : Fin k) (element : Nat) (content : PVStructure)
  | event (t : Fin k)
  | poll (t : Fin k) (element : Option Nat)
  | copy (t : Fin k)
  | release (t : Fin k)
  | emit (t : Fin k)
  | emitCachedValue
  | convert

variable {k : Nat}

namespace MonitorEvents

def initial (elements : Fin k → Nat → PVStructure) : MonitorEvents k where
  elements
  call _ := .idle
  client := { updates := [] }
  polled _ := []
  acquired _ := []
  released _ := []
  emissions := []

def goto (s : MonitorEvents k) (t : Fin k) (call : MonitorCall) : MonitorEvents k :=
  { s with call := Function.update s.call t call }

def write (s : MonitorEvents k) (t : Fin k) (element : Nat) (content : PVStructure) :
    Option (MonitorEvents k) :=
  if (s.call t).held = some element then none
  else some { s with
    elements := Function.update s.elements t (Function.update (s.elements t) element content) }

def event (s : MonitorEvents k) (t : Fin k) : Option (MonitorEvents k) :=
  match s.call t with
  | .idle => some (s.goto t (.polling []))
  | _ => none

/-- `Monitor->poll()` gives an element or null. -/
def poll (s : MonitorEvents k) (t : Fin k) (element : Option Nat) :
    Option (MonitorEvents k) :=
  match s.call t, element with
  | .polling updates, none => some (s.goto t (.emitting updates))
  | .polling updates, some element =>
      some { s.goto t (.copying element updates) with
        polled := Function.update s.polled t (s.polled t ++ [s.elements t element])
        acquired := Function.update s.acquired t (s.acquired t ++ [element]) }
  | _, _ => none

/-- A new update for the channel, with a copy of the element. -/
def copy (channelName : String) (s : MonitorEvents k) (t : Fin k) :
    Option (MonitorEvents k) :=
  match s.call t with
  | .copying element updates =>
      some { s.goto t (.releasing element s.client.updates.length updates) with
        client := { s.client with
          updates := s.client.updates ++ [⟨s.elements t element, channelName, false⟩] } }
  | _ => none

def release (s : MonitorEvents k) (t : Fin k) : Option (MonitorEvents k) :=
  match s.call t with
  | .releasing element update updates =>
      some { s.goto t (.polling (updates ++ [update])) with
        released := Function.update s.released t (s.released t ++ [element]) }
  | _ => none

/-- The loop over `Updates`; a call that has emitted all of them returns. -/
def emit (s : MonitorEvents k) (t : Fin k) : Option (MonitorEvents k) :=
  match s.call t with
  | .emitting [] => some (s.goto t .idle)
  | .emitting (update :: updates) =>
      (s.client.step (.emit update)).map fun client =>
        { s.goto t (.emitting updates) with
          client
          emissions := s.emissions ++ [(t, update)] }
  | _ => none

def step (channelName : String) (s : MonitorEvents k) :
    MonitorAction k → Option (MonitorEvents k)
  | .write t element content => s.write t element content
  | .event t => s.event t
  | .poll t element => s.poll t element
  | .copy t => s.copy channelName t
  | .release t => s.release t
  | .emit t => s.emit t
  | .emitCachedValue => (s.client.step .emitCachedValue).map fun client => { s with client }
  | .convert => (s.client.step .convert).map fun client => { s with client }

end MonitorEvents

def monitorSystem (channelName : String) (k : Nat) :
    Transition.System (MonitorEvents k) (MonitorAction k) where
  init s := ∃ elements, s = .initial elements
  step := MonitorEvents.step channelName

/-- What a converter reads of an update, apart from its mark. -/
def EpicsPVUpdate.content (update : EpicsPVUpdate) : PVStructure × String :=
  (update.pvStructure, update.channel)

def EpicsClientMonitor.contentAt (client : EpicsClientMonitor) (address : Nat) :
    Option (PVStructure × String) :=
  (client.updates.map EpicsPVUpdate.content)[address]?

namespace MonitorEvents

variable {channelName : String} {s s' : MonitorEvents k} {t : Fin k}

/-- The updates of one monitor that have been emitted. -/
def emittedBy (s : MonitorEvents k) (t : Fin k) : List Nat :=
  (s.emissions.filter fun e => e.1 = t).map Prod.snd

/-- The updates of one monitor, emitted ones first. -/
def updatesOf (s : MonitorEvents k) (t : Fin k) : List Nat :=
  s.emittedBy t ++ (s.call t).pending

/-- The content of an element that is not copied yet. -/
def uncopied (s : MonitorEvents k) (t : Fin k) : List PVStructure :=
  match s.call t with
  | .copying element _ => [s.elements t element]
  | _ => []

structure MonitorOk (channelName : String) (s : MonitorEvents k) : Prop where
  contents : ∀ t, (s.updatesOf t).map s.client.contentAt ++
      (s.uncopied t).map (fun content => some (content, channelName)) =
    (s.polled t).map fun content => some (content, channelName)
  elements : ∀ t, s.acquired t = s.released t ++ (s.call t).held.toList
  queue : (s.client.enqueued.filter fun entry => entry.origin = .emit).map Enqueued.update =
    s.emissions.map fun e => some e.2

theorem mark_content (client : EpicsClientMonitor) (address : Nat) :
    (client.mark address).updates.map EpicsPVUpdate.content =
      client.updates.map EpicsPVUpdate.content := by
  apply List.ext_getElem?
  intro i
  simp only [EpicsClientMonitor.mark, List.getElem?_map, List.getElem?_modify]
  cases client.updates[i]? with
  | none => rfl
  | some update =>
      simp only [Option.map_some]
      split <;> rfl

/-- A call of the client never changes what a converter reads. -/
theorem cacheMove_content {client client' : EpicsClientMonitor} {action : CacheAction}
    (hmove : CacheMove client action client') :
    client'.updates.map EpicsPVUpdate.content = client.updates.map EpicsPVUpdate.content := by
  cases hmove with
  | @emit address update changed hupdate hchanged =>
      cases changed
      · rfl
      · exact mark_content client address
  | reemit _ => exact mark_content client _
  | nothingCached _ | direct | dropNull _ | convert _ _ => rfl

/-- Only `emit` adds to what `emit` has enqueued. -/
theorem cacheMove_enqueued {client client' : EpicsClientMonitor} {action : CacheAction}
    (hmove : CacheMove client action client') :
    client'.enqueued.filter (fun entry => entry.origin = .emit) =
      client.enqueued.filter (fun entry => entry.origin = .emit) ++
        match action with
        | .emit address => [⟨.emit, some address⟩]
        | _ => [] := by
  cases hmove with
  | @emit address update changed hupdate hchanged =>
      cases changed <;> simp
  | reemit _ | direct => simp
  | nothingCached _ | dropNull _ | convert _ _ => simp

/-- A step leaves the call of another monitor as it is. -/
structure Untouched (s s' : MonitorEvents k) (u : Fin k) : Prop where
  updatesOf : s'.updatesOf u = s.updatesOf u
  uncopied : s'.uncopied u = s.uncopied u
  held : (s'.call u).held = (s.call u).held
  polled : s'.polled u = s.polled u
  acquired : s'.acquired u = s.acquired u
  released : s'.released u = s.released u

theorem untouched_of_ne {u : Fin k} (hcall : s'.call u = s.call u)
    (helements : s'.elements u = s.elements u) (hpolled : s'.polled u = s.polled u)
    (hacquired : s'.acquired u = s.acquired u) (hreleased : s'.released u = s.released u)
    (hemissions : (s'.emissions.filter fun e => e.1 = u) =
      s.emissions.filter fun e => e.1 = u) : Untouched s s' u := by
  refine ⟨?_, ?_, by rw [hcall], hpolled, hacquired, hreleased⟩
  · rw [updatesOf, updatesOf, emittedBy, emittedBy, hcall, hemissions]
  · rw [uncopied, uncopied, hcall, helements]

namespace MonitorOk

/-- Every update was made by a `copy`. -/
theorem readable (hok : MonitorOk channelName s) {address : Nat}
    (haddress : address ∈ s.updatesOf t) : ∃ content, s.client.contentAt address = some content := by
  have hmem : s.client.contentAt address ∈ (s.updatesOf t).map s.client.contentAt ++
      (s.uncopied t).map (fun content => some (content, channelName)) :=
    List.mem_append_left _ (List.mem_map_of_mem haddress)
  rw [hok.contents t] at hmem
  obtain ⟨content, -, heq⟩ := List.mem_map.mp hmem
  exact ⟨_, heq.symm⟩

/-- What was readable is read as before. -/
theorem map_read (hok : MonitorOk channelName s) {client : EpicsClientMonitor}
    (hread : ∀ address content, s.client.contentAt address = some content →
      client.contentAt address = some content) (t : Fin k) :
    (s.updatesOf t).map client.contentAt = (s.updatesOf t).map s.client.contentAt := by
  apply List.map_congr_left
  intro address haddress
  obtain ⟨content, hcontent⟩ := hok.readable haddress
  rw [hcontent, hread address content hcontent]

/-- The invariant after a step of one monitor. -/
theorem move (hok : MonitorOk channelName s) (t : Fin k)
    (hread : ∀ address content, s.client.contentAt address = some content →
      s'.client.contentAt address = some content)
    (hother : ∀ u, u ≠ t → Untouched s s' u)
    (hcontents : (s'.updatesOf t).map s'.client.contentAt ++
        (s'.uncopied t).map (fun content => some (content, channelName)) =
      (s'.polled t).map fun content => some (content, channelName))
    (helements : s'.acquired t = s'.released t ++ (s'.call t).held.toList)
    (hqueue : (s'.client.enqueued.filter fun entry => entry.origin = .emit).map
      Enqueued.update = s'.emissions.map fun e => some e.2) :
    MonitorOk channelName s' := by
  refine ⟨fun u => ?_, fun u => ?_, hqueue⟩
  · by_cases hu : u = t
    · rw [hu]
      exact hcontents
    · have hsame := hother u hu
      rw [hsame.updatesOf, hsame.uncopied, hsame.polled, hok.map_read hread]
      exact hok.contents u
  · by_cases hu : u = t
    · rw [hu]
      exact helements
    · have hsame := hother u hu
      rw [hsame.acquired, hsame.released, hsame.held]
      exact hok.elements u

theorem write (hok : MonitorOk channelName s) {element : Nat} {content : PVStructure}
    (hstep : s.write t element content = some s') : MonitorOk channelName s' := by
  unfold MonitorEvents.write at hstep
  split at hstep
  · cases hstep
  rename_i hheld
  cases hstep
  have huncopied : ∀ u, MonitorEvents.uncopied { s with
      elements := Function.update s.elements t
        (Function.update (s.elements t) element content) } u = s.uncopied u := by
    intro u
    unfold MonitorEvents.uncopied
    simp only
    split
    · rename_i other updates hcall
      by_cases hu : u = t
      · subst hu
        have hne : other ≠ element := by
          rintro rfl
          exact hheld (by rw [hcall]; rfl)
        simp [hne]
      · simp [hu]
    · rfl
  refine ⟨fun u => ?_, hok.elements, hok.queue⟩
  rw [huncopied]
  exact hok.contents u

theorem event (hok : MonitorOk channelName s) (hstep : s.event t = some s') :
    MonitorOk channelName s' := by
  unfold MonitorEvents.event at hstep
  split at hstep
  · rename_i hcall
    cases hstep
    have hcontents := hok.contents t
    have helements := hok.elements t
    rw [updatesOf, emittedBy, uncopied, hcall] at hcontents
    rw [hcall] at helements
    refine hok.move t (fun _ _ hread => hread) (fun u hu => ?_) ?_ ?_ hok.queue
    · exact untouched_of_ne (Function.update_of_ne hu _ _) rfl rfl rfl rfl rfl
    · simpa [updatesOf, emittedBy, uncopied, goto, MonitorCall.pending] using hcontents
    · simpa [goto, MonitorCall.held] using helements
  · cases hstep

theorem poll (hok : MonitorOk channelName s) {element : Option Nat}
    (hstep : s.poll t element = some s') : MonitorOk channelName s' := by
  have hcontents := hok.contents t
  have helements := hok.elements t
  unfold MonitorEvents.poll at hstep
  split at hstep
  · rename_i updates hcall
    cases hstep
    rw [updatesOf, emittedBy, uncopied, hcall] at hcontents
    rw [hcall] at helements
    refine hok.move t (fun _ _ hread => hread) (fun u hu => ?_) ?_ ?_ hok.queue
    · exact untouched_of_ne (Function.update_of_ne hu _ _) rfl rfl rfl rfl rfl
    · simpa [updatesOf, emittedBy, uncopied, goto, MonitorCall.pending] using hcontents
    · simpa [goto, MonitorCall.held] using helements
  · rename_i updates element hcall
    cases hstep
    rw [updatesOf, emittedBy, uncopied, hcall] at hcontents
    rw [hcall] at helements
    refine hok.move t (fun _ _ hread => hread) (fun u hu => ?_) ?_ ?_ hok.queue
    · exact untouched_of_ne (Function.update_of_ne hu _ _) rfl (Function.update_of_ne hu _ _)
        (Function.update_of_ne hu _ _) rfl rfl
    · simp only [List.map_nil, List.append_nil, MonitorCall.pending] at hcontents
      simp only [updatesOf, emittedBy, uncopied, goto, Function.update_self, MonitorCall.pending,
        List.map_append, List.map_cons, List.map_nil, ← hcontents]
    · simpa [goto, MonitorCall.held] using helements
  · cases hstep

/-- The new update is read at its address, the others as before. -/
theorem copy (hok : MonitorOk channelName s) (hstep : s.copy channelName t = some s') :
    MonitorOk channelName s' := by
  have hcontents := hok.contents t
  have helements := hok.elements t
  unfold MonitorEvents.copy at hstep
  split at hstep
  · rename_i element updates hcall
    cases hstep
    rw [updatesOf, emittedBy, uncopied, hcall] at hcontents
    rw [hcall] at helements
    have hkept : ∀ address content, s.client.contentAt address = some content →
        EpicsClientMonitor.contentAt { s.client with
          updates := s.client.updates ++ [⟨s.elements t element, channelName, false⟩] }
            address = some content := by
      intro address content hcontent
      obtain ⟨hlt, -⟩ := List.getElem?_eq_some_iff.mp hcontent
      rw [EpicsClientMonitor.contentAt, List.map_append, List.getElem?_append_left hlt]
      exact hcontent
    have hnew : EpicsClientMonitor.contentAt { s.client with
        updates := s.client.updates ++ [⟨s.elements t element, channelName, false⟩] }
          s.client.updates.length = some (s.elements t element, channelName) := by
      simp [EpicsClientMonitor.contentAt, EpicsPVUpdate.content]
    have hold := hok.map_read hkept t
    rw [updatesOf, emittedBy, hcall] at hold
    refine hok.move t hkept (fun u hu => ?_) ?_ ?_ hok.queue
    · exact untouched_of_ne (Function.update_of_ne hu _ _) rfl rfl rfl rfl rfl
    · simp only [updatesOf, emittedBy, uncopied, goto, Function.update_self, MonitorCall.pending,
        List.map_nil, List.append_nil, ← List.append_assoc] at hold hcontents ⊢
      rw [List.map_append, hold, List.map_singleton, hnew]
      exact hcontents
    · simpa [goto, MonitorCall.held] using helements
  · cases hstep

theorem release (hok : MonitorOk channelName s) (hstep : s.release t = some s') :
    MonitorOk channelName s' := by
  have hcontents := hok.contents t
  have helements := hok.elements t
  unfold MonitorEvents.release at hstep
  split at hstep
  · rename_i element update updates hcall
    cases hstep
    rw [updatesOf, emittedBy, uncopied, hcall] at hcontents
    rw [hcall] at helements
    refine hok.move t (fun _ _ hread => hread) (fun u hu => ?_) ?_ ?_ hok.queue
    · exact untouched_of_ne (Function.update_of_ne hu _ _) rfl rfl rfl
        (Function.update_of_ne hu _ _) rfl
    · simpa [updatesOf, emittedBy, uncopied, goto, MonitorCall.pending] using hcontents
    · simpa [goto, MonitorCall.held] using helements
  · cases hstep

/-- A call of the client is invisible to the calls of `monitorEvent`. -/
theorem contentAt_of_step {client client' : EpicsClientMonitor} {action : CacheAction}
    (hstep : client.step action = some client') :
    client'.contentAt = client.contentAt := by
  funext address
  rw [EpicsClientMonitor.contentAt, cacheMove_content (cache_step_move hstep)]
  rfl

theorem emit (hok : MonitorOk channelName s) (hstep : s.emit t = some s') :
    MonitorOk channelName s' := by
  have hcontents := hok.contents t
  have helements := hok.elements t
  unfold MonitorEvents.emit at hstep
  split at hstep
  · rename_i hcall
    cases hstep
    rw [updatesOf, emittedBy, uncopied, hcall] at hcontents
    rw [hcall] at helements
    refine hok.move t (fun _ _ hread => hread) (fun u hu => ?_) ?_ ?_ hok.queue
    · exact untouched_of_ne (Function.update_of_ne hu _ _) rfl rfl rfl rfl rfl
    · simpa [updatesOf, emittedBy, uncopied, goto, MonitorCall.pending] using hcontents
    · simpa [goto, MonitorCall.held] using helements
  · rename_i update updates hcall
    obtain ⟨client, hclient, rfl⟩ := Option.map_eq_some_iff.mp hstep
    have hread := contentAt_of_step hclient
    rw [updatesOf, emittedBy, uncopied, hcall] at hcontents
    rw [hcall] at helements
    refine hok.move t (fun _ _ hcontent => ?_) (fun u hu => ?_) ?_ ?_ ?_
    · rw [← hcontent]
      exact congrFun hread _
    · refine untouched_of_ne (Function.update_of_ne hu _ _) rfl rfl rfl rfl ?_
      simp [Ne.symm hu]
    · simpa [updatesOf, emittedBy, uncopied, goto, MonitorCall.pending, hread] using hcontents
    · simpa [goto, MonitorCall.held] using helements
    · simp only [cacheMove_enqueued (cache_step_move hclient), List.map_append, hok.queue]
      rfl
  · cases hstep

/-- A timer tick or a conversion. -/
theorem clientStep (hok : MonitorOk channelName s) {action : CacheAction}
    (haction : ∀ address, action ≠ .emit address) {client : EpicsClientMonitor}
    (hclient : s.client.step action = some client) :
    MonitorOk channelName { s with client } := by
  have hread := contentAt_of_step hclient
  refine ⟨fun t => ?_, hok.elements, ?_⟩
  · have hcontents := hok.contents t
    rw [← hread] at hcontents
    exact hcontents
  · have henqueued := cacheMove_enqueued (cache_step_move hclient)
    cases action with
    | emit address => exact absurd rfl (haction address)
    | emitCachedValue | emitWithoutCaching _ | convert =>
        simp only [List.append_nil] at henqueued
        simp only [henqueued]
        exact hok.queue

end MonitorOk

theorem reachable_monitorOk (hreach : (monitorSystem channelName k).Reachable s) :
    MonitorOk channelName s := by
  refine hreach.invariant ?_ ?_
  · rintro s ⟨elements, rfl⟩
    refine ⟨fun t => ?_, fun t => ?_, ?_⟩ <;>
      simp [MonitorEvents.initial, updatesOf, emittedBy, uncopied, MonitorCall.pending,
        MonitorCall.held]
  · intro s action s' _ hok hstep
    cases action with
    | write t element content => exact hok.write hstep
    | event t => exact hok.event hstep
    | poll t element => exact hok.poll hstep
    | copy t => exact hok.copy hstep
    | release t => exact hok.release hstep
    | emit t => exact hok.emit hstep
    | emitCachedValue | convert =>
        obtain ⟨client, hclient, rfl⟩ := Option.map_eq_some_iff.mp hstep
        exact hok.clientStep (by simp) hclient

/-- The update that a step passes to `EmitQueue->enqueue`. -/
def enqueues (s : MonitorEvents k) : MonitorAction k → Option Nat
  | .emit t =>
      match s.call t with
      | .emitting (update :: _) => some update
      | _ => none
  | .emitCachedValue => s.client.cachedUpdate
  | _ => none

/-- What a step does to the cache and to the queue of the client. -/
inductive ClientMove (s : MonitorEvents k) (action : MonitorAction k) (s' : MonitorEvents k) : Prop
  | quiet (hcached : s'.client.cachedUpdate = s.client.cachedUpdate)
      (hemissions : s'.emissions = s.emissions)
      (henqueued : s'.client.enqueued = s.client.enqueued) (hnone : s.enqueues action = none)
  | emits {t : Fin k} {update : Nat} (hcached : s'.client.cachedUpdate = some update)
      (hemissions : s'.emissions = s.emissions ++ [(t, update)])
      (henqueued : s'.client.enqueued = s.client.enqueued ++ [⟨.emit, some update⟩])
      (hsome : s.enqueues action = some update)
  | repeats {cached : Nat} (hcached : s.client.cachedUpdate = some cached)
      (hkept : s'.client.cachedUpdate = some cached) (hemissions : s'.emissions = s.emissions)
      (henqueued : s'.client.enqueued = s.client.enqueued ++ [⟨.cached, some cached⟩])
      (hsome : s.enqueues action = some cached)

theorem emit_clientMove (hstep : s.emit t = some s') : ClientMove s (.emit t) s' := by
  unfold MonitorEvents.emit at hstep
  split at hstep
  · rename_i hcall
    cases hstep
    exact .quiet rfl rfl rfl (by simp [enqueues, hcall])
  · rename_i update updates hcall
    obtain ⟨client, hclient, rfl⟩ := Option.map_eq_some_iff.mp hstep
    have hsome : s.enqueues (.emit t) = some update := by simp [enqueues, hcall]
    cases cache_step_move hclient with
    | @emit _ _ changed _ _ => cases changed <;> exact .emits rfl rfl rfl hsome
  · cases hstep

theorem step_clientMove {action : MonitorAction k} (hstep : s.step channelName action = some s') :
    ClientMove s action s' := by
  cases action with
  | write t element content =>
      simp only [step, MonitorEvents.write] at hstep
      split at hstep
      · cases hstep
      · cases hstep
        exact .quiet rfl rfl rfl rfl
  | event t =>
      simp only [step, MonitorEvents.event] at hstep
      split at hstep
      · cases hstep
        exact .quiet rfl rfl rfl rfl
      · cases hstep
  | poll t element =>
      simp only [step, MonitorEvents.poll] at hstep
      split at hstep
      · cases hstep
        exact .quiet rfl rfl rfl rfl
      · cases hstep
        exact .quiet rfl rfl rfl rfl
      · cases hstep
  | copy t =>
      simp only [step, MonitorEvents.copy] at hstep
      split at hstep
      · cases hstep
        exact .quiet rfl rfl rfl rfl
      · cases hstep
  | release t =>
      simp only [step, MonitorEvents.release] at hstep
      split at hstep
      · cases hstep
        exact .quiet rfl rfl rfl rfl
      · cases hstep
  | emit t => exact emit_clientMove hstep
  | emitCachedValue =>
      obtain ⟨client, hclient, rfl⟩ := Option.map_eq_some_iff.mp hstep
      cases cache_step_move hclient with
      | nothingCached hcached => exact .quiet rfl rfl rfl hcached
      | reemit hcached => exact .repeats hcached hcached rfl rfl hcached
  | convert =>
      obtain ⟨client, hclient, rfl⟩ := Option.map_eq_some_iff.mp hstep
      cases cache_step_move hclient with
      | dropNull _ | convert _ _ => exact .quiet rfl rfl rfl rfl

/-- A step enqueues one update or none. -/
theorem step_enqueued {action : MonitorAction k} (hstep : s.step channelName action = some s') :
    s'.client.enqueued.map Enqueued.update =
      s.client.enqueued.map Enqueued.update ++ (s.enqueues action).toList.map some := by
  cases step_clientMove hstep with
  | quiet _ _ henqueued hnone => simp [henqueued, hnone]
  | emits _ _ henqueued hsome | repeats _ _ _ henqueued hsome => simp [henqueued, hsome]

/-- Whatever the client has enqueued was emitted by one of its monitors; a
timer tick enqueues the latest of them again. -/
structure EnqueuedOk (s : MonitorEvents k) : Prop where
  cached : ∀ address, s.client.cachedUpdate = some address → ∃ t, (t, address) ∈ s.emissions
  enqueued : ∀ update ∈ s.client.enqueued.map Enqueued.update,
    ∃ t address, update = some address ∧ (t, address) ∈ s.emissions

theorem EnqueuedOk.move {action : MonitorAction k} (hok : EnqueuedOk s)
    (hmove : ClientMove s action s') : EnqueuedOk s' := by
  cases hmove with
  | quiet hcached hemissions henqueued _ =>
      refine ⟨?_, ?_⟩
      · rw [hcached, hemissions]
        exact hok.cached
      · rw [henqueued, hemissions]
        exact hok.enqueued
  | @emits t update hcached hemissions henqueued _ =>
      refine ⟨fun address haddress => ?_, fun other hother => ?_⟩
      · rw [hcached, Option.some.injEq] at haddress
        subst haddress
        exact ⟨t, by simp [hemissions]⟩
      · rw [henqueued, List.map_append, List.mem_append] at hother
        rcases hother with hold | hnew
        · obtain ⟨u, address, heq, hmem⟩ := hok.enqueued other hold
          exact ⟨u, address, heq, by simp [hemissions, hmem]⟩
        · exact ⟨t, update, by simpa using hnew, by simp [hemissions]⟩
  | repeats hbefore hcached hemissions henqueued _ =>
      refine ⟨?_, fun other hother => ?_⟩
      · rw [hcached, ← hbefore, hemissions]
        exact hok.cached
      · rw [hemissions]
        rw [henqueued, List.map_append, List.mem_append] at hother
        rcases hother with hold | hnew
        · exact hok.enqueued other hold
        · obtain ⟨u, hmem⟩ := hok.cached _ hbefore
          exact ⟨u, _, by simpa using hnew, hmem⟩

theorem reachable_enqueuedOk (hreach : (monitorSystem channelName k).Reachable s) :
    EnqueuedOk s := by
  refine hreach.invariant ?_ ?_
  · rintro s ⟨elements, rfl⟩
    constructor <;> simp [MonitorEvents.initial]
  · intro s action s' _ hok hstep
    exact hok.move (step_clientMove hstep)

/-- Every update in the queue holds what one of the monitors has polled. -/
theorem enqueued_was_polled (hreach : (monitorSystem channelName k).Reachable s) {address : Nat}
    (henqueued : some address ∈ s.client.enqueued.map Enqueued.update) :
    ∃ t, ∃ content ∈ s.polled t, s.client.contentAt address = some (content, channelName) := by
  obtain ⟨t, _, ⟨⟩, hemitted⟩ := (reachable_enqueuedOk hreach).enqueued _ henqueued
  have hmem : address ∈ s.updatesOf t :=
    List.mem_append_left _ (List.mem_map.mpr ⟨(t, address), by simpa using hemitted, rfl⟩)
  have hread : s.client.contentAt address ∈ (s.updatesOf t).map s.client.contentAt ++
      (s.uncopied t).map fun content => some (content, channelName) :=
    List.mem_append_left _ (List.mem_map_of_mem hmem)
  rw [(reachable_monitorOk hreach).contents t] at hread
  obtain ⟨content, hpolled, heq⟩ := List.mem_map.mp hread
  exact ⟨t, content, hpolled, heq.symm⟩

/-- What a monitor has polled is read in the queue, in its order, when its
call has returned. -/
theorem polled_sublist (hreach : (monitorSystem channelName k).Reachable s)
    (hidle : s.call t = .idle) :
    ((s.polled t).map fun content => some (content, channelName)).Sublist
      ((s.client.enqueued.map Enqueued.update).map fun update =>
        update.bind s.client.contentAt) := by
  have hok := reachable_monitorOk hreach
  have hcontents := hok.contents t
  rw [updatesOf, uncopied, hidle] at hcontents
  simp only [MonitorCall.pending, List.append_nil, List.map_nil] at hcontents
  have hemitted : ((s.emissions.filter fun e => e.1 = t).map fun e => some e.2).Sublist
      (s.client.enqueued.map Enqueued.update) := by
    have hall : ((s.emissions.filter fun e => e.1 = t).map fun e => some e.2).Sublist
        (s.emissions.map fun e => some e.2) := List.filter_sublist.map _
    rw [← hok.queue] at hall
    exact hall.trans (List.filter_sublist.map _)
  rw [← hcontents, emittedBy]
  simpa [Function.comp_def] using hemitted.map fun update => update.bind s.client.contentAt

/-- EPICS writes to the element again before it is polled the second time, and
the timer ticks between the two calls of `emit`. -/
def reuseElement {k : Nat} (t : Fin k) : List (MonitorAction k) :=
  [.event t, .poll t (some 0), .copy t, .release t, .write t 0 (.alarmed "HIGH_ALARM" 1),
    .poll t (some 0), .copy t, .release t, .poll t none, .emit t, .emitCachedValue, .emit t,
    .emit t]

end MonitorEvents

end EpicsToKafka.PVData
