/-
The callbacks of the two timers.  A callback is registered when its stream is
added, and no callback is ever taken back.  The callbacks of `PVUpdateTimer`
call a monitor through a pointer that is null if the client is no monitor; the
callbacks keep their clients, and with them the output queues, alive.
-/
import EpicsToKafka.Transition
import EpicsToKafka.AddMapping

namespace EpicsToKafka

/-- The clients of the streams in `Streams`. -/
def Forwarder.clients (s : Forwarder) : List Nat :=
  s.streams.map MappedStream.address

/-- The forwarder with its timers.  `cached` are the monitors that have a cached
update.  `enqueued` is history: the clients to whose output queue a tick has
added an update, each with whether its stream was in `Streams`.  After
`nullCall`, a call on a null pointer, nothing happens any more. -/
structure TimedForwarder where
  forwarder : Forwarder := {}
  cached : List Nat := []
  enqueued : List (Nat × Bool) := []
  nullCall : Bool := false

inductive TimedAction where
  | addMapping (answers : MappingAnswers) (streamInfo : StreamSettings)
  | stopChannel (channel : String)
  | clearStreams
  | checkStreamStatus (failed : List Nat)
  | destroy (address : Nat)
  | emit (client : Nat)
  | pvUpdateTick
  | fakePVUpdateTick

/-- The state that code ends in. -/
def endState (code : Forwarding Unit) (s : Forwarder) : Forwarder :=
  match code.run s with
  | .ok _ s' => s'
  | .error _ s' => s'

namespace TimedForwarder

/-- `enqueue` on the output queue of the stream of a client. -/
def enqueue (s : TimedForwarder) (client : Nat) : TimedForwarder :=
  { s with enqueued := s.enqueued ++ [(client, decide (client ∈ s.forwarder.clients))] }

def emitCachedValue (s : TimedForwarder) (client : Nat) : TimedForwarder :=
  if client ∈ s.cached then s.enqueue client else s

/-- `Timer::executeCallbacks` of `PVUpdateTimer`. -/
def executePVUpdateCallbacks : List PVUpdateCallback → TimedForwarder → TimedForwarder
  | [], s => s
  | callback :: rest, s =>
      match callback.periodicClient with
      | none => { s with nullCall := true }
      | some client => executePVUpdateCallbacks rest (s.emitCachedValue client)

/-- `Timer::executeCallbacks` of `GenerateFakePVUpdateTimer`; every callback
makes a new update. -/
def executeFakePVUpdateCallbacks : List Nat → TimedForwarder → TimedForwarder
  | [], s => s
  | client :: rest, s => executeFakePVUpdateCallbacks rest (s.enqueue client)

def step (opt : MainOpt) (s : TimedForwarder) (action : TimedAction) :
    Option TimedForwarder :=
  if s.nullCall then none
  else match action with
  | .addMapping answers streamInfo =>
      some { s with forwarder := endState (addMapping opt answers streamInfo) s.forwarder }
  | .stopChannel channel => some { s with forwarder := s.forwarder.stopChannel channel }
  | .clearStreams => some { s with forwarder := s.forwarder.clearStreams }
  | .checkStreamStatus failed =>
      some { s with forwarder := s.forwarder.checkStreamStatus failed }
  | .destroy address => some { s with forwarder := s.forwarder.destroy address }
  | .emit client => some { s with cached := s.cached.insert client }
  | .pvUpdateTick =>
      if opt.periodMS > 0 then
        some (executePVUpdateCallbacks s.forwarder.pvUpdateCallbacks s)
      else none
  | .fakePVUpdateTick =>
      if opt.fakePVPeriodMS > 0 then
        some (executeFakePVUpdateCallbacks s.forwarder.fakePVUpdateCallbacks s)
      else none

end TimedForwarder

def timedSystem (opt : MainOpt) : Transition.System TimedForwarder TimedAction where
  init s := s = {}
  step := TimedForwarder.step opt

/-- The callbacks of every timer there is are those of the streams, no call has
been made on a null pointer, and no update was enqueued for a removed stream. -/
structure CallbacksFollow (opt : MainOpt) (s : TimedForwarder) : Prop where
  notNull : s.nullCall = false
  pvUpdate : opt.periodMS > 0 → ∀ client,
    client ∈ s.forwarder.pvUpdateCallbacks.map PVUpdateCallback.client ↔
      client ∈ s.forwarder.clients
  fakePVUpdate : opt.fakePVPeriodMS > 0 → ∀ client,
    client ∈ s.forwarder.fakePVUpdateCallbacks ↔ client ∈ s.forwarder.clients
  drained : ∀ update ∈ s.enqueued, update.2 = true

def MainOpt.hasTimer (opt : MainOpt) : Prop :=
  opt.periodMS > 0 ∨ opt.fakePVPeriodMS > 0

/-- The condition on a step: no stream is removed while there is a timer, and
`PVUpdateTimer` does not tick while there are streams with random clients. -/
def TimedForwarder.KeepsCallbacks (opt : MainOpt) (s : TimedForwarder) :
    TimedAction → Prop
  | .stopChannel channel => opt.hasTimer → ∀ stream ∈ s.forwarder.streams,
      stream.channelInfo.channelName ≠ channel
  | .clearStreams => opt.hasTimer → s.forwarder.streams = []
  | .checkStreamStatus failed => opt.hasTimer → ∀ stream ∈ s.forwarder.streams,
      stream.address ∉ failed
  | .pvUpdateTick => opt.fakePVPeriodMS > 0 → s.forwarder.streams = []
  | _ => True

/-- What the timers see of the forwarder. -/
def Forwarder.timerView (s : Forwarder) : List Nat × List PVUpdateCallback × List Nat :=
  (s.clients, s.pvUpdateCallbacks, s.fakePVUpdateCallbacks)

namespace Forwarder

variable {opt : MainOpt} {s s' : Forwarder}

theorem timerView_updateStream (address : Nat) {f : MappedStream → MappedStream}
    (hkeeps : ∀ stream, (f stream).address = stream.address) :
    (s.updateStream address f).timerView = s.timerView := by
  unfold timerView clients
  rw [s.map_streams_updateStream address hkeeps]
  rfl

theorem timerView_afterObtain (converterInfo : ConverterSettings) :
    (s.afterObtain converterInfo).timerView = s.timerView := by
  unfold afterObtain
  split <;> rfl

theorem timerView_afterOpen (streamInfo : StreamSettings) (uri : Option URI) :
    (s.afterOpen opt streamInfo uri).timerView =
      (s.afterCallbacks opt streamInfo).timerView := by
  unfold afterOpen
  rw [timerView_updateStream]
  · cases uri with
    | none => rfl
    | some uri => exact timerView_updateStream _ fun stream => stream.setProducer_address _
  · exact fun stream => stream.setServiceID_address _

end Forwarder

theorem PushMove.timerView {converterInfo : ConverterSettings} {stream : Nat}
    {s s' : Forwarder} (hmove : PushMove converterInfo stream s s') :
    s'.timerView = s.timerView := by
  cases hmove with
  | thrown => rfl
  | obtained hosts _ _ => exact s.timerView_afterObtain converterInfo
  | pushed uri _ _ =>
      refine Eq.trans ?_ (s.timerView_afterObtain converterInfo)
      exact Forwarder.timerView_updateStream _ fun stream => stream.addConverter_address _

/-- A mapping changes nothing for the timers, or it adds a stream with its
callbacks, even if it throws afterwards. -/
theorem addMapping_timerView (opt : MainOpt) (answers : MappingAnswers)
    (streamInfo : StreamSettings) (s : Forwarder) :
    (endState (addMapping opt answers streamInfo) s).timerView = s.timerView ∨
      (endState (addMapping opt answers streamInfo) s).timerView =
        (s.afterCallbacks opt streamInfo).timerView := by
  have hends : EndsIn (addMapping opt answers streamInfo) s
      (endState (addMapping opt answers streamInfo) s) := by
    unfold endState
    split
    · exact Or.inl ⟨_, ‹_›⟩
    · exact Or.inr ⟨_, ‹_›⟩
  obtain ⟨opened, hmove, hview⟩ := addMapping_view PushMove.timerView hends
  rw [hview]
  cases hmove with
  | refused _ => exact Or.inl rfl
  | opened _ uri => exact Or.inr (Forwarder.timerView_afterOpen streamInfo uri)
  | thrown _ hosts => exact Or.inr rfl

/-- The invariant: the callbacks are those of the streams, in the same order. -/
structure CallbacksOk (opt : MainOpt) (s : Forwarder) : Prop where
  pvUpdate : opt.periodMS > 0 → s.pvUpdateCallbacks.map PVUpdateCallback.client = s.clients
  fakePVUpdate : opt.fakePVPeriodMS > 0 → s.fakePVUpdateCallbacks = s.clients
  monitors : opt.fakePVPeriodMS = 0 → ∀ callback ∈ s.pvUpdateCallbacks,
    callback.periodicClient = some callback.client

namespace CallbacksOk

variable {opt : MainOpt} {s s' : Forwarder}

theorem congr (hok : CallbacksOk opt s) (hview : s'.timerView = s.timerView) :
    CallbacksOk opt s' := by
  obtain ⟨hclients, hpvUpdate, hfakePVUpdate⟩ :
      s'.clients = s.clients ∧ s'.pvUpdateCallbacks = s.pvUpdateCallbacks ∧
        s'.fakePVUpdateCallbacks = s.fakePVUpdateCallbacks := by
    simpa [Forwarder.timerView] using hview
  constructor
  · rw [hclients, hpvUpdate]
    exact hok.pvUpdate
  · rw [hclients, hfakePVUpdate]
    exact hok.fakePVUpdate
  · rw [hpvUpdate]
    exact hok.monitors

/-- A new stream is the last one, and so are its callbacks. -/
theorem afterCallbacks (hok : CallbacksOk opt s) (streamInfo : StreamSettings) :
    CallbacksOk opt (s.afterCallbacks opt streamInfo) := by
  constructor
  · intro hperiod
    have hclients := hok.pvUpdate hperiod
    simp only [Forwarder.afterCallbacks, addCallbacks, Forwarder.afterAddStream,
      Forwarder.clients, hperiod, if_true, List.map_append, hclients, List.map_cons,
      List.map_nil]
  · intro hperiod
    have hclients := hok.fakePVUpdate hperiod
    simp only [Forwarder.afterCallbacks, addCallbacks, Forwarder.afterAddStream,
      Forwarder.clients, hperiod, if_true, List.map_append, hclients, List.map_cons,
      List.map_nil]
  · intro hperiod callback hcallback
    have hreal : ¬ opt.fakePVPeriodMS > 0 := by omega
    simp only [Forwarder.afterCallbacks, addCallbacks, Forwarder.afterAddStream, hreal,
      if_false] at hcallback
    split at hcallback
    · rcases List.mem_append.mp hcallback with hold | hnew
      · exact hok.monitors hperiod callback hold
      · rw [List.mem_singleton.mp hnew]
    · exact hok.monitors hperiod callback hcallback

theorem addMapping (hok : CallbacksOk opt s) (answers : MappingAnswers)
    (streamInfo : StreamSettings) :
    CallbacksOk opt (endState (addMapping opt answers streamInfo) s) := by
  rcases addMapping_timerView opt answers streamInfo s with hsame | hadded
  · exact hok.congr hsame
  · exact (hok.afterCallbacks streamInfo).congr hadded

/-- Streams may be removed if there is no timer. -/
theorem eraseIf (hok : CallbacksOk opt s) {victim : MappedStream → Bool}
    (hnone : opt.hasTimer → ∀ stream ∈ s.streams, victim stream = false) :
    CallbacksOk opt (s.eraseIf victim) := by
  have hclients : opt.hasTimer → (s.eraseIf victim).clients = s.clients := by
    intro htimer
    unfold Forwarder.clients Forwarder.eraseIf
    rw [List.filter_eq_self.mpr]
    intro stream hstream
    rw [hnone htimer stream hstream]
    rfl
  constructor
  · intro hperiod
    rw [hclients (Or.inl hperiod)]
    exact hok.pvUpdate hperiod
  · intro hperiod
    rw [hclients (Or.inr hperiod)]
    exact hok.fakePVUpdate hperiod
  · exact hok.monitors

end CallbacksOk

/-- What the ticks have done so far is in order. -/
structure TicksOk (s : TimedForwarder) : Prop where
  notNull : s.nullCall = false
  drained : ∀ update ∈ s.enqueued, update.2 = true

namespace TicksOk

variable {s : TimedForwarder}

theorem enqueue (hok : TicksOk s) {client : Nat} (hclient : client ∈ s.forwarder.clients) :
    TicksOk (s.enqueue client) := by
  refine ⟨hok.notNull, fun update hupdate => ?_⟩
  rcases List.mem_append.mp hupdate with hold | hnew
  · exact hok.drained update hold
  · rw [List.mem_singleton.mp hnew]
    exact decide_eq_true hclient

theorem emitCachedValue (hok : TicksOk s) {client : Nat}
    (hclient : client ∈ s.forwarder.clients) : TicksOk (s.emitCachedValue client) := by
  unfold TimedForwarder.emitCachedValue
  split
  · exact hok.enqueue hclient
  · exact hok

@[simp] theorem emitCachedValue_forwarder (client : Nat) :
    (s.emitCachedValue client).forwarder = s.forwarder := by
  unfold TimedForwarder.emitCachedValue
  split <;> rfl

/-- A tick of `PVUpdateTimer` whose callbacks belong to streams and have a
pointer to their monitor. -/
theorem executePVUpdateCallbacks {callbacks : List PVUpdateCallback} (hok : TicksOk s)
    (hclients : ∀ callback ∈ callbacks, callback.client ∈ s.forwarder.clients)
    (hmonitors : ∀ callback ∈ callbacks, callback.periodicClient = some callback.client) :
    TicksOk (TimedForwarder.executePVUpdateCallbacks callbacks s) ∧
      (TimedForwarder.executePVUpdateCallbacks callbacks s).forwarder = s.forwarder := by
  induction callbacks generalizing s with
  | nil => exact ⟨hok, rfl⟩
  | cons callback rest ih =>
      have hemitted := hok.emitCachedValue (hclients callback List.mem_cons_self)
      obtain ⟨hrest, hforwarder⟩ := ih hemitted
        (fun other hother => by
          rw [emitCachedValue_forwarder]
          exact hclients other (.tail _ hother))
        fun other hother => hmonitors other (.tail _ hother)
      simp only [TimedForwarder.executePVUpdateCallbacks,
        hmonitors callback List.mem_cons_self]
      exact ⟨hrest, hforwarder.trans (emitCachedValue_forwarder _)⟩

theorem executeFakePVUpdateCallbacks {clients : List Nat} (hok : TicksOk s)
    (hclients : ∀ client ∈ clients, client ∈ s.forwarder.clients) :
    TicksOk (TimedForwarder.executeFakePVUpdateCallbacks clients s) ∧
      (TimedForwarder.executeFakePVUpdateCallbacks clients s).forwarder = s.forwarder := by
  induction clients generalizing s with
  | nil => exact ⟨hok, rfl⟩
  | cons client rest ih =>
      have henqueued := hok.enqueue (hclients client List.mem_cons_self)
      exact ih henqueued fun other hother => hclients other (.tail _ hother)

end TicksOk

section Runs

variable {opt : MainOpt} {s s' : TimedForwarder} {action : TimedAction}

theorem CallbacksOk.pvUpdateTick (hcallbacks : CallbacksOk opt s.forwarder) (hticks : TicksOk s)
    (hperiod : opt.periodMS > 0)
    (hkeeps : opt.fakePVPeriodMS > 0 → s.forwarder.streams = []) :
    TicksOk (s.executePVUpdateCallbacks s.forwarder.pvUpdateCallbacks) ∧
      (s.executePVUpdateCallbacks s.forwarder.pvUpdateCallbacks).forwarder = s.forwarder := by
  have hclients := hcallbacks.pvUpdate hperiod
  apply hticks.executePVUpdateCallbacks
  · intro callback hcallback
    rw [← hclients]
    exact List.mem_map_of_mem hcallback
  · by_cases hfake : opt.fakePVPeriodMS > 0
    · -- without streams there are no callbacks
      rw [Forwarder.clients, hkeeps hfake, List.map_nil, List.map_eq_nil_iff] at hclients
      simp [hclients]
    · exact hcallbacks.monitors (by omega)

/-- A step that meets the condition keeps callbacks and streams together. -/
theorem CallbacksOk.step (hcallbacks : CallbacksOk opt s.forwarder) (hticks : TicksOk s)
    (hkeeps : s.KeepsCallbacks opt action) (hstep : s.step opt action = some s') :
    CallbacksOk opt s'.forwarder ∧ TicksOk s' := by
  have hcalls : ¬ s.nullCall = true := by simp [hticks.notNull]
  unfold TimedForwarder.step at hstep
  rw [if_neg hcalls] at hstep
  cases action with
  | addMapping answers streamInfo =>
      cases hstep
      exact ⟨hcallbacks.addMapping answers streamInfo, hticks.notNull, hticks.drained⟩
  | stopChannel channel =>
      cases hstep
      refine ⟨hcallbacks.eraseIf ?_, hticks.notNull, hticks.drained⟩
      exact fun htimer stream hstream => decide_eq_false (hkeeps htimer stream hstream)
  | clearStreams =>
      cases hstep
      refine ⟨hcallbacks.eraseIf ?_, hticks.notNull, hticks.drained⟩
      intro htimer stream hstream
      rw [hkeeps htimer] at hstream
      cases hstream
  | checkStreamStatus failed =>
      cases hstep
      refine ⟨hcallbacks.eraseIf ?_, hticks.notNull, hticks.drained⟩
      exact fun htimer stream hstream => decide_eq_false (hkeeps htimer stream hstream)
  | destroy address =>
      cases hstep
      exact ⟨hcallbacks.congr rfl, hticks.notNull, hticks.drained⟩
  | emit client =>
      cases hstep
      exact ⟨hcallbacks, hticks.notNull, hticks.drained⟩
  | pvUpdateTick =>
      simp only at hstep
      split at hstep
      · rename_i hperiod
        cases hstep
        obtain ⟨hdone, hforwarder⟩ := hcallbacks.pvUpdateTick hticks hperiod hkeeps
        exact ⟨hcallbacks.congr (congrArg Forwarder.timerView hforwarder), hdone⟩
      · cases hstep
  | fakePVUpdateTick =>
      simp only at hstep
      split at hstep
      · rename_i hperiod
        cases hstep
        have hclients : ∀ client ∈ s.forwarder.fakePVUpdateCallbacks,
            client ∈ s.forwarder.clients := by
          rw [hcallbacks.fakePVUpdate hperiod]
          exact fun _ => id
        obtain ⟨hdone, hforwarder⟩ := hticks.executeFakePVUpdateCallbacks hclients
        exact ⟨hcallbacks.congr (congrArg Forwarder.timerView hforwarder), hdone⟩
      · cases hstep

end Runs

/-- In a run in which no stream is removed while there is a timer, and in which
`PVUpdateTimer` does not tick while there are streams with random clients, the
callbacks follow the streams. -/
theorem callbacks_follow_of_keepsCallbacks (opt : MainOpt) (s : TimedForwarder)
    (hreach : (timedSystem opt).ReachesVia (TimedForwarder.KeepsCallbacks opt) s) :
    CallbacksFollow opt s := by
  have hok : CallbacksOk opt s.forwarder ∧ TicksOk s := by
    apply hreach.invariant
    · rintro state rfl
      refine ⟨⟨fun _ => rfl, fun _ => rfl, ?_⟩, rfl, ?_⟩
      · simp
      · simp
    · intro state action next _ hok hkeeps hstep
      exact hok.1.step hok.2 hkeeps hstep
  obtain ⟨hcallbacks, hticks⟩ := hok
  refine ⟨hticks.notNull, ?_, ?_, hticks.drained⟩
  · intro hperiod client
    rw [hcallbacks.pvUpdate hperiod]
  · intro hperiod client
    rw [hcallbacks.fakePVUpdate hperiod]

instance (opt : MainOpt) : Decidable opt.hasTimer :=
  inferInstanceAs (Decidable (opt.periodMS > 0 ∨ opt.fakePVPeriodMS > 0))

instance (opt : MainOpt) (s : TimedForwarder) (action : TimedAction) :
    Decidable (s.KeepsCallbacks opt action) :=
  match action with
  | .stopChannel channel => inferInstanceAs (Decidable (opt.hasTimer →
      ∀ stream ∈ s.forwarder.streams, stream.channelInfo.channelName ≠ channel))
  | .clearStreams => inferInstanceAs (Decidable (opt.hasTimer → s.forwarder.streams = []))
  | .checkStreamStatus failed => inferInstanceAs (Decidable (opt.hasTimer →
      ∀ stream ∈ s.forwarder.streams, stream.address ∉ failed))
  | .pvUpdateTick =>
      inferInstanceAs (Decidable (opt.fakePVPeriodMS > 0 → s.forwarder.streams = []))
  | .addMapping _ _ => inferInstanceAs (Decidable True)
  | .destroy _ => inferInstanceAs (Decidable True)
  | .emit _ => inferInstanceAs (Decidable True)
  | .fakePVUpdateTick => inferInstanceAs (Decidable True)

/-- A channel with one converter. -/
def channelSettings (channel : String) : StreamSettings :=
  ⟨channel, "pva", [⟨"f142", "//kafka/pv_topic", ""⟩]⟩

/-- Two streams, of which one has a cached update when `PVUpdateTimer` ticks. -/
theorem twoStreamsTick_follow :
    ∃ s : TimedForwarder, s.enqueued = [(0, true)] ∧
      CallbacksFollow { periodMS := 100 } s := by
  obtain ⟨s, hreach, henqueued⟩ :=
    Transition.System.exists_reachesVia_of_run
      (T := timedSystem { periodMS := 100 })
      (TimedForwarder.KeepsCallbacks { periodMS := 100 }) (fun s => s.enqueued = [(0, true)])
      [.addMapping {} (channelSettings "pv1"), .emit 0, .pvUpdateTick,
        .addMapping {} (channelSettings "pv2"), .stopChannel "pv3"]
      rfl (by decide +kernel)
  exact ⟨s, henqueued, callbacks_follow_of_keepsCallbacks _ s hreach⟩

/-- With both timers, the first tick of `PVUpdateTimer` calls through a null
pointer; with one timer, the tick after a channel was stopped enqueues an update
for the stream that was removed. -/
theorem tick_not_follow :
    (¬ ∀ (opt : MainOpt) (s : TimedForwarder), (timedSystem opt).Reachable s →
      s.nullCall = false) ∧
    ¬ ∀ (opt : MainOpt) (s : TimedForwarder), (timedSystem opt).Reachable s →
      CallbacksFollow opt s := by
  constructor
  · intro hall
    obtain ⟨s, hreach, hnull⟩ :=
      Transition.System.exists_reachable_of_run
        (T := timedSystem { periodMS := 100, fakePVPeriodMS := 100 })
        (fun s => s.nullCall = true)
        [.addMapping {} (channelSettings "pv1"), .pvUpdateTick] rfl (by decide +kernel)
    cases hnull.symm.trans (hall _ s hreach)
  · intro hall
    obtain ⟨s, hreach, henqueued⟩ :=
      Transition.System.exists_reachable_of_run
        (T := timedSystem { periodMS := 100 }) (fun s => (0, false) ∈ s.enqueued)
        [.addMapping {} (channelSettings "pv1"), .emit 0, .stopChannel "pv1", .pvUpdateTick]
        rfl (by decide +kernel)
    cases (hall _ s hreach).drained _ henqueued

end EpicsToKafka
