/-
The EPICS monitor of one `EpicsClientMonitor`.  State changes of the channel
create and destroy monitors, one change at a time; `stop` may come from another
thread between any two steps of a change.
-/
import EpicsToKafka.Transition
import Mathlib.Data.List.Basic

namespace EpicsToKafka.EpicsClient

inductive ChannelConnectionState where
  | unknown
  | neverConnected
  | connected
  | disconnected
  | destroyed
deriving Repr, DecidableEq

/-- The pointers of `EpicsClientMonitorImpl`.  Monitors are numbered in the
order of their creation; `created` and `destroyed` are history. -/
structure EpicsClientMonitorImpl where
  channel : Bool
  monitorRequester : Bool := false
  monitor : Option Nat := none
  created : Nat := 0
  destroyed : List Nat := []
deriving Repr, DecidableEq

namespace EpicsClientMonitorImpl

/-- `monitor->stop()` and `monitor->destroy()`. -/
def destroyMonitor (impl : EpicsClientMonitorImpl) : EpicsClientMonitorImpl :=
  { impl with destroyed := impl.destroyed ++ impl.monitor.toList }

def monitoringStop (impl : EpicsClientMonitorImpl) : EpicsClientMonitorImpl :=
  { impl.destroyMonitor with monitorRequester := false, monitor := none }

/-- The return code and the new pointers; `succeeds` says whether
`createMonitor` returns a monitor. -/
def monitoringStart (impl : EpicsClientMonitorImpl) (succeeds : Bool) :
    Int × EpicsClientMonitorImpl :=
  if impl.channel = false then (-1, impl)
  else
    let impl := if impl.monitor.isSome then impl.monitoringStop else impl
    let impl := { impl with monitorRequester := true }
    if succeeds then
      (0, { impl with monitor := some impl.created, created := impl.created + 1 })
    else (-2, { impl with monitor := none })

/-- Created monitors that were not destroyed. -/
def live (impl : EpicsClientMonitorImpl) : List Nat :=
  (List.range impl.created).filter fun id => id ∉ impl.destroyed

end EpicsClientMonitorImpl

/-- What is written to the connection status topic. -/
structure EpicsConnectionInfo where
  sourceName : String
  serviceId : String
  timestamp : Nat
  type : Option ChannelConnectionState
deriving Repr, DecidableEq

/-- A change whose handling has run `monitoringStart` or `monitoringStop`, with
the code these returned. -/
structure Handled where
  state : ChannelConnectionState
  code : Int
deriving Repr, DecidableEq

/-- One client.  `pending` is a change that was assigned and has not reached
the monitor yet, `publishing` one whose status message is still to be sent.
`lastHandled` and `stopped` are history. -/
structure Client where
  impl : EpicsClientMonitorImpl
  connectionState : ChannelConnectionState := .neverConnected
  connectionStatusProducer : Bool := false
  channelName : String := ""
  serviceID : String := ""
  published : List EpicsConnectionInfo := []
  pending : Option ChannelConnectionState := none
  publishing : Option ChannelConnectionState := none
  lastHandled : Option Handled := none
  stopped : Bool := false
deriving Repr, DecidableEq

namespace Client

/-- `handleConnectionStateChange` stores the new state. -/
def assignState (client : Client) (state : ChannelConnectionState) : Client :=
  { client with connectionState := state }

/-- `handleConnectionStateChange` starts or stops the monitor. -/
def updateMonitor (client : Client) (state : ChannelConnectionState)
    (succeeds : Bool) : Client :=
  if state = .connected then
    let (code, impl) := client.impl.monitoringStart succeeds
    { client with impl, lastHandled := some ⟨state, code⟩ }
  else
    { client with
      impl := client.impl.monitoringStop
      lastHandled := some ⟨state, 0⟩ }

/-- `handleConnectionStateChange` publishes the change; the schema has no event
type for an unknown state. -/
def publishState (client : Client) (state : ChannelConnectionState) (now : Nat) :
    Client :=
  if client.connectionStatusProducer then
    { client with
      published := client.published ++ [{
        sourceName := client.channelName
        serviceId := client.serviceID
        timestamp := now
        type := if state = .unknown then none else some state }] }
  else client

/-- `EpicsClientMonitorImpl::stop`.  Destroying the channel may call back with
`DESTROYED` on the same thread, inside the recursive mutex. -/
def stop (client : Client) (notified : Option Nat) : Client :=
  let client := { client with impl := client.impl.destroyMonitor }
  let client := match client.impl.channel, notified with
    | true, some now =>
        ((client.assignState .destroyed).updateMonitor .destroyed false).publishState
          .destroyed now
    | _, _ => client
  { client with
    impl := { client.impl with monitor := none, channel := false }
    stopped := true }

end Client

inductive Action where
  | assign (state : ChannelConnectionState)
  | monitor (succeeds : Bool)
  | publish (now : Nat)
  | stop (notified : Option Nat)
deriving Repr, DecidableEq

/-- A change is handled in three steps and changes are handled one at a time;
a stop may come in between. -/
def Client.step (client : Client) : Action → Option Client
  | .assign state =>
      if client.pending = none ∧ client.publishing = none then
        some { client.assignState state with pending := some state }
      else none
  | .monitor succeeds =>
      client.pending.map fun state =>
        { client.updateMonitor state succeeds with
          pending := none
          publishing := some state }
  | .publish now =>
      client.publishing.map fun state =>
        { client.publishState state now with publishing := none }
  | .stop notified => some (client.stop notified)

/-- The monitor pointer is the one monitor that was not destroyed, and needs a
channel. -/
structure ImplOk (impl : EpicsClientMonitorImpl) : Prop where
  monitor_lt : ∀ id, impl.monitor = some id → id < impl.created
  destroyed_lt : ∀ id ∈ impl.destroyed, id < impl.created
  kept : ∀ id, id < impl.created →
    (id ∉ impl.destroyed ↔ impl.monitor = some id)
  channel : impl.monitor.isSome = true → impl.channel = true

section Impl

variable {impl impl' : EpicsClientMonitorImpl}

/-- The monitor, if there is one, is destroyed and its pointer reset. -/
theorem ImplOk.dropped (hok : ImplOk impl) (hcreated : impl'.created = impl.created)
    (hmonitor : impl'.monitor = none)
    (hdestroyed : ∀ id, id ∈ impl'.destroyed ↔
      id ∈ impl.destroyed ∨ impl.monitor = some id) : ImplOk impl' where
  monitor_lt id hid := by rw [hmonitor] at hid; cases hid
  destroyed_lt id hid := by
    rw [hcreated]
    rcases (hdestroyed id).mp hid with hid | hid
    · exact hok.destroyed_lt id hid
    · exact hok.monitor_lt id hid
  kept id hid := by
    have hkept := hok.kept id (hcreated ▸ hid)
    rw [hdestroyed, hmonitor]
    simpa using fun hnot => hkept.mp hnot
  channel hsome := by simp [hmonitor] at hsome

theorem mem_destroyMonitor (id : Nat) :
    id ∈ impl.destroyMonitor.destroyed ↔
      id ∈ impl.destroyed ∨ impl.monitor = some id := by
  simp [EpicsClientMonitorImpl.destroyMonitor]

theorem ImplOk.monitoringStop (hok : ImplOk impl) : ImplOk impl.monitoringStop :=
  hok.dropped rfl rfl mem_destroyMonitor

/-- A monitor is created while there is none. -/
theorem ImplOk.create (hok : ImplOk impl) (hnone : impl.monitor = none)
    (hchannel : impl.channel = true) :
    ImplOk { impl with
      monitorRequester := true, monitor := some impl.created
      created := impl.created + 1 } where
  monitor_lt id hid := by
    cases hid
    exact Nat.lt_succ_self _
  destroyed_lt id hid := Nat.lt_succ_of_lt (hok.destroyed_lt id hid)
  kept id hid := by
    by_cases hnew : id = impl.created
    · have hnot : id ∉ impl.destroyed := fun hmem =>
        absurd (hok.destroyed_lt id hmem) (by omega)
      simp [hnew, hnew ▸ hnot]
    · have hlt : id < impl.created := by
        have : id < impl.created + 1 := hid
        omega
      have hkept := hok.kept id hlt
      rw [hnone] at hkept
      simpa [Ne.symm hnew] using hkept
  channel _ := hchannel

theorem ImplOk.resetRequester (hok : ImplOk impl) (hnone : impl.monitor = none) :
    ImplOk { impl with monitorRequester := true, monitor := none } where
  monitor_lt _ hid := nomatch hid
  destroyed_lt := hok.destroyed_lt
  kept id hid := hnone ▸ hok.kept id hid
  channel hsome := nomatch hsome

/-- A monitor that is still there when monitoring starts is replaced. -/
theorem ImplOk.cleared (hok : ImplOk impl) :
    ∃ cleared : EpicsClientMonitorImpl,
      (if impl.monitor.isSome then impl.monitoringStop else impl) = cleared ∧
        ImplOk cleared ∧ cleared.monitor = none ∧ cleared.channel = impl.channel := by
  refine ⟨_, rfl, ?_⟩
  cases hmonitor : impl.monitor with
  | none => exact ⟨hok, hmonitor, rfl⟩
  | some id => exact ⟨hok.monitoringStop, rfl, rfl⟩

/-- What `monitoringStart` returns tells whether there is a monitor now. -/
structure Started (impl : EpicsClientMonitorImpl) (result : Int × EpicsClientMonitorImpl) :
    Prop where
  ok : ImplOk result.2
  channel : result.2.channel = impl.channel
  monitor : result.1 = 0 → result.2.monitor.isSome = true

theorem ImplOk.monitoringStart (hok : ImplOk impl) (succeeds : Bool) :
    Started impl (impl.monitoringStart succeeds) := by
  obtain ⟨cleared, hcleared, hclear, hnone, hchannel⟩ := hok.cleared
  unfold EpicsClientMonitorImpl.monitoringStart
  simp only [hcleared]
  split
  · exact ⟨hok, rfl, fun hcode => absurd hcode (show (-1 : Int) ≠ 0 by decide)⟩
  · rename_i hsome
    split
    · refine ⟨hclear.create hnone ?_, hchannel, fun _ => rfl⟩
      rw [hchannel]
      simpa using hsome
    · exact ⟨hclear.resetRequester hnone, hchannel,
        fun hcode => absurd hcode (show (-2 : Int) ≠ 0 by decide)⟩

end Impl

structure ClientOk (client : Client) : Prop where
  impl : ImplOk client.impl
  stopped : client.stopped = true → client.impl.channel = false
  assigned : ∀ state, client.pending = some state → client.stopped = false →
    client.connectionState = state
  connected : client.pending = none → client.impl.monitor.isSome = true →
    client.connectionState = .connected
  succeeded : client.lastHandled = some ⟨.connected, 0⟩ → client.stopped = false →
    client.impl.monitor.isSome = true

variable {client next : Client}

theorem ClientOk.not_stopped (hok : ClientOk client)
    (hmonitor : client.impl.monitor.isSome = true) : client.stopped = false := by
  by_contra hstopped
  have hchannel := hok.stopped (by simpa using hstopped)
  rw [hok.impl.channel hmonitor] at hchannel
  cases hchannel

@[simp] theorem publishState_impl (client : Client) (state : ChannelConnectionState)
    (now : Nat) : (client.publishState state now).impl = client.impl := by
  unfold Client.publishState
  split <;> rfl

/-- Publishing a change only writes the status message. -/
theorem ClientOk.publishState (hok : ClientOk client) (state : ChannelConnectionState)
    (now : Nat) :
    ClientOk { client.publishState state now with publishing := none } := by
  unfold Client.publishState
  split
  · exact ⟨hok.impl, hok.stopped, hok.assigned, hok.connected, hok.succeeded⟩
  · exact ⟨hok.impl, hok.stopped, hok.assigned, hok.connected, hok.succeeded⟩

theorem ClientOk.updateMonitor (hok : ClientOk client)
    {state : ChannelConnectionState} (hpending : client.pending = some state)
    (succeeds : Bool) :
    ClientOk { client.updateMonitor state succeeds with
      pending := none, publishing := some state } := by
  unfold Client.updateMonitor
  split
  · rename_i hconnected
    obtain ⟨himpl, hchannel, hmonitor⟩ := hok.impl.monitoringStart succeeds
    refine ⟨himpl, fun hstopped => hchannel.trans (hok.stopped hstopped), nofun, ?_, ?_⟩
    · intro _ hsome
      -- a monitor needs a channel, so nobody has stopped the client
      have hstopped : client.stopped = false := by
        by_contra hstopped
        have hgone := hok.stopped (by simpa using hstopped)
        rw [← hchannel, himpl.channel hsome] at hgone
        cases hgone
      exact (hok.assigned state hpending hstopped).trans hconnected
    · intro hlast _
      have hcode : (client.impl.monitoringStart succeeds).1 = 0 := by
        simpa using congrArg Handled.code (Option.some.inj hlast)
      exact hmonitor hcode
  · rename_i hother
    refine ⟨hok.impl.monitoringStop, hok.stopped, nofun, fun _ hsome => ?_, fun hlast => ?_⟩
    · cases hsome
    · exact absurd (congrArg Handled.state (Option.some.inj hlast)) hother

/-- A callback during `stop` destroys the monitor once more; nothing else
happens to the monitors. -/
theorem stop_impl (client : Client) (notified : Option Nat) :
    (client.stop notified).impl.created = client.impl.created ∧
      ∀ id, id ∈ (client.stop notified).impl.destroyed ↔
        id ∈ client.impl.destroyed ∨ client.impl.monitor = some id := by
  unfold Client.stop
  simp only
  split
  · simp only [publishState_impl, Client.updateMonitor, reduceCtorEq, if_false]
    refine ⟨rfl, fun id => ?_⟩
    simp [Client.assignState, EpicsClientMonitorImpl.monitoringStop,
      EpicsClientMonitorImpl.destroyMonitor]
  · exact ⟨rfl, mem_destroyMonitor⟩

theorem ClientOk.stop (hok : ClientOk client) (notified : Option Nat) :
    ClientOk (client.stop notified) := by
  obtain ⟨hcreated, hdestroyed⟩ := stop_impl client notified
  refine ⟨hok.impl.dropped hcreated rfl hdestroyed, fun _ => rfl, ?_, ?_, ?_⟩
  · intro state _ hstopped
    cases hstopped
  · intro _ hsome
    cases hsome
  · intro _ hstopped
    cases hstopped

theorem ClientOk.step {action : Action} (hok : ClientOk client)
    (hstep : client.step action = some next) : ClientOk next := by
  cases action with
  | assign state =>
      simp only [Client.step] at hstep
      split at hstep
      · cases hstep
        refine ⟨hok.impl, hok.stopped, ?_, nofun, hok.succeeded⟩
        intro other hother _
        exact Option.some.inj hother
      · cases hstep
  | monitor succeeds =>
      obtain ⟨state, hpending, rfl⟩ := Option.map_eq_some_iff.mp hstep
      exact hok.updateMonitor hpending succeeds
  | publish now =>
      obtain ⟨state, -, rfl⟩ := Option.map_eq_some_iff.mp hstep
      exact hok.publishState state now
  | stop notified =>
      cases hstep
      exact hok.stop notified

end EpicsToKafka.EpicsClient
