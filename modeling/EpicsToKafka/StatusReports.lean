/-
`StatusReporter`: the status documents of the forwarder and the thread that
publishes them.  A report lists the streams at one moment and is followed by
a removal of the streams whose client has failed; other threads change the
streams at any time in between.  Taking the statuses and removing streams
are one step each, as both hold `StreamsMutex`.
-/
import EpicsToKafka.ConfigParser
import EpicsToKafka.MonitorLifecycle
import EpicsToKafka.Transition
import EpicsToKafka.IoContext

namespace EpicsToKafka

open IoContext

/-- `EpicsClient::toString`. -/
def EpicsClient.ChannelConnectionState.toString : EpicsClient.ChannelConnectionState → String
  | .unknown => "UNKNOWN"
  | .neverConnected => "NEVER_CONNECTED"
  | .connected => "CONNECTED"
  | .disconnected => "DISCONNECTED"
  | .destroyed => "DESTROYED"

/-- What a `ConversionPath` reports. -/
structure ConverterStatus where
  schema : String
  broker : String
  topic : String
deriving Repr, DecidableEq

/-- What a `Stream` reports, and the `status` of its client.  `client` is the
state of a monitor; a client that generates updates has none. -/
structure StreamStatus where
  address : Nat
  channelName : String
  client : Option EpicsClient.ChannelConnectionState
  queueSize : Nat
  converters : List ConverterStatus
  status : Int
deriving Repr, DecidableEq

/-- `ConversionPath::status_json`.  The keys of an object are sorted. -/
def ConverterStatus.statusJson (x : ConverterStatus) : Json :=
  .object [("broker", .string x.broker), ("schema", .string x.schema),
    ("topic", .string x.topic)]

/-- `getConnectionState` of the client. -/
def StreamStatus.connectionState (x : StreamStatus) : String :=
  match x.client with
  | some state => state.toString
  | none => "EpicsClientRandom"

/-- `Stream::getStatusJson`.  Nothing is ever put into `SeqDataEmitted`, so
there is no `emitted_max`. -/
def StreamStatus.getStatusJson (x : StreamStatus) : Json :=
  .object [("channel_name", .string x.channelName),
    ("converters", .array (x.converters.map ConverterStatus.statusJson)),
    ("epics_connection_status", .string x.connectionState),
    ("queue_size", .number (ToString.toString x.queueSize))]

/-- The document of one report. -/
def statusDocument (serviceID : String) (streams : List StreamStatus) : Json :=
  .object [("service_id", .string serviceID),
    ("streams", .array (streams.map StreamStatus.getStatusJson))]

/-- Where the thread stands in `reportStatus`, named after its next call. -/
inductive ReportPc where
  | entered (cancelled : Bool)
  | getStreamStatuses
  | checkStreamStatus (status : Json)
  | produce (status : Json)
  | expiresAt
  | asyncWait

inductive ReporterOwner where
  | running
  | joining
  | destroyed
deriving Repr, DecidableEq

/-- The reporter and the streams it reports.  `reports` and `produced` are
history: the streams that each report found, and the documents handed to
Kafka. -/
structure StatusReporter where
  io : Context ReportPc
  owner : ReporterOwner
  streams : List StreamStatus
  nextAddress : Nat
  reports : List (List StreamStatus)
  produced : List Json

namespace StatusReporter

/-- The constructor arms the timer and starts the thread. -/
def initial : StatusReporter where
  io := (Context.initial.asyncWait).spawn
  owner := .running
  streams := []
  nextAddress := 0
  reports := []
  produced := []

/-- One step of the thread.  Without a topic for the status nothing is
reported, and the timer is not armed again. -/
def reportStatus (serviceID : String) (hasTopic : Bool) (s : StatusReporter) :
    Option StatusReporter :=
  match s.io.runner with
  | .notStarted => none
  | .returned => none
  | .polling => (s.io.poll .entered).map fun io => { s with io }
  | .handling (.entered true) => some { s with io := s.io.finish }
  | .handling (.entered false) =>
      some { s with io := if hasTopic then s.io.goto .getStreamStatuses else s.io.finish }
  | .handling .getStreamStatuses =>
      some { s with
        io := s.io.goto (.checkStreamStatus (statusDocument serviceID s.streams))
        reports := s.reports ++ [s.streams] }
  | .handling (.checkStreamStatus status) =>
      some { s with
        io := s.io.goto (.produce status)
        streams := s.streams.filter fun x => ¬ x.status < 0 }
  | .handling (.produce status) =>
      some { s with io := s.io.goto .expiresAt, produced := s.produced ++ [status] }
  | .handling .expiresAt => some { s with io := s.io.cancel.goto .asyncWait }
  | .handling .asyncWait => some { s with io := s.io.asyncWait.finish }

/-- `~StatusReporter`: `IO.stop()`, then the thread is joined. -/
def destroy (s : StatusReporter) : Option StatusReporter :=
  match s.owner with
  | .running => some { s with owner := .joining, io := s.io.stop }
  | .joining => if s.io.runner.hasReturned then some { s with owner := .destroyed } else none
  | .destroyed => none

/-- Apply a change to the stream at an address. -/
def modify (s : StatusReporter) (address : Nat) (change : StreamStatus → StreamStatus) :
    StatusReporter :=
  { s with streams := s.streams.map fun x => if x.address = address then change x else x }

inductive Action where
  | report
  | expire
  | destroy
  | add (channelName : String) (client : Option EpicsClient.ChannelConnectionState)
  | addConverter (address : Nat) (converter : ConverterStatus)
  | connection (address : Nat) (client : Option EpicsClient.ChannelConnectionState)
  | queueSize (address : Nat) (size : Nat)
  | errorInEpics (address : Nat)
  | stopChannel (channelName : String)
  | clearStreams
deriving Repr, DecidableEq

def step (serviceID : String) (hasTopic : Bool) (s : StatusReporter) :
    Action → Option StatusReporter
  | .report => s.reportStatus serviceID hasTopic
  | .expire => s.io.expire.map fun io => { s with io }
  | .destroy => s.destroy
  | .add channelName client =>
      some { s with
        streams := s.streams ++ [⟨s.nextAddress, channelName, client, 0, [], 0⟩]
        nextAddress := s.nextAddress + 1 }
  | .addConverter address converter =>
      some (s.modify address fun x => { x with converters := x.converters ++ [converter] })
  | .connection address client => some (s.modify address fun x => { x with client })
  | .queueSize address queueSize => some (s.modify address fun x => { x with queueSize })
  | .errorInEpics address => some (s.modify address fun x => { x with status := -1 })
  | .stopChannel channelName =>
      some { s with streams := s.streams.filter fun x => x.channelName ≠ channelName }
  | .clearStreams => some { s with streams := [] }

end StatusReporter

namespace StatusReporter

variable {serviceID : String} {hasTopic : Bool} {s s' : StatusReporter}

/-- The document the thread has still to produce. -/
def inHand (s : StatusReporter) : List Json :=
  match s.io.runner with
  | .handling (.checkStreamStatus status) => [status]
  | .handling (.produce status) => [status]
  | _ => []

/-- The thread is about to remove the streams that have failed. -/
def checking (s : StatusReporter) : Bool :=
  match s.io.runner with
  | .handling (.checkStreamStatus _) => true
  | _ => false

/-- What one step can do to the streams and the reports. -/
inductive Move (serviceID : String) (hasTopic : Bool) (s : StatusReporter) :
    StatusReporter → Prop
  | timer {io : Context ReportPc} {owner : ReporterOwner}
      (hrunner : io.runner = s.io.runner) :
      Move serviceID hasTopic s { s with io, owner }
  | thread {io : Context ReportPc} (hbefore : s.inHand = [])
      (hafter : inHand { s with io } = []) : Move serviceID hasTopic s { s with io }
  | snapshot (hrunner : s.io.runner = .handling .getStreamStatuses) :
      Move serviceID hasTopic s { s with
        io := s.io.goto (.checkStreamStatus (statusDocument serviceID s.streams))
        reports := s.reports ++ [s.streams] }
  | check {status : Json} (hrunner : s.io.runner = .handling (.checkStreamStatus status)) :
      Move serviceID hasTopic s { s with
        io := s.io.goto (.produce status)
        streams := s.streams.filter fun x => ¬ x.status < 0 }
  | produce {status : Json} (hrunner : s.io.runner = .handling (.produce status)) :
      Move serviceID hasTopic s { s with
        io := s.io.goto .expiresAt, produced := s.produced ++ [status] }
  | add {channelName : String} {client : Option EpicsClient.ChannelConnectionState} :
      Move serviceID hasTopic s { s with
        streams := s.streams ++ [⟨s.nextAddress, channelName, client, 0, [], 0⟩]
        nextAddress := s.nextAddress + 1 }
  | modify {address : Nat} {change : StreamStatus → StreamStatus}
      (haddress : ∀ x, (change x).address = x.address)
      (hstatus : ∀ x, x.status < 0 → (change x).status < 0) :
      Move serviceID hasTopic s (s.modify address change)
  | remove {keep : StreamStatus → Bool} :
      Move serviceID hasTopic s { s with streams := s.streams.filter keep }

theorem reportStatus_move (hstep : s.reportStatus serviceID hasTopic = some s') :
    Move serviceID hasTopic s s' := by
  unfold reportStatus at hstep
  cases hrunner : s.io.runner with
  | notStarted | returned => simp [hrunner] at hstep
  | polling =>
      simp only [hrunner, Option.map_eq_some_iff] at hstep
      obtain ⟨io, hpoll, rfl⟩ := hstep
      rcases Context.poll_cases hpoll with ⟨rfl, -⟩ | ⟨cancelled, due, -, -, rfl⟩
      · exact .thread (by simp [inHand, hrunner]) rfl
      · exact .thread (by simp [inHand, hrunner]) rfl
  | handling pc =>
      cases pc with
      | entered cancelled =>
          cases cancelled with
          | true =>
              simp only [hrunner] at hstep
              cases hstep
              exact .thread (by simp [inHand, hrunner]) rfl
          | false =>
              simp only [hrunner] at hstep
              cases hstep
              refine .thread (by simp [inHand, hrunner]) ?_
              cases hasTopic <;> rfl
      | getStreamStatuses =>
          simp only [hrunner] at hstep
          cases hstep
          exact .snapshot hrunner
      | checkStreamStatus status =>
          simp only [hrunner] at hstep
          cases hstep
          exact .check hrunner
      | produce status =>
          simp only [hrunner] at hstep
          cases hstep
          exact .produce hrunner
      | expiresAt | asyncWait =>
          simp only [hrunner] at hstep
          cases hstep
          exact .thread (by simp [inHand, hrunner]) rfl

theorem step_move {action : Action} (hstep : s.step serviceID hasTopic action = some s') :
    Move serviceID hasTopic s s' := by
  cases action with
  | report => exact reportStatus_move hstep
  | expire =>
      obtain ⟨io, hexpire, rfl⟩ := Option.map_eq_some_iff.mp hstep
      unfold Context.expire at hexpire
      split at hexpire
      · cases hexpire
        exact .timer rfl
      · cases hexpire
  | destroy =>
      simp only [step, destroy] at hstep
      split at hstep
      · cases hstep
        exact .timer rfl
      · split at hstep
        · cases hstep
          exact .timer rfl
        · cases hstep
      · cases hstep
  | add channelName client => cases hstep; exact .add
  | addConverter address converter =>
      cases hstep
      exact .modify (fun _ => rfl) (fun _ hfailed => hfailed)
  | connection address client =>
      cases hstep
      exact .modify (fun _ => rfl) (fun _ hfailed => hfailed)
  | queueSize address size =>
      cases hstep
      exact .modify (fun _ => rfl) (fun _ hfailed => hfailed)
  | errorInEpics address =>
      cases hstep
      exact .modify (fun _ => rfl) (fun _ _ => by simp)
  | stopChannel channelName => cases hstep; exact .remove
  | clearStreams =>
      cases hstep
      simpa using @Move.remove serviceID hasTopic s fun _ => false

/-- The report lists the stream at the address as one whose client has
failed. -/
def showsFailed (address : Nat) (report : List StreamStatus) : Bool :=
  report.any fun x => x.address = address ∧ x.status < 0

theorem showsFailed_iff {address : Nat} {report : List StreamStatus} :
    showsFailed address report = true ↔
      ∃ x ∈ report, x.address = address ∧ x.status < 0 := by
  simp [showsFailed]

/-- A stream that was reported as failed is only left in `Streams` until the
check that follows. -/
structure ReportsOk (serviceID : String) (s : StatusReporter) : Prop where
  fresh : ∀ x ∈ s.streams, x.address < s.nextAddress
  distinct : ∀ x ∈ s.streams, ∀ y ∈ s.streams, x.address = y.address → x = y
  reported : ∀ report ∈ s.reports, ∀ x ∈ report, x.address < s.nextAddress
  produced : s.produced ++ s.inHand = s.reports.map (statusDocument serviceID)
  once : ∀ address, s.reports.countP (showsFailed address) ≤ 1
  gone : ∀ address, ∀ report ∈ s.reports, showsFailed address report = true →
    ∀ x ∈ s.streams, x.address = address → s.checking = true ∧ x.status < 0

namespace ReportsOk

theorem initial : ReportsOk serviceID StatusReporter.initial := by
  constructor <;> simp [StatusReporter.initial, inHand, Context.spawn]

/-- A step that leaves streams and reports alone. -/
theorem keeps (hok : ReportsOk serviceID s) (hstreams : s'.streams = s.streams)
    (hnext : s'.nextAddress = s.nextAddress) (hreports : s'.reports = s.reports)
    (hproduced : s'.produced ++ s'.inHand = s.produced ++ s.inHand)
    (hchecking : s.checking = true → s'.checking = true) : ReportsOk serviceID s' where
  fresh := by rw [hstreams, hnext]; exact hok.fresh
  distinct := by rw [hstreams]; exact hok.distinct
  reported := by rw [hreports, hnext]; exact hok.reported
  produced := by rw [hproduced, hreports]; exact hok.produced
  once := by rw [hreports]; exact hok.once
  gone := by
    rw [hreports, hstreams]
    intro address report hreport hshows x hx haddress
    exact (hok.gone address report hreport hshows x hx haddress).imp_left hchecking

theorem checking_of_inHand (hnone : s.inHand = []) : s.checking = false := by
  unfold checking
  split
  · rename_i hrunner
    simp [inHand, hrunner] at hnone
  · rfl

/-- Outside the check nothing that was reported as failed is left. -/
theorem not_reported (hok : ReportsOk serviceID s) (hchecking : s.checking = false)
    {x : StreamStatus} (hx : x ∈ s.streams) :
    s.reports.countP (showsFailed x.address) = 0 := by
  rw [List.countP_eq_zero]
  intro report hreport hshows
  have hgone := (hok.gone x.address report hreport hshows x hx rfl).1
  rw [hchecking] at hgone
  cases hgone

theorem snapshot (hok : ReportsOk serviceID s)
    (hrunner : s.io.runner = .handling .getStreamStatuses) :
    ReportsOk serviceID { s with
      io := s.io.goto (.checkStreamStatus (statusDocument serviceID s.streams))
      reports := s.reports ++ [s.streams] } := by
  have hchecking : s.checking = false := by simp [checking, hrunner]
  refine ⟨hok.fresh, hok.distinct, ?_, ?_, ?_, ?_⟩
  · intro report hreport
    rcases List.mem_append.mp hreport with hold | hnew
    · exact hok.reported report hold
    · rw [List.mem_singleton.mp hnew]
      exact hok.fresh
  · have hproduced := hok.produced
    simp only [inHand, hrunner, List.append_nil] at hproduced
    simp [inHand, Context.goto, hproduced]
  · intro address
    rw [List.countP_append, List.countP_singleton]
    split
    · rename_i hshows
      obtain ⟨x, hx, rfl, -⟩ := showsFailed_iff.mp hshows
      simp [hok.not_reported hchecking hx]
    · exact hok.once address
  · intro address report hreport hshows x hx haddress
    refine ⟨rfl, ?_⟩
    rcases List.mem_append.mp hreport with hold | hnew
    · have hgone := (hok.gone address report hold hshows x hx haddress).1
      rw [hchecking] at hgone
      cases hgone
    · rw [List.mem_singleton.mp hnew] at hshows
      obtain ⟨y, hy, hsame, hfailed⟩ := showsFailed_iff.mp hshows
      rw [hok.distinct x hx y hy (haddress.trans hsame.symm)]
      exact hfailed

theorem move (hok : ReportsOk serviceID s) (hmove : Move serviceID hasTopic s s') :
    ReportsOk serviceID s' := by
  cases hmove with
  | timer hrunner =>
      refine hok.keeps rfl rfl rfl ?_ ?_
      · simp only [inHand, hrunner]
      · simp [checking, hrunner]
  | thread hbefore hafter =>
      refine hok.keeps rfl rfl rfl (by rw [hbefore, hafter]) ?_
      rw [checking_of_inHand hbefore]
      exact fun hfalse => absurd hfalse Bool.false_ne_true
  | snapshot hrunner => exact hok.snapshot hrunner
  | check hrunner =>
      refine ⟨?_, ?_, hok.reported, ?_, hok.once, ?_⟩
      · exact fun x hx => hok.fresh x (List.mem_of_mem_filter hx)
      · intro x hx y hy
        exact hok.distinct x (List.mem_of_mem_filter hx) y (List.mem_of_mem_filter hy)
      · have hproduced := hok.produced
        simp only [inHand, hrunner] at hproduced
        simpa [inHand, Context.goto] using hproduced
      · intro address report hreport hshows x hx haddress
        obtain ⟨hmem, hhealthy⟩ := List.mem_filter.mp hx
        have hfailed := (hok.gone address report hreport hshows x hmem haddress).2
        simp [hfailed] at hhealthy
  | @produce status hrunner =>
      refine hok.keeps rfl rfl rfl ?_ ?_
      · simp [inHand, Context.goto, hrunner]
      · simp [checking, hrunner]
  | add =>
      refine ⟨?_, ?_, ?_, hok.produced, hok.once, ?_⟩
      · intro x hx
        rcases List.mem_append.mp hx with hold | hnew
        · exact Nat.lt_succ_of_lt (hok.fresh x hold)
        · rw [List.mem_singleton.mp hnew]
          exact Nat.lt_succ_self _
      · intro x hx y hy hsame
        rcases List.mem_append.mp hx with hx | hx <;> rcases List.mem_append.mp hy with hy | hy
        · exact hok.distinct x hx y hy hsame
        · rw [List.mem_singleton.mp hy] at hsame
          exact absurd hsame (Nat.ne_of_lt (hok.fresh x hx))
        · rw [List.mem_singleton.mp hx] at hsame
          exact absurd hsame.symm (Nat.ne_of_lt (hok.fresh y hy))
        · rw [List.mem_singleton.mp hx, List.mem_singleton.mp hy]
      · exact fun report hreport x hx => Nat.lt_succ_of_lt (hok.reported report hreport x hx)
      · intro address report hreport hshows x hx haddress
        rcases List.mem_append.mp hx with hold | hnew
        · exact hok.gone address report hreport hshows x hold haddress
        · -- the new stream has an address that was never reported
          obtain ⟨y, hy, hsame, -⟩ := showsFailed_iff.mp hshows
          have hlt := hok.reported report hreport y hy
          rw [List.mem_singleton.mp hnew] at haddress
          simp only at haddress
          omega
  | @modify address change haddress hstatus =>
      have hmodified : ∀ {x}, x ∈ (s.modify address change).streams →
          ∃ y ∈ s.streams, x.address = y.address ∧ (y.status < 0 → x.status < 0) ∧
            x = if y.address = address then change y else y := by
        intro x hx
        obtain ⟨y, hy, rfl⟩ := List.mem_map.mp hx
        refine ⟨y, hy, ?_, ?_, rfl⟩
        · split
          · exact haddress y
          · rfl
        · split
          · exact hstatus y
          · exact id
      refine ⟨?_, ?_, hok.reported, hok.produced, hok.once, ?_⟩
      · intro x hx
        obtain ⟨y, hy, hsame, -, -⟩ := hmodified hx
        rw [hsame]
        exact hok.fresh y hy
      · intro x hx z hz heq
        obtain ⟨y, hy, hsame, -, hxy⟩ := hmodified hx
        obtain ⟨u, hu, hsame', -, hzu⟩ := hmodified hz
        rw [hxy, hzu, hok.distinct y hy u hu (by omega)]
      · intro failed report hreport hshows x hx heq
        obtain ⟨y, hy, hsame, hworse, -⟩ := hmodified hx
        exact (hok.gone failed report hreport hshows y hy (hsame ▸ heq)).imp_right hworse
  | remove =>
      refine ⟨?_, ?_, hok.reported, hok.produced, hok.once, ?_⟩
      · exact fun x hx => hok.fresh x (List.mem_of_mem_filter hx)
      · intro x hx y hy
        exact hok.distinct x (List.mem_of_mem_filter hx) y (List.mem_of_mem_filter hy)
      · intro address report hreport hshows x hx
        exact hok.gone address report hreport hshows x (List.mem_of_mem_filter hx)

end ReportsOk

/-- The steps the thread makes until it returns, once the loop is stopped. -/
def remainingSteps (s : StatusReporter) : Nat :=
  match s.io.runner with
  | .notStarted | .returned => 0
  | .polling => 1
  | .handling .asyncWait => 2
  | .handling .expiresAt => 3
  | .handling (.produce _) => 4
  | .handling (.checkStreamStatus _) => 5
  | .handling .getStreamStatuses => 6
  | .handling (.entered _) => 7

/-- Whether the handler that runs may still hand over its document. -/
def pending (s : StatusReporter) : Nat :=
  match s.io.runner with
  | .handling (.entered _) | .handling .getStreamStatuses | .handling (.checkStreamStatus _)
  | .handling (.produce _) => 1
  | _ => 0

/-- What a step of the thread does to a loop that is stopped. -/
theorem reportStatus_stopped (hstep : s.reportStatus serviceID hasTopic = some s')
    (hstopped : s.io.stopped = true) :
    s'.owner = s.owner ∧ s'.io.stopped = true ∧ s'.remainingSteps + 1 ≤ s.remainingSteps ∧
      s'.produced.length + s'.pending ≤ s.produced.length + s.pending := by
  unfold reportStatus at hstep
  cases hrunner : s.io.runner with
  | notStarted | returned => simp [hrunner] at hstep
  | polling =>
      simp only [hrunner, Context.poll, hstopped, if_true, Option.map_some,
        Option.some.injEq] at hstep
      subst hstep
      simp [remainingSteps, pending, hrunner]
  | handling pc =>
      cases pc with
      | entered cancelled =>
          cases cancelled <;> cases hasTopic <;>
            (simp only [hrunner] at hstep; cases hstep
             simp [remainingSteps, pending, hrunner, hstopped, Context.finish, Context.goto])
      | getStreamStatuses | checkStreamStatus _ | produce _ | expiresAt | asyncWait =>
          simp only [hrunner] at hstep
          cases hstep
          simp [remainingSteps, pending, hrunner, hstopped, Context.finish, Context.goto]

/-- What the other steps leave alone. -/
theorem step_other {action : Action} (haction : action ≠ .report)
    (hstep : s.step serviceID hasTopic action = some s') :
    s'.io.runner = s.io.runner ∧ s'.produced = s.produced ∧
      (s.io.stopped = true → s'.io.stopped = true) ∧
      (s'.owner = s.owner ∨ s'.owner = .joining ∧ s'.io.stopped = true ∨
        s'.owner = .destroyed ∧ s.owner ≠ .running ∧ s.io.runner.hasReturned = true) := by
  cases action with
  | report => exact absurd rfl haction
  | expire =>
      obtain ⟨io, hexpire, rfl⟩ := Option.map_eq_some_iff.mp hstep
      unfold Context.expire at hexpire
      split at hexpire
      · cases hexpire
        exact ⟨rfl, rfl, id, Or.inl rfl⟩
      · cases hexpire
  | destroy =>
      simp only [step, destroy] at hstep
      split at hstep
      · cases hstep
        exact ⟨rfl, rfl, fun _ => rfl, Or.inr (Or.inl ⟨rfl, rfl⟩)⟩
      · split at hstep
        · rename_i howner hreturned
          cases hstep
          exact ⟨rfl, rfl, id, Or.inr (Or.inr ⟨rfl, by simp [howner], hreturned⟩)⟩
        · cases hstep
      · cases hstep
  | add _ _ | addConverter _ _ | connection _ _ | queueSize _ _ | errorInEpics _
  | stopChannel _ | clearStreams =>
      cases hstep
      exact ⟨rfl, rfl, id, Or.inl rfl⟩

theorem reportStatus_owner (hstep : s.reportStatus serviceID hasTopic = some s') :
    s'.owner = s.owner ∧ s.io.runner.hasReturned = false := by
  unfold reportStatus at hstep
  cases hrunner : s.io.runner with
  | notStarted | returned => simp [hrunner] at hstep
  | polling =>
      simp only [hrunner, Option.map_eq_some_iff] at hstep
      obtain ⟨io, -, rfl⟩ := hstep
      exact ⟨rfl, rfl⟩
  | handling pc =>
      refine ⟨?_, rfl⟩
      cases pc with
      | entered cancelled => cases cancelled <;> (simp only [hrunner] at hstep; cases hstep; rfl)
      | getStreamStatuses | checkStreamStatus _ | produce _ | expiresAt | asyncWait =>
          simp only [hrunner] at hstep
          cases hstep
          rfl

/-- The destructor stops the loop, and it returns when the thread has. -/
structure DestructorOk (s : StatusReporter) : Prop where
  stopped : s.owner ≠ .running → s.io.stopped = true
  joined : s.owner = .destroyed → s.io.runner.hasReturned = true

theorem DestructorOk.step (hok : DestructorOk s) {action : Action}
    (hstep : s.step serviceID hasTopic action = some s') : DestructorOk s' := by
  by_cases haction : action = .report
  · subst haction
    obtain ⟨howner, hrunner⟩ := reportStatus_owner hstep
    constructor
    · intro hnot
      rw [howner] at hnot
      exact (reportStatus_stopped hstep (hok.stopped hnot)).2.1
    · intro hdestroyed
      rw [hok.joined (howner ▸ hdestroyed)] at hrunner
      cases hrunner
  · obtain ⟨hrunner, -, hstopped, howner | ⟨howner, hstop⟩ | ⟨howner, hbefore, hreturned⟩⟩ :=
      step_other haction hstep
    · constructor
      · rw [howner]
        exact fun hnot => hstopped (hok.stopped hnot)
      · rw [howner, hrunner]
        exact hok.joined
    · exact ⟨fun _ => hstop, fun hdestroyed => by rw [howner] at hdestroyed; cases hdestroyed⟩
    · exact ⟨fun _ => hstopped (hok.stopped hbefore), fun _ => by rw [hrunner]; exact hreturned⟩

end StatusReporter

end EpicsToKafka
