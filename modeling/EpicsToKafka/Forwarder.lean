/-
The control plane of the `Forwarder`: how the settings of a stream become a
`Stream` with its conversion paths, and how streams are removed.  EPICS and
librdkafka enter by their answers, which every call is given anew.  Objects
are named by addresses from an allocator that never reuses one.
-/
import EpicsToKafka.ConfigParser

namespace EpicsToKafka

/-- The options that the control plane reads. -/
structure MainOpt where
  brokers : List URI := []
  periodMS : Nat := 0
  fakePVPeriodMS : Nat := 0
  serviceID : String := ""
deriving Repr, DecidableEq

/-- Why the constructor of `Producer` throws. -/
inductive ProducerFailure where
  | configuration
  | handle
deriving Repr, DecidableEq

def ProducerFailure.exception : ProducerFailure → Exception
  | .configuration =>
      .runtimeError "Cannot create kafka handle due to configuration error"
  | .handle => .runtimeError "can not create Kafka handle"

/-- What librdkafka answers during one call of `createProducerTopic`. -/
structure KafkaAnswer where
  producerFailure : Option ProducerFailure := none
  topicCreated : Bool := true
deriving Repr, DecidableEq

/-- What EPICS and librdkafka answer during one call of `addMapping`.  The
call of `createProducerTopic` for the connection status has index zero, the
one for the converter at index `i` has index `i + 1`. -/
structure MappingAnswers where
  initialized : Bool := true
  kafka : Nat → KafkaAnswer := fun _ => {}

structure ProducerTopic where
  brokerAddress : String
  name : String
deriving Repr, DecidableEq

/-- A `Forwarder::Converter`, which keeps the schema it was created for. -/
structure Converter where
  address : Nat
  schema : String
deriving Repr, DecidableEq

/-- A conversion path.  `requested` is history: the settings that asked for
the path. -/
structure ConversionPath where
  converter : Converter
  output : ProducerTopic
  requested : ConverterSettings
deriving Repr, DecidableEq

structure ChannelInfo where
  providerType : String
  channelName : String
deriving Repr, DecidableEq

inductive ClientKind where
  | monitor
  | random
deriving Repr, DecidableEq

/-- The client of a stream; only a monitor keeps the service ID and the
producer. -/
structure EpicsClient where
  kind : ClientKind
  serviceID : String := ""
  connectionStatusProducer : Option ProducerTopic := none
deriving Repr, DecidableEq

/-- A stream with its client, which has the address of the stream. -/
structure MappedStream where
  address : Nat
  channelInfo : ChannelInfo
  client : EpicsClient
  conversionPaths : List ConversionPath := []
deriving Repr, DecidableEq

/-- A callback of `PVUpdateTimer`; `periodicClient` is null if the client is
no monitor. -/
structure PVUpdateCallback where
  client : Nat
  periodicClient : Option Nat
deriving Repr, DecidableEq

/-- The state of the control plane.  `removed` holds the streams that are no
longer in `Streams` but not yet destroyed, because a worker, the status
reporter or a call of `addMapping` has a reference.  In `converters` the
newest entry for a name counts.  `reused` is history: the requests that were
given a converter that already existed. -/
structure Forwarder where
  streams : List MappedStream := []
  removed : List MappedStream := []
  converters : List (String × Nat) := []
  pvUpdateCallbacks : List PVUpdateCallback := []
  fakePVUpdateCallbacks : List Nat := []
  producersByHost : List String := []
  nextAddress : Nat := 0
  reused : List (ConverterSettings × Converter) := []
deriving Repr, DecidableEq

/-- Code of the control plane. -/
abbrev Forwarding (α : Type) := EStateM Exception Forwarder α

/-- Rethrow what a pure computation has thrown. -/
def liftExcept {α : Type} (result : Except Exception α) : Forwarding α :=
  match result with
  | .ok value => pure value
  | .error e => throw e

/-- The schemas of `registerSchemas`. -/
def registeredSchemas : List String :=
  ["f142", "TdcTime"]

namespace MappedStream

/-- `Stream::addConverter`: a path with the topic and the schema of one that
is there is dropped. -/
def addConverter (stream : MappedStream) (path : ConversionPath) : MappedStream :=
  if stream.conversionPaths.any fun test =>
      path.output.name = test.output.name && path.converter.schema = test.converter.schema then
    stream
  else { stream with conversionPaths := stream.conversionPaths ++ [path] }

def setProducer (stream : MappedStream) (producer : ProducerTopic) : MappedStream :=
  match stream.client.kind with
  | .monitor =>
      { stream with client :=
          { stream.client with connectionStatusProducer := some producer } }
  | .random => stream

def setServiceID (stream : MappedStream) (serviceID : String) : MappedStream :=
  match stream.client.kind with
  | .monitor => { stream with client := { stream.client with serviceID } }
  | .random => stream

variable (stream : MappedStream)

@[simp] theorem addConverter_address (path : ConversionPath) :
    (stream.addConverter path).address = stream.address := by
  unfold addConverter
  split <;> rfl

@[simp] theorem addConverter_channelInfo (path : ConversionPath) :
    (stream.addConverter path).channelInfo = stream.channelInfo := by
  unfold addConverter
  split <;> rfl

@[simp] theorem setProducer_address (producer : ProducerTopic) :
    (stream.setProducer producer).address = stream.address := by
  unfold setProducer
  split <;> rfl

@[simp] theorem setProducer_channelInfo (producer : ProducerTopic) :
    (stream.setProducer producer).channelInfo = stream.channelInfo := by
  unfold setProducer
  split <;> rfl

@[simp] theorem setProducer_conversionPaths (producer : ProducerTopic) :
    (stream.setProducer producer).conversionPaths = stream.conversionPaths := by
  unfold setProducer
  split <;> rfl

@[simp] theorem setServiceID_address (serviceID : String) :
    (stream.setServiceID serviceID).address = stream.address := by
  unfold setServiceID
  split <;> rfl

@[simp] theorem setServiceID_channelInfo (serviceID : String) :
    (stream.setServiceID serviceID).channelInfo = stream.channelInfo := by
  unfold setServiceID
  split <;> rfl

@[simp] theorem setServiceID_conversionPaths (serviceID : String) :
    (stream.setServiceID serviceID).conversionPaths = stream.conversionPaths := by
  unfold setServiceID
  split <;> rfl

end MappedStream

namespace Forwarder

/-- The streams that are not destroyed. -/
def liveStreams (s : Forwarder) : List MappedStream :=
  s.streams ++ s.removed

def livePaths (s : Forwarder) : List ConversionPath :=
  s.liveStreams.flatMap MappedStream.conversionPaths

/-- `std::weak_ptr::lock`: only conversion paths own converters. -/
def lock (s : Forwarder) (address : Nat) : Option Converter :=
  (s.livePaths.map ConversionPath.converter).find? fun converter =>
    converter.address = address

def getStreamByChannelName (s : Forwarder) (channelName : String) :
    Option MappedStream :=
  s.streams.find? fun stream => stream.channelInfo.channelName = channelName

/-- A method of the stream at an address changes it. -/
def updateStream (s : Forwarder) (address : Nat)
    (f : MappedStream → MappedStream) : Forwarder :=
  let update := fun stream : MappedStream =>
    if stream.address = address then f stream else stream
  { s with streams := s.streams.map update, removed := s.removed.map update }

/-- Take streams out of `Streams`. -/
def eraseIf (s : Forwarder) (victim : MappedStream → Bool) : Forwarder :=
  { s with
    streams := s.streams.filter fun stream => !victim stream
    removed := s.removed ++ s.streams.filter victim }

def stopChannel (s : Forwarder) (channel : String) : Forwarder :=
  s.eraseIf fun stream => stream.channelInfo.channelName = channel

def clearStreams (s : Forwarder) : Forwarder :=
  s.eraseIf fun _ => true

/-- `failed` are the streams whose client reports an error. -/
def checkStreamStatus (s : Forwarder) (failed : List Nat) : Forwarder :=
  s.eraseIf fun stream => stream.address ∈ failed

/-- The last reference to a removed stream is dropped. -/
def destroy (s : Forwarder) (address : Nat) : Forwarder :=
  { s with removed := s.removed.filter fun stream => stream.address ≠ address }

end Forwarder

/-- `InstanceSet::createProducerTopic`. -/
def createProducerTopic (answer : KafkaAnswer) (uri : URI) :
    Forwarding ProducerTopic := do
  let s ← get
  if uri.hostPort ∉ s.producersByHost then
    match answer.producerFailure with
    | some failure => throw failure.exception
    | none => set { s with producersByHost := s.producersByHost.insert uri.hostPort }
  if answer.topicCreated then
    return ⟨uri.hostPort, uri.topic⟩
  else
    throw .topicCreationError

/-- librdkafka grants what `createProducerTopic` asks it for. -/
structure KafkaAnswer.Serves (answer : KafkaAnswer) (hosts : List String)
    (host : String) : Prop where
  producer : host ∈ hosts ∨ answer.producerFailure = none
  topic : answer.topicCreated = true

theorem createProducerTopic_of_serves {answer : KafkaAnswer} {uri : URI}
    {s : Forwarder} (hserves : answer.Serves s.producersByHost uri.hostPort) :
    (createProducerTopic answer uri).run s = .ok ⟨uri.hostPort, uri.topic⟩
      { s with producersByHost := s.producersByHost.insert uri.hostPort } := by
  unfold createProducerTopic
  by_cases hknown : uri.hostPort ∈ s.producersByHost
  · simp [hknown, hserves.topic]
  · have hcreated := hserves.producer.resolve_left hknown
    simp only [EStateM.run_bind, EStateM.run_get, hknown, not_false_eq_true, if_true,
      hcreated, EStateM.run_set, hserves.topic, EStateM.run_pure]

theorem createProducerTopic_of_not_serves {answer : KafkaAnswer} {uri : URI}
    {s : Forwarder} (hserves : ¬ answer.Serves s.producersByHost uri.hostPort) :
    ∃ e hosts, (createProducerTopic answer uri).run s =
      .error e { s with producersByHost := hosts } := by
  unfold createProducerTopic
  by_cases hknown : uri.hostPort ∈ s.producersByHost
  · have htopic : answer.topicCreated = false := by
      simpa using fun htopic => hserves ⟨Or.inl hknown, htopic⟩
    refine ⟨.topicCreationError, s.producersByHost, ?_⟩
    simp only [EStateM.run_bind, EStateM.run_get, hknown, not_true_eq_false, if_false,
      htopic, Bool.false_eq_true]
    rfl
  · cases hfailure : answer.producerFailure with
    | some failure =>
        refine ⟨failure.exception, s.producersByHost, ?_⟩
        simp [hknown]
    | none =>
        have htopic : answer.topicCreated = false := by
          simpa using fun htopic => hserves ⟨Or.inr hfailure, htopic⟩
        refine ⟨.topicCreationError, s.producersByHost.insert uri.hostPort, ?_⟩
        simp only [EStateM.run_bind, EStateM.run_get, hknown, not_false_eq_true, if_true,
          EStateM.run_set, htopic, Bool.false_eq_true, if_false]
        rfl

/-- A topic without a host of its own goes to the first broker.  Copying an
empty host or a zero port into the new `URI` changes nothing. -/
def createTopicURI (opt : MainOpt) (converterInfo : ConverterSettings) :
    Except Exception URI :=
  let brokerURI := opt.brokers.head?.getD {}
  let base : URI := { hostPort := brokerURI.hostPort, port := brokerURI.port }
  match (URI.parse converterInfo.topic).run base with
  | .ok _ topicURI => .ok topicURI
  | .error e _ =>
      if e.isRuntimeError then
        .error (.mappingAddException ("Invalid topic " ++ converterInfo.topic ++
          " in converter, not added to stream. May require broker and/or host slashes."))
      else .error e

theorem createTopicURI_of_topicHost (opt : MainOpt) {converterInfo : ConverterSettings}
    {host : String} (hhost : topicHost converterInfo.topic = some host) :
    ∃ uri, createTopicURI opt converterInfo = .ok uri ∧ uri.hostPort = host := by
  unfold createTopicURI
  obtain ⟨parsed, hrun, hparsed⟩ := URI.parse_run_of_topicHost hhost
    { hostPort := (opt.brokers.head?.getD {}).hostPort
      port := (opt.brokers.head?.getD {}).port }
  exact ⟨parsed, by simp only [hrun], hparsed⟩

theorem createTopicURI_of_topicHost_eq_none (opt : MainOpt)
    {converterInfo : ConverterSettings}
    (hhost : topicHost converterInfo.topic = none) :
    ∃ e, createTopicURI opt converterInfo = .error e := by
  unfold createTopicURI
  obtain ⟨e, parsed, hrun⟩ := URI.parse_run_of_topicHost_eq_none hhost
    { hostPort := (opt.brokers.head?.getD {}).hostPort
      port := (opt.brokers.head?.getD {}).port }
  simp only [hrun]
  split <;> exact ⟨_, rfl⟩

/-- `Converter::create`; null if the schema is not registered. -/
def Converter.create (schema : String) : Forwarding (Option Converter) := do
  if schema ∈ registeredSchemas then
    let s ← get
    set { s with nextAddress := s.nextAddress + 1 }
    return some ⟨s.nextAddress, schema⟩
  else
    return none

/-- The converter that a non-empty name refers to, if it is still in use. -/
def Forwarder.findConverter (s : Forwarder) (name : String) : Option Converter :=
  if name = "" then none else (s.converters.lookup name).bind s.lock

/-- The converter for a new path: the one under its name if there is one, else
a new one, which the name then refers to. -/
def obtainConverter (converterInfo : ConverterSettings) :
    Forwarding (Option Converter) := do
  let s ← get
  match s.findConverter converterInfo.name with
  | some converter =>
      set { s with reused := s.reused ++ [(converterInfo, converter)] }
      return some converter
  | none =>
      let created ← Converter.create converterInfo.schema
      match created with
      | some converter =>
          if converterInfo.name ≠ "" then
            modify fun s => { s with
              converters := (converterInfo.name, converter.address) :: s.converters }
          return some converter
      | none => return none

namespace Forwarder

/-- The converter that a request with a registered schema is given. -/
def converterFor (s : Forwarder) (converterInfo : ConverterSettings) : Converter :=
  (s.findConverter converterInfo.name).getD ⟨s.nextAddress, converterInfo.schema⟩

/-- The state after the request has been given its converter. -/
def afterObtain (s : Forwarder) (converterInfo : ConverterSettings) : Forwarder :=
  match s.findConverter converterInfo.name with
  | some converter => { s with reused := s.reused ++ [(converterInfo, converter)] }
  | none =>
      { s with
        nextAddress := s.nextAddress + 1
        converters :=
          if converterInfo.name = "" then s.converters
          else (converterInfo.name, s.nextAddress) :: s.converters }

end Forwarder

theorem obtainConverter_run {converterInfo : ConverterSettings} (s : Forwarder)
    (hschema : converterInfo.schema ∈ registeredSchemas) :
    (obtainConverter converterInfo).run s =
      .ok (some (s.converterFor converterInfo)) (s.afterObtain converterInfo) := by
  unfold obtainConverter Forwarder.converterFor Forwarder.afterObtain
  cases hfind : s.findConverter converterInfo.name with
  | some converter =>
      simp only [EStateM.run_bind, EStateM.run_get, hfind]
      rfl
  | none =>
      simp only [EStateM.run_bind, EStateM.run_get, hfind, Converter.create, hschema,
        if_true]
      by_cases hname : converterInfo.name = ""
      · simp [hname]
      · simp only [EStateM.run_bind, EStateM.run_set, EStateM.run_pure,
          EStateM.run_modify, ne_eq, hname, not_false_eq_true, if_true, if_false,
          Option.getD_none]

def pushConverterToStream (opt : MainOpt) (answer : KafkaAnswer)
    (converterInfo : ConverterSettings) (stream : Nat) : Forwarding Unit := do
  if converterInfo.schema ∉ registeredSchemas then
    throw (.mappingAddException
      ("Cannot handle flatbuffer schema id " ++ converterInfo.schema))
  let topicURI ← liftExcept (createTopicURI opt converterInfo)
  match ← obtainConverter converterInfo with
  | none => throw (.mappingAddException "Cannot create a converter")
  | some converter =>
      let output ← createProducerTopic answer topicURI
      modify fun s => s.updateStream stream fun stream =>
        stream.addConverter ⟨converter, output, converterInfo⟩

/-- The settings and the answer with which a converter can be pushed. -/
structure ConverterSettings.Fits (converterInfo : ConverterSettings)
    (answer : KafkaAnswer) (hosts : List String) (host : String) : Prop where
  schema : converterInfo.schema ∈ registeredSchemas
  topic : topicHost converterInfo.topic = some host
  served : answer.Serves hosts host

namespace Forwarder

/-- The state after a converter has been pushed with success. -/
def afterPush (s : Forwarder) (converterInfo : ConverterSettings) (stream : Nat)
    (uri : URI) : Forwarder :=
  let obtained := s.afterObtain converterInfo
  { obtained with producersByHost := obtained.producersByHost.insert uri.hostPort
  }.updateStream stream fun stream =>
    stream.addConverter ⟨s.converterFor converterInfo, ⟨uri.hostPort, uri.topic⟩,
      converterInfo⟩

@[simp] theorem afterObtain_producersByHost (s : Forwarder)
    (converterInfo : ConverterSettings) :
    (s.afterObtain converterInfo).producersByHost = s.producersByHost := by
  unfold afterObtain
  split <;> rfl

end Forwarder

section Push

variable (opt : MainOpt) {answer : KafkaAnswer} {converterInfo : ConverterSettings}
  (stream : Nat) {s : Forwarder}

theorem pushConverterToStream_of_serves {uri : URI}
    (hschema : converterInfo.schema ∈ registeredSchemas)
    (huri : createTopicURI opt converterInfo = .ok uri)
    (hserves : answer.Serves s.producersByHost uri.hostPort) :
    (pushConverterToStream opt answer converterInfo stream).run s =
      .ok () (s.afterPush converterInfo stream uri) := by
  have hobtained : answer.Serves (s.afterObtain converterInfo).producersByHost
      uri.hostPort := by
    rw [Forwarder.afterObtain_producersByHost]
    exact hserves
  unfold pushConverterToStream
  simp only [hschema, not_true_eq_false, if_false, huri, liftExcept,
    EStateM.run_bind, EStateM.run_pure, obtainConverter_run s hschema,
    createProducerTopic_of_serves hobtained]
  rfl

theorem pushConverterToStream_of_fits {host : String}
    (hfits : converterInfo.Fits answer s.producersByHost host) :
    ∃ uri, uri.hostPort = host ∧
      (pushConverterToStream opt answer converterInfo stream).run s =
        .ok () (s.afterPush converterInfo stream uri) := by
  obtain ⟨uri, huri, rfl⟩ := createTopicURI_of_topicHost opt hfits.topic
  exact ⟨uri, rfl, pushConverterToStream_of_serves opt stream hfits.schema huri hfits.served⟩

/-- A push that throws has at most registered a converter and a producer. -/
theorem pushConverterToStream_of_not_fits
    (hfits : ∀ host, ¬ converterInfo.Fits answer s.producersByHost host) :
    ∃ e s', (pushConverterToStream opt answer converterInfo stream).run s = .error e s' ∧
      (s' = s ∨ ∃ hosts, (topicHost converterInfo.topic).isSome ∧
        converterInfo.schema ∈ registeredSchemas ∧
        s' = { s.afterObtain converterInfo with producersByHost := hosts }) := by
  unfold pushConverterToStream
  by_cases hschema : converterInfo.schema ∈ registeredSchemas
  · cases hhost : topicHost converterInfo.topic with
    | none =>
        obtain ⟨e, huri⟩ := createTopicURI_of_topicHost_eq_none opt hhost
        refine ⟨e, s, ?_, Or.inl rfl⟩
        simp only [hschema, not_true_eq_false, if_false, huri, liftExcept,
          EStateM.run_bind]
        rfl
    | some host =>
        obtain ⟨uri, huri, rfl⟩ := createTopicURI_of_topicHost opt hhost
        have hserves : ¬ answer.Serves (s.afterObtain converterInfo).producersByHost
            uri.hostPort := by
          rw [Forwarder.afterObtain_producersByHost]
          exact fun hserved => hfits uri.hostPort ⟨hschema, hhost, hserved⟩
        obtain ⟨e, hosts, hrun⟩ := createProducerTopic_of_not_serves hserves
        refine ⟨e, _, ?_, Or.inr ⟨hosts, rfl, hschema, rfl⟩⟩
        simp only [hschema, not_true_eq_false, if_false, huri, liftExcept,
          EStateM.run_bind, EStateM.run_pure, obtainConverter_run s hschema, hrun]
  · refine ⟨.mappingAddException ("Cannot handle flatbuffer schema id " ++
      converterInfo.schema), s, ?_, Or.inl rfl⟩
    simp only [hschema, not_false_eq_true, if_true, EStateM.run_bind]
    rfl

end Push

/-- `addStream` for the client that the options ask for. -/
def addStream (opt : MainOpt) (initialized : Bool) (channelInfo : ChannelInfo) :
    Forwarding Nat := do
  let s ← get
  if (s.getStreamByChannelName channelInfo.channelName).isSome then
    throw (.mappingAddException "Stream already exists")
  let kind := if opt.fakePVPeriodMS > 0 then ClientKind.random else .monitor
  if kind = .monitor ∧ !initialized then
    throw (.runtimeError "could not initialize")
  let newStream : MappedStream :=
    { address := s.nextAddress, channelInfo, client := { kind } }
  set { s with
    streams := s.streams ++ [newStream]
    nextAddress := s.nextAddress + 1 }
  return newStream.address

/-- Register the client of a new stream with the timers there are. -/
def addCallbacks (opt : MainOpt) (stream : Nat) (s : Forwarder) : Forwarder :=
  { s with
    pvUpdateCallbacks :=
      if opt.periodMS > 0 then
        s.pvUpdateCallbacks ++
          [⟨stream, if opt.fakePVPeriodMS > 0 then none else some stream⟩]
      else s.pvUpdateCallbacks
    fakePVUpdateCallbacks :=
      if opt.fakePVPeriodMS > 0 then s.fakePVUpdateCallbacks ++ [stream]
      else s.fakePVUpdateCallbacks }

/-- The producer for the connection status goes to the topic of the first
converter. -/
def setStatusProducer (answer : KafkaAnswer) (stream : Nat)
    (converters : List ConverterSettings) : Forwarding Unit :=
  match converters with
  | [] => pure ()
  | first :: _ => do
      let uri ← liftExcept (URI.ofString first.topic)
      let producer ← createProducerTopic answer uri
      modify fun s => s.updateStream stream fun stream => stream.setProducer producer

/-- `addMapping` up to its loop over the converters. -/
def openStream (opt : MainOpt) (initialized : Bool) (answer : KafkaAnswer)
    (streamInfo : StreamSettings) : Forwarding Nat := do
  let stream ← addStream opt initialized ⟨streamInfo.epicsProtocol, streamInfo.name⟩
  modify (addCallbacks opt stream)
  setStatusProducer answer stream streamInfo.converters
  modify fun s => s.updateStream stream fun stream => stream.setServiceID opt.serviceID
  return stream

/-- The loop over the converters. -/
def pushConverters (opt : MainOpt) (stream : Nat) :
    (Nat → KafkaAnswer) → List ConverterSettings → Forwarding Unit
  | _, [] => pure ()
  | answers, converter :: rest => do
      pushConverterToStream opt (answers 0) converter stream
      pushConverters opt stream (fun i => answers (i + 1)) rest

/-- What the `catch` clause of `addMapping` makes of an exception. -/
def Exception.asCannotAddStream (e : Exception) : Exception :=
  if e.isRuntimeError then .nested "Cannot add stream" e else e

def addMapping (opt : MainOpt) (answers : MappingAnswers)
    (streamInfo : StreamSettings) : Forwarding Unit :=
  EStateM.adaptExcept Exception.asCannotAddStream do
    let stream ← openStream opt answers.initialized (answers.kafka 0) streamInfo
    pushConverters opt stream (fun i => answers.kafka (i + 1)) streamInfo.converters

/-- The loop over the streams of a command; the first exception ends it. -/
def addMappings (opt : MainOpt) :
    (Nat → MappingAnswers) → List StreamSettings → Forwarding Unit
  | _, [] => pure ()
  | answers, streamInfo :: rest => do
      addMapping opt (answers 0) streamInfo
      addMappings opt (fun i => answers (i + 1)) rest

def handleCommandAdd (opt : MainOpt) (answers : Nat → MappingAnswers)
    (document : Json) : Forwarding Unit := do
  let settings ← liftExcept (ConfigParser.extractStreamInfo document)
  addMappings opt answers settings

end EpicsToKafka
