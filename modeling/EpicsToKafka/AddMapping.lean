/-
When `addMapping` is all or nothing.  The stream is added to `Streams` and its
client is registered with the timers before the converters are looked at, and
nothing is undone when one of them throws.
-/
import EpicsToKafka.Forwarder

namespace EpicsToKafka

namespace Forwarder

variable (s : Forwarder)

@[simp] theorem afterObtain_streams (converterInfo : ConverterSettings) :
    (s.afterObtain converterInfo).streams = s.streams := by
  unfold afterObtain
  split <;> rfl

@[simp] theorem updateStream_producersByHost (address : Nat)
    (f : MappedStream → MappedStream) :
    (s.updateStream address f).producersByHost = s.producersByHost := rfl

/-- What a method leaves alone in its stream is the same in all streams. -/
theorem map_streams_updateStream {α : Type} {view : MappedStream → α} (address : Nat)
    {f : MappedStream → MappedStream} (hkeeps : ∀ stream, view (f stream) = view stream) :
    (s.updateStream address f).streams.map view = s.streams.map view := by
  simp only [updateStream, List.map_map]
  refine List.map_congr_left fun stream _ => ?_
  simp only [Function.comp_apply]
  split
  · rw [hkeeps]
  · rfl

@[simp] theorem length_updateStream (address : Nat) (f : MappedStream → MappedStream) :
    (s.updateStream address f).streams.length = s.streams.length := by
  simp [updateStream]

@[simp] theorem afterPush_producersByHost (converterInfo : ConverterSettings)
    (stream : Nat) (uri : URI) :
    (s.afterPush converterInfo stream uri).producersByHost =
      s.producersByHost.insert uri.hostPort := by
  simp [afterPush]

@[simp] theorem length_afterPush (converterInfo : ConverterSettings) (stream : Nat)
    (uri : URI) :
    (s.afterPush converterInfo stream uri).streams.length = s.streams.length := by
  simp [afterPush]

end Forwarder

/-- What a call that throws must leave as it was.  The conversion paths are
part of the streams. -/
structure SameMappings (s s' : Forwarder) : Prop where
  streams : s'.streams = s.streams
  pvUpdateCallbacks : s'.pvUpdateCallbacks = s.pvUpdateCallbacks
  fakePVUpdateCallbacks : s'.fakePVUpdateCallbacks = s.fakePVUpdateCallbacks

/-- If the call throws, it has changed nothing. -/
def AllOrNothing (opt : MainOpt) (answers : MappingAnswers)
    (streamInfo : StreamSettings) (s : Forwarder) : Prop :=
  ∀ e s', (addMapping opt answers streamInfo).run s = .error e s' → SameMappings s s'

/-- The channel exists already, or its client cannot be initialised. -/
def Refused (opt : MainOpt) (answers : MappingAnswers) (streamInfo : StreamSettings)
    (s : Forwarder) : Prop :=
  (s.getStreamByChannelName streamInfo.name).isSome ∨
    (opt.fakePVPeriodMS = 0 ∧ answers.initialized = false)

/-- Every converter can be pushed, given the hosts that have a producer. -/
def ConvertersFit : List String → (Nat → KafkaAnswer) → List ConverterSettings → Prop
  | _, _, [] => True
  | hosts, answers, converter :: rest =>
      ∃ host, converter.Fits (answers 0) hosts host ∧
        ConvertersFit (hosts.insert host) (fun i => answers (i + 1)) rest

/-- All of them fit, and the topic of the first one can be used for the
connection status before. -/
def MappingFits (hosts : List String) (answers : MappingAnswers) :
    List ConverterSettings → Prop
  | [] => True
  | first :: rest =>
      ∃ uri, URI.ofString first.topic = .ok uri ∧
        (answers.kafka 0).Serves hosts uri.hostPort ∧
        ConvertersFit (hosts.insert uri.hostPort) (fun i => answers.kafka (i + 1))
          (first :: rest)

/-- The state that code ends in, whether it returns or throws. -/
def EndsIn {α : Type} (code : Forwarding α) (s s' : Forwarder) : Prop :=
  (∃ result, code.run s = .ok result s') ∨ ∃ e, code.run s = .error e s'

theorem EndsIn.eq_of_ok {α : Type} {code : Forwarding α} {s s' final : Forwarder}
    {result : α} (hends : EndsIn code s s') (hrun : code.run s = .ok result final) :
    s' = final := by
  rcases hends with ⟨_, hok⟩ | ⟨_, herror⟩
  · cases hok.symm.trans hrun
    rfl
  · cases herror.symm.trans hrun

theorem EndsIn.eq_of_error {α : Type} {code : Forwarding α} {s s' final : Forwarder}
    {e : Exception} (hends : EndsIn code s s') (hrun : code.run s = .error e final) :
    s' = final := by
  rcases hends with ⟨_, hok⟩ | ⟨_, herror⟩
  · cases hok.symm.trans hrun
  · cases herror.symm.trans hrun
    rfl

/-- The states in which a push can end: it throws before the name of the
converter is looked up, it throws afterwards, or it adds the path. -/
inductive PushMove (converterInfo : ConverterSettings) (stream : Nat) (s : Forwarder) :
    Forwarder → Prop
  | thrown : PushMove converterInfo stream s s
  | obtained (hosts : List String) (hschema : converterInfo.schema ∈ registeredSchemas)
      (hhost : (topicHost converterInfo.topic).isSome) :
      PushMove converterInfo stream s
        { s.afterObtain converterInfo with producersByHost := hosts }
  | pushed (uri : URI) (hschema : converterInfo.schema ∈ registeredSchemas)
      (hhost : (topicHost converterInfo.topic).isSome) :
      PushMove converterInfo stream s (s.afterPush converterInfo stream uri)

theorem pushConverterToStream_move {opt : MainOpt} {answer : KafkaAnswer}
    {converterInfo : ConverterSettings} {stream : Nat} {s s' : Forwarder}
    (hends : EndsIn (pushConverterToStream opt answer converterInfo stream) s s') :
    PushMove converterInfo stream s s' := by
  by_cases hfits : ∃ host, converterInfo.Fits answer s.producersByHost host
  · obtain ⟨host, hfits⟩ := hfits
    obtain ⟨uri, -, hrun⟩ := pushConverterToStream_of_fits opt stream hfits
    have hhost : (topicHost converterInfo.topic).isSome := by
      rw [hfits.topic]
      rfl
    rw [hends.eq_of_ok hrun]
    exact .pushed uri hfits.schema hhost
  · rw [not_exists] at hfits
    obtain ⟨e, final, hrun, hstate⟩ := pushConverterToStream_of_not_fits opt stream hfits
    rw [hends.eq_of_error hrun]
    rcases hstate with rfl | ⟨hosts, hhost, hschema, rfl⟩
    · exact .thrown
    · exact .obtained hosts hschema hhost

section Run

variable (opt : MainOpt) {s : Forwarder}

theorem pushConverters_of_fit {converters : List ConverterSettings} (stream : Nat)
    {answers : Nat → KafkaAnswer}
    (hfit : ConvertersFit s.producersByHost answers converters) :
    ∃ s', (pushConverters opt stream answers converters).run s = .ok () s' := by
  induction converters generalizing answers s with
  | nil => exact ⟨s, rfl⟩
  | cons converter rest ih =>
      obtain ⟨host, hfits, hrest⟩ := hfit
      obtain ⟨uri, rfl, hpush⟩ :=
        pushConverterToStream_of_fits opt stream hfits
      rw [← Forwarder.afterPush_producersByHost s converter stream] at hrest
      obtain ⟨s', hrun⟩ := ih hrest
      exact ⟨s', by simp only [pushConverters, EStateM.run_bind, hpush, hrun]⟩

theorem pushConverters_of_not_fit {converters : List ConverterSettings} (stream : Nat)
    {answers : Nat → KafkaAnswer}
    (hfit : ¬ ConvertersFit s.producersByHost answers converters) :
    ∃ e s', (pushConverters opt stream answers converters).run s = .error e s' ∧
      s'.streams.length = s.streams.length := by
  induction converters generalizing answers s with
  | nil => exact absurd trivial hfit
  | cons converter rest ih =>
      by_cases hfits : ∃ host, converter.Fits (answers 0) s.producersByHost host
      · obtain ⟨host, hhost⟩ := hfits
        obtain ⟨uri, rfl, hpush⟩ :=
          pushConverterToStream_of_fits opt stream hhost
        have hrest : ¬ ConvertersFit (s.afterPush converter stream uri).producersByHost
            (fun i => answers (i + 1)) rest := by
          rw [Forwarder.afterPush_producersByHost]
          exact fun hrest => hfit ⟨uri.hostPort, hhost, hrest⟩
        obtain ⟨e, s', hrun, hlength⟩ := ih hrest
        refine ⟨e, s', ?_, ?_⟩
        · simp only [pushConverters, EStateM.run_bind, hpush, hrun]
        · rw [hlength, Forwarder.length_afterPush]
      · rw [not_exists] at hfits
        obtain ⟨e, s', hrun, hstate⟩ :=
          pushConverterToStream_of_not_fits opt stream hfits
        refine ⟨e, s', by simp only [pushConverters, EStateM.run_bind, hrun], ?_⟩
        rcases hstate with rfl | ⟨hosts, -, -, rfl⟩
        · rfl
        · simp

variable {answers : MappingAnswers} {streamInfo : StreamSettings}

theorem addStream_of_refused (hrefused : Refused opt answers streamInfo s) :
    ∃ e, (addStream opt answers.initialized
      ⟨streamInfo.epicsProtocol, streamInfo.name⟩).run s = .error e s := by
  unfold addStream
  by_cases hexists : (s.getStreamByChannelName streamInfo.name).isSome
  · refine ⟨.mappingAddException "Stream already exists", ?_⟩
    simp [hexists]
  · obtain ⟨hreal, hinit⟩ := hrefused.resolve_left hexists
    refine ⟨.runtimeError "could not initialize", ?_⟩
    simp [hexists, hreal, hinit]

/-- The state after `addStream`. -/
def Forwarder.afterAddStream (opt : MainOpt) (channelInfo : ChannelInfo)
    (s : Forwarder) : Forwarder :=
  let kind := if opt.fakePVPeriodMS > 0 then ClientKind.random else .monitor
  { s with
    streams := s.streams ++ [⟨s.nextAddress, channelInfo, { kind }, []⟩]
    nextAddress := s.nextAddress + 1 }

theorem addStream_of_not_refused (hrefused : ¬ Refused opt answers streamInfo s) :
    (addStream opt answers.initialized
      ⟨streamInfo.epicsProtocol, streamInfo.name⟩).run s = .ok s.nextAddress
        (s.afterAddStream opt ⟨streamInfo.epicsProtocol, streamInfo.name⟩) := by
  obtain ⟨hexists, hinit⟩ := not_or.mp hrefused
  unfold addStream
  by_cases hfake : opt.fakePVPeriodMS > 0
  · simp only [EStateM.run_bind, EStateM.run_get, hexists, hfake, if_true,
      Bool.false_eq_true, if_false, reduceCtorEq, false_and, EStateM.run_set,
      EStateM.run_pure, Forwarder.afterAddStream]
  · have hinitialized : answers.initialized = true := by
      simpa using fun hfalse => hinit ⟨by omega, hfalse⟩
    simp only [EStateM.run_bind, EStateM.run_get, hexists, hfake, hinitialized,
      Bool.not_true, Bool.false_eq_true, and_false, if_false, EStateM.run_set,
      EStateM.run_pure, Forwarder.afterAddStream]

/-- The state after the producer for the connection status has been set. -/
def Forwarder.afterSetProducer (s : Forwarder) (stream : Nat) (uri : URI) : Forwarder :=
  { s with producersByHost := s.producersByHost.insert uri.hostPort
  }.updateStream stream fun stream => stream.setProducer ⟨uri.hostPort, uri.topic⟩

theorem setStatusProducer_of_fits {uri : URI} {answer : KafkaAnswer}
    {first : ConverterSettings} (rest : List ConverterSettings) (stream : Nat)
    (huri : URI.ofString first.topic = .ok uri)
    (hserves : answer.Serves s.producersByHost uri.hostPort) :
    (setStatusProducer answer stream (first :: rest)).run s =
      .ok () (s.afterSetProducer stream uri) := by
  simp only [setStatusProducer, huri, liftExcept, EStateM.run_bind, EStateM.run_pure,
    createProducerTopic_of_serves hserves]
  rfl

theorem setStatusProducer_of_not_fits {answer : KafkaAnswer}
    {first : ConverterSettings} (rest : List ConverterSettings) (stream : Nat)
    (hfits : ∀ uri, URI.ofString first.topic = .ok uri →
      ¬ answer.Serves s.producersByHost uri.hostPort) :
    ∃ e hosts, (setStatusProducer answer stream (first :: rest)).run s =
      .error e { s with producersByHost := hosts } := by
  cases huri : URI.ofString first.topic with
  | error e =>
      refine ⟨e, s.producersByHost, ?_⟩
      simp only [setStatusProducer, huri, liftExcept, EStateM.run_bind]
      rfl
  | ok uri =>
      obtain ⟨e, hosts, hrun⟩ := createProducerTopic_of_not_serves (hfits uri huri)
      refine ⟨e, hosts, ?_⟩
      simp only [setStatusProducer, huri, liftExcept, EStateM.run_bind,
        EStateM.run_pure, hrun]

/-- The state in which `addMapping` first looks at the converters. -/
def Forwarder.afterCallbacks (opt : MainOpt) (streamInfo : StreamSettings)
    (s : Forwarder) : Forwarder :=
  addCallbacks opt s.nextAddress
    (s.afterAddStream opt ⟨streamInfo.epicsProtocol, streamInfo.name⟩)

/-- The state after `openStream`; `uri` is what the topic of the first converter
parses to, if there is one. -/
def Forwarder.afterOpen (opt : MainOpt) (streamInfo : StreamSettings) (uri : Option URI)
    (s : Forwarder) : Forwarder :=
  let opened := s.afterCallbacks opt streamInfo
  ((uri.map (opened.afterSetProducer s.nextAddress)).getD opened).updateStream
    s.nextAddress fun stream => stream.setServiceID opt.serviceID

theorem openStream_of_refused (hrefused : Refused opt answers streamInfo s)
    (answer : KafkaAnswer) :
    ∃ e, (openStream opt answers.initialized answer streamInfo).run s = .error e s := by
  obtain ⟨e, hrun⟩ := addStream_of_refused opt hrefused
  exact ⟨e, by simp only [openStream, EStateM.run_bind, hrun]⟩

theorem openStream_of_nil (hrefused : ¬ Refused opt answers streamInfo s)
    (hnil : streamInfo.converters = []) (answer : KafkaAnswer) :
    (openStream opt answers.initialized answer streamInfo).run s =
      .ok s.nextAddress (s.afterOpen opt streamInfo none) := by
  simp only [openStream, EStateM.run_bind, addStream_of_not_refused opt hrefused,
    hnil, setStatusProducer]
  rfl

theorem openStream_of_fits {answer : KafkaAnswer} {uri : URI}
    {first : ConverterSettings} {rest : List ConverterSettings}
    (hrefused : ¬ Refused opt answers streamInfo s)
    (hcons : streamInfo.converters = first :: rest)
    (huri : URI.ofString first.topic = .ok uri)
    (hserves : answer.Serves s.producersByHost uri.hostPort) :
    (openStream opt answers.initialized answer streamInfo).run s =
      .ok s.nextAddress (s.afterOpen opt streamInfo (some uri)) := by
  have hopened : answer.Serves (s.afterCallbacks opt streamInfo).producersByHost
      uri.hostPort := hserves
  have hstatus := setStatusProducer_of_fits rest s.nextAddress huri hopened
  simp only [Forwarder.afterCallbacks] at hstatus
  simp only [openStream, EStateM.run_bind, addStream_of_not_refused opt hrefused,
    EStateM.run_modify, hcons, hstatus]
  rfl

theorem openStream_of_not_fits {answer : KafkaAnswer} {first : ConverterSettings}
    {rest : List ConverterSettings} (hrefused : ¬ Refused opt answers streamInfo s)
    (hcons : streamInfo.converters = first :: rest)
    (hfits : ∀ uri, URI.ofString first.topic = .ok uri →
      ¬ answer.Serves s.producersByHost uri.hostPort) :
    ∃ e hosts, (openStream opt answers.initialized answer streamInfo).run s =
      .error e { s.afterCallbacks opt streamInfo with producersByHost := hosts } := by
  have hopened : ∀ uri, URI.ofString first.topic = .ok uri →
      ¬ answer.Serves (s.afterCallbacks opt streamInfo).producersByHost uri.hostPort := hfits
  obtain ⟨e, hosts, hstatus⟩ := setStatusProducer_of_not_fits rest s.nextAddress hopened
  refine ⟨e, hosts, ?_⟩
  simp only [Forwarder.afterCallbacks] at hstatus ⊢
  simp only [openStream, EStateM.run_bind, addStream_of_not_refused opt hrefused,
    EStateM.run_modify, hcons, hstatus]

/-- The ways in which `openStream` can end: the stream is refused, it is
opened, or the producer for its connection status cannot be made. -/
theorem openStream_cases (initialized : Bool) (answer : KafkaAnswer)
    (streamInfo : StreamSettings) (s : Forwarder) :
    (Refused opt { initialized } streamInfo s ∧
      ∃ e, (openStream opt initialized answer streamInfo).run s = .error e s) ∨
    (¬ Refused opt { initialized } streamInfo s ∧
      ∃ uri, (openStream opt initialized answer streamInfo).run s =
        .ok s.nextAddress (s.afterOpen opt streamInfo uri)) ∨
    (¬ Refused opt { initialized } streamInfo s ∧
      ∃ e hosts, (openStream opt initialized answer streamInfo).run s =
        .error e { s.afterCallbacks opt streamInfo with producersByHost := hosts }) := by
  by_cases hrefused : Refused opt { initialized } streamInfo s
  · exact Or.inl ⟨hrefused, openStream_of_refused opt hrefused answer⟩
  · refine Or.inr ?_
    cases hconverters : streamInfo.converters with
    | nil =>
        exact Or.inl ⟨hrefused, none, openStream_of_nil opt hrefused hconverters answer⟩
    | cons first rest =>
        by_cases hstatus : ∃ uri, URI.ofString first.topic = .ok uri ∧
            answer.Serves s.producersByHost uri.hostPort
        · obtain ⟨uri, huri, hserves⟩ := hstatus
          exact Or.inl ⟨hrefused, some uri,
            openStream_of_fits opt hrefused hconverters huri hserves⟩
        · have hserves : ∀ uri, URI.ofString first.topic = .ok uri →
              ¬ answer.Serves s.producersByHost uri.hostPort :=
            fun uri huri hserves => hstatus ⟨uri, huri, hserves⟩
          exact Or.inr ⟨hrefused, openStream_of_not_fits opt hrefused hconverters hserves⟩

/-- The states in which `openStream` can end. -/
inductive OpenMove (initialized : Bool) (streamInfo : StreamSettings) (s : Forwarder) :
    Forwarder → Prop
  | refused (hrefused : Refused opt { initialized } streamInfo s) :
      OpenMove initialized streamInfo s s
  | opened (hrefused : ¬ Refused opt { initialized } streamInfo s) (uri : Option URI) :
      OpenMove initialized streamInfo s (s.afterOpen opt streamInfo uri)
  | thrown (hrefused : ¬ Refused opt { initialized } streamInfo s) (hosts : List String) :
      OpenMove initialized streamInfo s
        { s.afterCallbacks opt streamInfo with producersByHost := hosts }

theorem openStream_move {opt : MainOpt} {initialized : Bool} {answer : KafkaAnswer}
    {s' : Forwarder}
    (hends : EndsIn (openStream opt initialized answer streamInfo) s s') :
    OpenMove opt initialized streamInfo s s' := by
  rcases openStream_cases opt initialized answer streamInfo s with
    ⟨hrefused, e, hrun⟩ | ⟨hrefused, uri, hrun⟩ | ⟨hrefused, e, hosts, hrun⟩
  · rw [hends.eq_of_error hrun]
    exact .refused hrefused
  · rw [hends.eq_of_ok hrun]
    exact .opened hrefused uri
  · rw [hends.eq_of_error hrun]
    exact .thrown hrefused hosts

theorem addMapping_of_openStream_error {e : Exception} {s' : Forwarder}
    (hopen : (openStream opt answers.initialized (answers.kafka 0) streamInfo).run s =
      .error e s') :
    (addMapping opt answers streamInfo).run s = .error e.asCannotAddStream s' := by
  simp only [addMapping, EStateM.run_adaptExcept, EStateM.run_bind, hopen]

theorem addMapping_of_pushConverters_error {stream : Nat} {opened s' : Forwarder}
    {e : Exception}
    (hopen : (openStream opt answers.initialized (answers.kafka 0) streamInfo).run s =
      .ok stream opened)
    (hpush : (pushConverters opt stream (fun i => answers.kafka (i + 1))
      streamInfo.converters).run opened = .error e s') :
    (addMapping opt answers streamInfo).run s = .error e.asCannotAddStream s' := by
  simp only [addMapping, EStateM.run_adaptExcept, EStateM.run_bind, hopen, hpush]

theorem addMapping_of_pushConverters_ok {stream : Nat} {opened s' : Forwarder}
    (hopen : (openStream opt answers.initialized (answers.kafka 0) streamInfo).run s =
      .ok stream opened)
    (hpush : (pushConverters opt stream (fun i => answers.kafka (i + 1))
      streamInfo.converters).run opened = .ok () s') :
    (addMapping opt answers streamInfo).run s = .ok () s' := by
  simp only [addMapping, EStateM.run_adaptExcept, EStateM.run_bind, hopen, hpush]

/-- What no push changes is not changed by the loop either. -/
theorem pushConverters_view {α : Type} {view : Forwarder → α}
    (hview : ∀ {converterInfo stream s s'}, PushMove converterInfo stream s s' →
      view s' = view s)
    {opt : MainOpt} {s' : Forwarder} {stream : Nat} {kafka : Nat → KafkaAnswer}
    {converters : List ConverterSettings}
    (hends : EndsIn (pushConverters opt stream kafka converters) s s') :
    view s' = view s := by
  induction converters generalizing s kafka with
  | nil => rw [hends.eq_of_ok rfl]
  | cons converter rest ih =>
      cases hpush : (pushConverterToStream opt (kafka 0) converter stream).run s with
      | ok result pushed =>
          simp only [EndsIn, pushConverters, EStateM.run_bind, hpush] at hends
          rw [ih hends, hview (pushConverterToStream_move (Or.inl ⟨_, hpush⟩))]
      | error e pushed =>
          have hthrow : (pushConverters opt stream kafka (converter :: rest)).run s =
              .error e pushed := by
            simp only [pushConverters, EStateM.run_bind, hpush]
          rw [hends.eq_of_error hthrow, hview (pushConverterToStream_move (Or.inr ⟨_, hpush⟩))]

/-- For such a view, a mapping does no more than to open its stream. -/
theorem addMapping_view {α : Type} {view : Forwarder → α}
    (hview : ∀ {converterInfo stream s s'}, PushMove converterInfo stream s s' →
      view s' = view s)
    {opt : MainOpt} {s' : Forwarder}
    (hends : EndsIn (addMapping opt answers streamInfo) s s') :
    ∃ opened, OpenMove opt answers.initialized streamInfo s opened ∧ view s' = view opened := by
  cases hopen : (openStream opt answers.initialized (answers.kafka 0) streamInfo).run s with
  | error e opened =>
      rw [hends.eq_of_error (addMapping_of_openStream_error opt hopen)]
      exact ⟨opened, openStream_move (Or.inr ⟨_, hopen⟩), rfl⟩
  | ok stream opened =>
      refine ⟨opened, openStream_move (Or.inl ⟨_, hopen⟩), ?_⟩
      cases hpush : (pushConverters opt stream (fun i => answers.kafka (i + 1))
          streamInfo.converters).run opened with
      | ok result final =>
          rw [hends.eq_of_ok (addMapping_of_pushConverters_ok opt hopen hpush)]
          exact pushConverters_view hview (Or.inl ⟨_, hpush⟩)
      | error e final =>
          rw [hends.eq_of_error (addMapping_of_pushConverters_error opt hopen hpush)]
          exact pushConverters_view hview (Or.inr ⟨_, hpush⟩)

@[simp] theorem Forwarder.afterOpen_producersByHost (uri : URI) :
    (s.afterOpen opt streamInfo (some uri)).producersByHost =
      s.producersByHost.insert uri.hostPort := rfl

@[simp] theorem Forwarder.length_afterCallbacks :
    (s.afterCallbacks opt streamInfo).streams.length = s.streams.length + 1 := by
  simp [Forwarder.afterCallbacks, addCallbacks, Forwarder.afterAddStream]

@[simp] theorem Forwarder.length_afterOpen (uri : Option URI) :
    (s.afterOpen opt streamInfo uri).streams.length = s.streams.length + 1 := by
  cases uri <;> simp [Forwarder.afterOpen, Forwarder.afterSetProducer]

/-- A mapping that is not refused and fits does not throw. -/
theorem addMapping_of_fits (hrefused : ¬ Refused opt answers streamInfo s)
    (hfits : MappingFits s.producersByHost answers streamInfo.converters) :
    ∃ s', (addMapping opt answers streamInfo).run s = .ok () s' := by
  cases hconverters : streamInfo.converters with
  | nil =>
      have hopen := openStream_of_nil opt hrefused hconverters (answers.kafka 0)
      refine ⟨s.afterOpen opt streamInfo none,
        addMapping_of_pushConverters_ok opt hopen ?_⟩
      rw [hconverters]
      rfl
  | cons first rest =>
      rw [hconverters] at hfits
      obtain ⟨uri, huri, hserves, hfit⟩ := hfits
      have hopen := openStream_of_fits opt hrefused hconverters huri hserves
      rw [← Forwarder.afterOpen_producersByHost opt, ← hconverters] at hfit
      obtain ⟨s', hpush⟩ := pushConverters_of_fit opt s.nextAddress hfit
      exact ⟨s', addMapping_of_pushConverters_ok opt hopen hpush⟩

/-- A mapping that is not refused and does not fit leaves its stream behind. -/
theorem addMapping_of_not_fits (hrefused : ¬ Refused opt answers streamInfo s)
    (hfits : ¬ MappingFits s.producersByHost answers streamInfo.converters) :
    ∃ e s', (addMapping opt answers streamInfo).run s = .error e s' ∧
      s'.streams.length = s.streams.length + 1 := by
  cases hconverters : streamInfo.converters with
  | nil =>
      rw [hconverters] at hfits
      exact absurd trivial hfits
  | cons first rest =>
      rw [hconverters] at hfits
      by_cases hstatus : ∃ uri, URI.ofString first.topic = .ok uri ∧
          (answers.kafka 0).Serves s.producersByHost uri.hostPort
      · obtain ⟨uri, huri, hserves⟩ := hstatus
        have hopen := openStream_of_fits opt hrefused hconverters huri hserves
        have hfit : ¬ ConvertersFit (s.afterOpen opt streamInfo (some uri)).producersByHost
            (fun i => answers.kafka (i + 1)) streamInfo.converters := by
          rw [Forwarder.afterOpen_producersByHost, hconverters]
          exact fun hfit => hfits ⟨uri, huri, hserves, hfit⟩
        obtain ⟨e, s', hpush, hlength⟩ := pushConverters_of_not_fit opt s.nextAddress hfit
        refine ⟨_, s', addMapping_of_pushConverters_error opt hopen hpush, ?_⟩
        rw [hlength, Forwarder.length_afterOpen]
      · have hserves : ∀ uri, URI.ofString first.topic = .ok uri →
            ¬ (answers.kafka 0).Serves s.producersByHost uri.hostPort :=
          fun uri huri hserves => hstatus ⟨uri, huri, hserves⟩
        obtain ⟨e, hosts, hopen⟩ := openStream_of_not_fits opt hrefused hconverters hserves
        exact ⟨_, _, addMapping_of_openStream_error opt hopen,
          Forwarder.length_afterCallbacks opt⟩

/-- `addMapping` is all or nothing exactly if it is refused before the stream is
added or has no reason to throw afterwards. -/
theorem allOrNothing_iff (opt : MainOpt) (answers : MappingAnswers)
    (streamInfo : StreamSettings) (s : Forwarder) :
    AllOrNothing opt answers streamInfo s ↔
      Refused opt answers streamInfo s ∨
        MappingFits s.producersByHost answers streamInfo.converters := by
  constructor
  · intro hall
    by_contra hneither
    obtain ⟨hrefused, hfits⟩ := not_or.mp hneither
    obtain ⟨e, s', hrun, hlength⟩ := addMapping_of_not_fits opt hrefused hfits
    have hstreams := (hall e s' hrun).streams
    rw [hstreams] at hlength
    omega
  · rintro hcases e s' hrun
    by_cases hrefused : Refused opt answers streamInfo s
    · obtain ⟨e', hopen⟩ := openStream_of_refused opt hrefused (answers.kafka 0)
      cases hrun.symm.trans (addMapping_of_openStream_error opt hopen)
      exact ⟨rfl, rfl, rfl⟩
    · obtain ⟨final, hok⟩ := addMapping_of_fits opt hrefused (hcases.resolve_left hrefused)
      cases hrun.symm.trans hok

end Run

/-- A schema that is not registered: the stream stays without a conversion
path, and it keeps a corrected request for its channel out. -/
theorem unknownSchema_not_allOrNothing :
    ¬ AllOrNothing {} {} ⟨"pv", "pva", [⟨"f143", "//kafka:9092/pv_topic", "c"⟩]⟩ {} := by
  intro hall
  have hcheck : (match (addMapping {} {}
      ⟨"pv", "pva", [⟨"f143", "//kafka:9092/pv_topic", "c"⟩]⟩).run {} with
    | .ok _ _ => false
    | .error _ s' => s'.streams ≠ []) = true := by decide +kernel
  split at hcheck
  · cases hcheck
  · rename_i e s' hrun
    exact of_decide_eq_true hcheck (hall e s' hrun).streams

end EpicsToKafka
