/-
The options for librdkafka, from the command line to the producers.  The
command line fills `MainSettings.KafkaConfiguration`; the producers of the
`InstanceSet` are configured from `GlobalBrokerSettings`.
-/
import EpicsToKafka.Forwarder
import EpicsToKafka.Transition

namespace EpicsToKafka

/-- A `std::map` of strings: its entries in the order of their keys. -/
abbrev ConfigMap := List (String × String)

namespace ConfigMap

/-- `map[key] = value`. -/
def assign (key value : String) : ConfigMap → ConfigMap
  | [] => [(key, value)]
  | entry :: rest =>
      if key < entry.1 then (key, value) :: entry :: rest
      else if key = entry.1 then (key, value) :: rest
      else entry :: assign key value rest

@[simp] theorem lookup_assign (key value other : String) (map : ConfigMap) :
    List.lookup other (assign key value map) =
      if other = key then some value else List.lookup other map := by
  have hhead : ∀ rest : ConfigMap, List.lookup other ((key, value) :: rest) =
      if other = key then some value else List.lookup other rest := by
    intro rest
    by_cases hother : other = key
    · simp [hother]
    · rw [List.lookup_cons, beq_eq_false_iff_ne.mpr hother, if_neg hother]
  induction map with
  | nil => exact hhead []
  | cons entry rest ih =>
      unfold assign
      split
      · exact hhead (entry :: rest)
      · split
        · rename_i hkey
          rw [hhead rest, List.lookup_cons, ← hkey]
          by_cases hother : other = key
          · rw [if_pos hother, if_pos hother]
          · rw [if_neg hother, if_neg hother, beq_eq_false_iff_ne.mpr hother]
        · rename_i hkey
          rw [List.lookup_cons, List.lookup_cons, ih]
          by_cases hentry : other = entry.1
          · have hother : other ≠ key := fun heq => hkey (heq.symm.trans hentry)
            simp [hentry, if_neg (hentry ▸ hother)]
          · simp [beq_eq_false_iff_ne.mpr hentry]

end ConfigMap

namespace KafkaW

/-- The initial `KafkaConfiguration` of a `BrokerSettings`. -/
def defaultConfiguration : ConfigMap :=
  [("api.version.request", "true"),
    ("metadata.request.timeout.ms", "2000"),
    ("socket.timeout.ms", "2000"),
    ("message.max.bytes", "24117248"),
    ("fetch.message.max.bytes", "24117248"),
    ("fetch.max.bytes", "52428800"),
    ("receive.message.max.bytes", "100000000"),
    ("queue.buffering.max.messages", "100000"),
    ("queue.buffering.max.ms", "50"),
    ("queue.buffering.max.kbytes", "819200"),
    ("batch.num.messages", "100000"),
    ("coordinator.query.interval.ms", "2000"),
    ("heartbeat.interval.ms", "500"),
    ("statistics.interval.ms", "600000")].foldl
      (fun map entry => map.assign entry.1 entry.2) []

structure BrokerSettings where
  address : String := ""
  pollTimeoutMS : Int := 100
  kafkaConfiguration : ConfigMap := defaultConfiguration
deriving Repr, DecidableEq

/-- What librdkafka answers during one call of `createProducerTopic`:
whether `Conf::set` takes a value, and whether handle and topic are created. -/
structure Librdkafka where
  accepts : String → String → Bool := fun _ _ => true
  handleCreated : Bool := true
  topicCreated : Bool := true

/-- The loop of `BrokerSettings::apply`; `conf` are the items set so far. -/
def applyItems (accepts : String → String → Bool) :
    ConfigMap → ConfigMap → Except Exception ConfigMap
  | [], conf => .ok conf
  | (key, value) :: rest, conf =>
      if accepts key value then applyItems accepts rest (conf ++ [(key, value)])
      else .error (.runtimeError ("Failure setting config: " ++ key ++ " = " ++ value))

def BrokerSettings.apply (settings : BrokerSettings) (kafka : Librdkafka) :
    Except Exception ConfigMap :=
  applyItems kafka.accepts settings.kafkaConfiguration []

/-- A producer with the items that `apply` has set in its configuration and
the brokers it was given afterwards. -/
structure Producer where
  applied : ConfigMap
  metadataBrokerList : String
deriving Repr, DecidableEq

/-- The constructor of `Producer`. -/
def Producer.create (kafka : Librdkafka) (settings : BrokerSettings) :
    Except ProducerFailure Producer :=
  match settings.apply kafka with
  | .error _ => .error .configuration
  | .ok applied =>
      if kafka.handleCreated then .ok ⟨applied, settings.address⟩ else .error .handle

end KafkaW

open KafkaW (BrokerSettings Librdkafka Producer)

structure InstanceSet where
  brokerSettings : BrokerSettings
  producersByHost : List (String × Producer) := []
deriving Repr, DecidableEq

/-- The producer of a host, which is created with the global settings and the
address of the host if there is none yet. -/
def InstanceSet.ensureProducer (kafka : Librdkafka) (hostPort : String) :
    EStateM Exception InstanceSet Unit := do
  let s ← get
  match s.producersByHost.lookup hostPort with
  | some _ => pure ()
  | none =>
      match Producer.create kafka { s.brokerSettings with address := hostPort } with
      | .error failure => throw failure.exception
      | .ok producer =>
          set { s with producersByHost := (hostPort, producer) :: s.producersByHost }

def InstanceSet.createProducerTopic (kafka : Librdkafka) (uri : URI) :
    EStateM Exception InstanceSet ProducerTopic := do
  InstanceSet.ensureProducer kafka uri.hostPort
  if kafka.topicCreated then
    return ⟨uri.hostPort, uri.topic⟩
  else
    throw .topicCreationError

/-- The two places for Kafka options in the options of the program. -/
structure KafkaMainOpt where
  mainSettingsKafkaConfiguration : ConfigMap := []
  globalBrokerSettings : BrokerSettings := {}
deriving Repr, DecidableEq

/-- The callback of `addKafkaOption` on the words after `--kafka-config`. -/
def addKafkaOption : List String → ConfigMap → ConfigMap
  | key :: value :: results, configMap =>
      addKafkaOption results (configMap.assign key value)
  | _, configMap => configMap

/-- `parse_opt` with the pairs given to `--kafka-config`. -/
def parseOpt (options : List (String × String)) : KafkaMainOpt where
  mainSettingsKafkaConfiguration :=
    addKafkaOption (options.flatMap fun option => [option.1, option.2]) []

/-- The `KafkaInstanceSet` that the constructor of `Forwarder` makes. -/
def KafkaMainOpt.instanceSet (opt : KafkaMainOpt) : InstanceSet where
  brokerSettings := opt.globalBrokerSettings

/-- The instance set and any number of calls of `createProducerTopic`. -/
def instanceSetSystem (opt : KafkaMainOpt) :
    Transition.System InstanceSet (Librdkafka × URI) where
  init s := s = opt.instanceSet
  step s call :=
    match (InstanceSet.createProducerTopic call.1 call.2).run s with
    | .ok _ s' | .error _ s' => some s'

/-- The last value given for a key. -/
def lastGiven (options : List (String × String)) (key : String) : Option String :=
  options.reverse.lookup key

/-- Every producer of the forwarder has set the last value given for a key,
and the default for every other key. -/
def OptionsReachProducers (options : List (String × String)) : Prop :=
  ∀ s, (instanceSetSystem (parseOpt options)).Reachable s →
    ∀ entry ∈ s.producersByHost, ∀ key, entry.2.applied.lookup key =
      (lastGiven options key).or (KafkaW.defaultConfiguration.lookup key)

theorem applyItems_eq_ok {accepts : String → String → Bool} {items conf applied : ConfigMap}
    (happly : KafkaW.applyItems accepts items conf = .ok applied) :
    applied = conf ++ items := by
  induction items generalizing conf with
  | nil =>
      cases happly
      rw [List.append_nil]
  | cons item rest ih =>
      unfold KafkaW.applyItems at happly
      split at happly
      · rw [ih happly, List.append_assoc, List.singleton_append]
      · cases happly

/-- A producer that was created has been given the whole configuration. -/
theorem create_applied {kafka : Librdkafka} {settings : BrokerSettings} {producer : Producer}
    (hcreate : Producer.create kafka settings = .ok producer) :
    producer.applied = settings.kafkaConfiguration := by
  unfold Producer.create at hcreate
  split at hcreate
  · cases hcreate
  · rename_i applied happly
    split at hcreate
    · cases hcreate
      exact applyItems_eq_ok happly
    · cases hcreate

/-- The topic is created after the set was changed, so its failure changes
nothing any more. -/
theorem instanceSetSystem_step (opt : KafkaMainOpt) (s : InstanceSet) (kafka : Librdkafka)
    (uri : URI) : (instanceSetSystem opt).step s (kafka, uri) =
      match (InstanceSet.ensureProducer kafka uri.hostPort).run s with
      | .ok _ s' | .error _ s' => some s' := by
  simp only [instanceSetSystem, InstanceSet.createProducerTopic, EStateM.run_bind]
  cases (InstanceSet.ensureProducer kafka uri.hostPort).run s with
  | error e s' => rfl
  | ok _ s' => cases htopic : kafka.topicCreated <;> rfl

theorem ensureProducer_of_found {kafka : Librdkafka} {host : String} {s : InstanceSet}
    {producer : Producer} (hfound : s.producersByHost.lookup host = some producer) :
    (InstanceSet.ensureProducer kafka host).run s = .ok () s := by
  simp [InstanceSet.ensureProducer, hfound]

theorem ensureProducer_of_error {kafka : Librdkafka} {host : String} {s : InstanceSet}
    {failure : ProducerFailure} (hfound : s.producersByHost.lookup host = none)
    (hcreate : Producer.create kafka { s.brokerSettings with address := host } =
      .error failure) :
    (InstanceSet.ensureProducer kafka host).run s = .error failure.exception s := by
  simp only [InstanceSet.ensureProducer, EStateM.run_bind, EStateM.run_get, hfound, hcreate]
  rfl

theorem ensureProducer_of_ok {kafka : Librdkafka} {host : String} {s : InstanceSet}
    {producer : Producer} (hfound : s.producersByHost.lookup host = none)
    (hcreate : Producer.create kafka { s.brokerSettings with address := host } =
      .ok producer) :
    (InstanceSet.ensureProducer kafka host).run s =
      .ok () { s with producersByHost := (host, producer) :: s.producersByHost } := by
  simp only [InstanceSet.ensureProducer, EStateM.run_bind, EStateM.run_get, hfound, hcreate,
    EStateM.run_set]

/-- What a call of `createProducerTopic` can do to the set. -/
theorem createProducerTopic_cases {opt : KafkaMainOpt} {s s' : InstanceSet}
    {kafka : Librdkafka} {uri : URI}
    (hstep : (instanceSetSystem opt).step s (kafka, uri) = some s') :
    s' = s ∨ ∃ producer,
      Producer.create kafka { s.brokerSettings with address := uri.hostPort } =
        .ok producer ∧
      s' = { s with producersByHost := (uri.hostPort, producer) :: s.producersByHost } := by
  rw [instanceSetSystem_step] at hstep
  cases hfound : s.producersByHost.lookup uri.hostPort with
  | some producer =>
      rw [ensureProducer_of_found hfound] at hstep
      cases hstep
      exact Or.inl rfl
  | none =>
      cases hcreate : Producer.create kafka { s.brokerSettings with address := uri.hostPort } with
      | error failure =>
          rw [ensureProducer_of_error hfound hcreate] at hstep
          cases hstep
          exact Or.inl rfl
      | ok producer =>
          rw [ensureProducer_of_ok hfound hcreate] at hstep
          cases hstep
          exact Or.inr ⟨producer, rfl, rfl⟩

/-- The answers as `addMapping` is given them. -/
def KafkaW.Librdkafka.answer (kafka : Librdkafka) (settings : BrokerSettings) : KafkaAnswer where
  producerFailure :=
    match Producer.create kafka settings with
    | .error failure => some failure
    | .ok _ => none
  topicCreated := kafka.topicCreated

/-- The control plane only sees for which hosts there is a producer. -/
def Forwarder.withInstanceSet {α : Type} (s : Forwarder) :
    EStateM.Result Exception InstanceSet α → EStateM.Result Exception Forwarder α
  | .ok value set => .ok value { s with producersByHost := set.producersByHost.map Prod.fst }
  | .error e set => .error e { s with producersByHost := set.producersByHost.map Prod.fst }

/-- `createProducerTopic` of the control plane is that of the instance set. -/
theorem createProducerTopic_eq_instanceSet {s : Forwarder} {set : InstanceSet}
    (hhosts : s.producersByHost = set.producersByHost.map Prod.fst) (kafka : Librdkafka)
    (uri : URI) :
    (createProducerTopic
        (kafka.answer { set.brokerSettings with address := uri.hostPort }) uri).run s =
      s.withInstanceSet ((InstanceSet.createProducerTopic kafka uri).run set) := by
  have hsame : { s with producersByHost := set.producersByHost.map Prod.fst } = s := by
    rw [← hhosts]
  have hmem : uri.hostPort ∈ s.producersByHost ↔
      (set.producersByHost.lookup uri.hostPort).isSome = true := by
    rw [hhosts, List.lookup_isSome_iff, List.mem_map]
    exact exists_congr fun entry => and_congr_right fun _ => by rw [beq_iff_eq, eq_comm]
  simp only [createProducerTopic, InstanceSet.createProducerTopic, EStateM.run_bind,
    EStateM.run_get]
  cases hfound : set.producersByHost.lookup uri.hostPort with
  | some producer =>
      rw [hfound, Option.isSome_some] at hmem
      rw [ensureProducer_of_found hfound]
      simp only [hmem.mpr rfl, not_true_eq_false, if_false]
      cases htopic : kafka.topicCreated
      all_goals
        simp only [KafkaW.Librdkafka.answer, htopic]
        exact congrArg _ hsame.symm
  | none =>
      rw [hfound, Option.isSome_none] at hmem
      have hnew : uri.hostPort ∉ s.producersByHost := fun hknown => by simp [hmem] at hknown
      simp only [hnew, not_false_eq_true, if_true]
      cases hcreate :
          Producer.create kafka { set.brokerSettings with address := uri.hostPort } with
      | error failure =>
          rw [ensureProducer_of_error hfound hcreate]
          simp only [KafkaW.Librdkafka.answer, hcreate]
          exact congrArg _ hsame.symm
      | ok producer =>
          rw [ensureProducer_of_ok hfound hcreate]
          have hinsert : s.producersByHost.insert uri.hostPort =
              uri.hostPort :: set.producersByHost.map Prod.fst := by
            rw [List.insert_of_not_mem hnew, hhosts]
          cases htopic : kafka.topicCreated
          all_goals
            simp only [KafkaW.Librdkafka.answer, hcreate, htopic, hinsert]
            rfl

/-- The command line keeps the last value given for a key. -/
theorem parseOpt_lookup (options : List (String × String)) (key : String) :
    (parseOpt options).mainSettingsKafkaConfiguration.lookup key = lastGiven options key := by
  have hfrom : ∀ map : ConfigMap,
      List.lookup key (addKafkaOption (options.flatMap fun option => [option.1, option.2]) map) =
        (lastGiven options key).or (map.lookup key) := by
    induction options with
    | nil => exact fun map => rfl
    | cons option rest ih =>
        intro map
        rw [List.flatMap_cons, List.cons_append, List.singleton_append, addKafkaOption, ih,
          ConfigMap.lookup_assign, lastGiven, lastGiven, List.reverse_cons, List.lookup_append,
          Option.or_assoc, List.lookup_cons]
        by_cases hkey : key = option.1
        · simp [hkey]
        · simp [hkey, beq_eq_false_iff_ne.mpr hkey]
  rw [parseOpt, hfrom]
  exact Option.or_none

/-- All producers have the settings of the set, which nobody changes. -/
structure ProducersConfigured (opt : KafkaMainOpt) (s : InstanceSet) : Prop where
  settings : s.brokerSettings = opt.globalBrokerSettings
  applied : ∀ entry ∈ s.producersByHost,
    entry.2.applied = opt.globalBrokerSettings.kafkaConfiguration

theorem reachable_producersConfigured {opt : KafkaMainOpt} {s : InstanceSet}
    (hreach : (instanceSetSystem opt).Reachable s) : ProducersConfigured opt s := by
  apply hreach.invariant
  · rintro s rfl
    exact ⟨rfl, by simp [KafkaMainOpt.instanceSet]⟩
  · rintro s ⟨kafka, uri⟩ s' _ hconfigured hstep
    rcases createProducerTopic_cases hstep with rfl | ⟨producer, hcreate, rfl⟩
    · exact hconfigured
    · refine ⟨hconfigured.settings, ?_⟩
      intro entry hentry
      rcases List.mem_cons.mp hentry with rfl | hold
      · rw [create_applied hcreate, hconfigured.settings]
      · exact hconfigured.applied entry hold

/-- librdkafka can agree to everything. -/
theorem applyItems_accepted (items conf : ConfigMap) :
    KafkaW.applyItems (fun _ _ => true) items conf = .ok (conf ++ items) := by
  induction items generalizing conf with
  | nil => rw [KafkaW.applyItems, List.append_nil]
  | cons item rest ih =>
      rw [KafkaW.applyItems, if_pos rfl, ih, List.append_assoc, List.singleton_append]

theorem exists_reachable_producer (opt : KafkaMainOpt) :
    ∃ s entry, (instanceSetSystem opt).Reachable s ∧ entry ∈ s.producersByHost := by
  have hcreate : Producer.create {} { opt.globalBrokerSettings with address := "" } =
      .ok ⟨opt.globalBrokerSettings.kafkaConfiguration, ""⟩ := by
    simp [Producer.create, BrokerSettings.apply, applyItems_accepted]
  have hstep : (instanceSetSystem opt).step opt.instanceSet ({}, {}) =
      some ⟨opt.globalBrokerSettings,
        [("", ⟨opt.globalBrokerSettings.kafkaConfiguration, ""⟩)]⟩ := by
    rw [instanceSetSystem_step, ensureProducer_of_ok rfl hcreate]
    rfl
  have hinit : (instanceSetSystem opt).Reachable opt.instanceSet := .init rfl
  exact ⟨_, _, hinit.next hstep, List.mem_cons_self⟩

/-- The options of the command line reach the producers exactly if they ask
for what is the default anyway. -/
theorem optionsReachProducers_iff (options : List (String × String)) :
    OptionsReachProducers options ↔
      ∀ key value, lastGiven options key = some value →
        KafkaW.defaultConfiguration.lookup key = some value := by
  constructor
  · intro hreach key value hgiven
    obtain ⟨s, entry, hs, hentry⟩ := exists_reachable_producer (parseOpt options)
    have hkey := hreach s hs entry hentry key
    rw [(reachable_producersConfigured hs).applied entry hentry, hgiven, Option.some_or] at hkey
    exact hkey
  · intro hdefault s hs entry hentry key
    rw [(reachable_producersConfigured hs).applied entry hentry]
    cases hgiven : lastGiven options key with
    | none => rw [Option.none_or]; rfl
    | some value =>
        rw [Option.some_or]
        exact hdefault key value hgiven

/-- A smaller `message.max.bytes` is given, but the producers keep the default. -/
theorem smallerMaxBytes_not_reach :
    ¬ OptionsReachProducers [("message.max.bytes", "1000")] := by
  intro hreach
  obtain ⟨s, entry, hs, hentry⟩ :=
    exists_reachable_producer (parseOpt [("message.max.bytes", "1000")])
  have hkey := hreach s hs entry hentry "message.max.bytes"
  rw [(reachable_producersConfigured hs).applied entry hentry] at hkey
  exact absurd hkey (by decide +kernel)

end EpicsToKafka
