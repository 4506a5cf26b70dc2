/-
Streams that are added at start-up and streams that are added by a command.
Both go through `addMapping` one by one.  The loop of the constructor catches
what a call throws and goes on with the next stream; the loop of the command
is ended by the first exception.
-/
import EpicsToKafka.ConverterNames

namespace EpicsToKafka

/-- The loop of the constructor over the streams of the configuration file. -/
def addMappingsAtStartup (opt : MainOpt) :
    (Nat → MappingAnswers) → List StreamSettings → Forwarding Unit
  | _, [] => pure ()
  | answers, streamInfo :: rest => do
      tryCatch (addMapping opt (answers 0) streamInfo) fun _ => pure ()
      addMappingsAtStartup opt (fun i => answers (i + 1)) rest

/-- Both pieces of code, started in the same state, end with the same streams.
The conversion paths are part of the streams. -/
def SameStreams (first second : Forwarding Unit) (s : Forwarder) : Prop :=
  ∀ s₁ s₂, EndsIn first s s₁ → EndsIn second s s₂ → s₁.streams = s₂.streams

def Forwarder.channelNames (s : Forwarder) : List String :=
  s.streams.map fun stream => stream.channelInfo.channelName

/-- The hosts with a producer after all converters have been pushed. -/
def topicHosts (hosts : List String) : List ConverterSettings → List String
  | [] => hosts
  | converter :: rest =>
      topicHosts ((topicHost converter.topic).elim hosts hosts.insert) rest

/-- `Refused`, in terms of the channels that have a stream. -/
def RefusedAmong (opt : MainOpt) (channels : List String) (answers : MappingAnswers)
    (streamInfo : StreamSettings) : Prop :=
  streamInfo.name ∈ channels ∨ (opt.fakePVPeriodMS = 0 ∧ answers.initialized = false)

def AllRefused (opt : MainOpt) (channels : List String) :
    (Nat → MappingAnswers) → List StreamSettings → Prop
  | _, [] => True
  | answers, streamInfo :: rest =>
      RefusedAmong opt channels (answers 0) streamInfo ∧
        AllRefused opt channels (fun i => answers (i + 1)) rest

/-- After the first stream that throws, all streams are refused.  A stream that
throws without being refused has been added nevertheless. -/
def OnlyRefusedFollow (opt : MainOpt) : List String → List String →
    (Nat → MappingAnswers) → List StreamSettings → Prop
  | _, _, _, [] => True
  | channels, hosts, answers, streamInfo :: rest =>
      (RefusedAmong opt channels (answers 0) streamInfo →
        AllRefused opt channels (fun i => answers (i + 1)) rest) ∧
      (¬ RefusedAmong opt channels (answers 0) streamInfo →
        MappingFits hosts (answers 0) streamInfo.converters →
          OnlyRefusedFollow opt (channels ++ [streamInfo.name])
            (topicHosts hosts streamInfo.converters) (fun i => answers (i + 1)) rest) ∧
      (¬ RefusedAmong opt channels (answers 0) streamInfo →
        ¬ MappingFits hosts (answers 0) streamInfo.converters →
          AllRefused opt (channels ++ [streamInfo.name]) (fun i => answers (i + 1)) rest)

theorem refused_iff {opt : MainOpt} {answers : MappingAnswers}
    {streamInfo : StreamSettings} {s : Forwarder} :
    Refused opt answers streamInfo s ↔
      RefusedAmong opt s.channelNames answers streamInfo := by
  simp [Refused, RefusedAmong, Forwarder.channelNames, Forwarder.getStreamByChannelName]

namespace Forwarder

variable {opt : MainOpt} {s s' : Forwarder}

theorem channelNames_updateStream (address : Nat) {f : MappedStream → MappedStream}
    (hkeeps : ∀ stream, (f stream).channelInfo = stream.channelInfo) :
    (s.updateStream address f).channelNames = s.channelNames :=
  s.map_streams_updateStream address fun stream => by rw [hkeeps]

theorem channelNames_afterCallbacks (opt : MainOpt) (streamInfo : StreamSettings) :
    (s.afterCallbacks opt streamInfo).channelNames = s.channelNames ++ [streamInfo.name] := by
  simp [channelNames, afterCallbacks, addCallbacks, afterAddStream]

theorem channelNames_afterOpen (streamInfo : StreamSettings) (uri : Option URI) :
    (s.afterOpen opt streamInfo uri).channelNames = s.channelNames ++ [streamInfo.name] := by
  rw [← channelNames_afterCallbacks opt]
  unfold afterOpen
  rw [channelNames_updateStream]
  · cases uri with
    | none => rfl
    | some uri =>
        exact channelNames_updateStream _ fun stream => stream.setProducer_channelInfo _
  · exact fun stream => stream.setServiceID_channelInfo _

end Forwarder

theorem PushMove.channelNames {converterInfo : ConverterSettings} {stream : Nat}
    {s s' : Forwarder} (hmove : PushMove converterInfo stream s s') :
    s'.channelNames = s.channelNames := by
  have hobtained : (s.afterObtain converterInfo).channelNames = s.channelNames := by
    simp only [Forwarder.channelNames, Forwarder.afterObtain_streams]
  cases hmove with
  | thrown => rfl
  | obtained hosts _ _ => exact hobtained
  | pushed uri _ _ =>
      refine Eq.trans ?_ hobtained
      exact Forwarder.channelNames_updateStream _ fun stream =>
        stream.addConverter_channelInfo _

section Mapping

variable {opt : MainOpt} {s s' : Forwarder}

variable {answers : MappingAnswers} {streamInfo : StreamSettings}

/-- A mapping that is not refused adds its channel, even if it throws. -/
theorem addMapping_channelNames (hrefused : ¬ Refused opt answers streamInfo s)
    (hends : EndsIn (addMapping opt answers streamInfo) s s') :
    s'.channelNames = s.channelNames ++ [streamInfo.name] := by
  obtain ⟨opened, hmove, hsame⟩ := addMapping_view PushMove.channelNames hends
  rw [hsame]
  cases hmove with
  | refused hfalse => exact absurd hfalse hrefused
  | opened _ uri => exact Forwarder.channelNames_afterOpen streamInfo uri
  | thrown _ hosts => exact Forwarder.channelNames_afterCallbacks opt streamInfo

theorem pushConverters_producersByHost {converters : List ConverterSettings} {stream : Nat}
    {kafka : Nat → KafkaAnswer} (hfit : ConvertersFit s.producersByHost kafka converters)
    (hends : EndsIn (pushConverters opt stream kafka converters) s s') :
    s'.producersByHost = topicHosts s.producersByHost converters := by
  induction converters generalizing s kafka with
  | nil =>
      rw [hends.eq_of_ok rfl]
      rfl
  | cons converter rest ih =>
      obtain ⟨host, hfits, hrest⟩ := hfit
      obtain ⟨uri, rfl, hpush⟩ := pushConverterToStream_of_fits opt stream hfits
      simp only [EndsIn, pushConverters, EStateM.run_bind, hpush] at hends
      rw [← Forwarder.afterPush_producersByHost s converter stream] at hrest
      rw [ih hrest hends, Forwarder.afterPush_producersByHost, topicHosts, hfits.topic]
      rfl

/-- The host of the connection status is the one of the first converter. -/
theorem topicHosts_insert {hosts : List String} {first : ConverterSettings}
    {rest : List ConverterSettings} {uri : URI}
    (huri : URI.ofString first.topic = .ok uri) :
    topicHosts (hosts.insert uri.hostPort) (first :: rest) =
      topicHosts hosts (first :: rest) := by
  have hhost : topicHost first.topic = some uri.hostPort := by
    simp [topicHost, huri, Except.toOption]
  simp [topicHosts, hhost]

theorem addMapping_producersByHost (hrefused : ¬ Refused opt answers streamInfo s)
    (hfits : MappingFits s.producersByHost answers streamInfo.converters)
    (hends : EndsIn (addMapping opt answers streamInfo) s s') :
    s'.producersByHost = topicHosts s.producersByHost streamInfo.converters := by
  cases hconverters : streamInfo.converters with
  | nil =>
      have hopen := openStream_of_nil opt hrefused hconverters (answers.kafka 0)
      have hpush : (pushConverters opt s.nextAddress (fun i => answers.kafka (i + 1))
          streamInfo.converters).run (s.afterOpen opt streamInfo none) =
            .ok () (s.afterOpen opt streamInfo none) := by
        rw [hconverters]
        rfl
      rw [hends.eq_of_ok (addMapping_of_pushConverters_ok opt hopen hpush)]
      rfl
  | cons first rest =>
      rw [hconverters] at hfits
      obtain ⟨uri, huri, hserves, hfit⟩ := hfits
      have hopen := openStream_of_fits opt hrefused hconverters huri hserves
      rw [← Forwarder.afterOpen_producersByHost opt, ← hconverters] at hfit
      obtain ⟨final, hpush⟩ := pushConverters_of_fit opt s.nextAddress hfit
      rw [hends.eq_of_ok (addMapping_of_pushConverters_ok opt hopen hpush),
        pushConverters_producersByHost hfit (Or.inl ⟨_, hpush⟩),
        Forwarder.afterOpen_producersByHost, hconverters, topicHosts_insert huri]

end Mapping

section Loops

variable {opt : MainOpt} {answers : Nat → MappingAnswers} {streamInfo : StreamSettings}
  {rest : List StreamSettings} {s s' : Forwarder}

theorem EndsIn.unique {α : Type} {code : Forwarding α} {s s₁ s₂ : Forwarder}
    (hfirst : EndsIn code s s₁) (hsecond : EndsIn code s s₂) : s₁ = s₂ := by
  rcases hsecond with ⟨result, hrun⟩ | ⟨e, hrun⟩
  · exact hfirst.eq_of_ok hrun
  · exact hfirst.eq_of_error hrun

theorem EndsIn.exists (code : Forwarding Unit) (s : Forwarder) : ∃ s', EndsIn code s s' := by
  cases hrun : code.run s with
  | ok result s' => exact ⟨s', Or.inl ⟨result, hrun⟩⟩
  | error e s' => exact ⟨s', Or.inr ⟨e, hrun⟩⟩

/-- A handler that does nothing: the code returns in the state it ends in. -/
theorem run_tryCatch_of_endsIn {code : Forwarding Unit} (hends : EndsIn code s s') :
    (tryCatch code fun _ => pure ()).run s = .ok () s' := by
  rcases hends with ⟨result, hrun⟩ | ⟨e, hrun⟩
  · rw [EStateM.run] at hrun
    simp only [EStateM.run, tryCatch, tryCatchThe, MonadExceptOf.tryCatch, EStateM.tryCatch,
      hrun]
  · rw [EStateM.run] at hrun
    simp only [EStateM.run, tryCatch, tryCatchThe, MonadExceptOf.tryCatch, EStateM.tryCatch,
      hrun]
    rfl

/-- What a mapping throws does not end the loop at start-up. -/
theorem addMappingsAtStartup_run (rest : List StreamSettings)
    (hends : EndsIn (addMapping opt (answers 0) streamInfo) s s') :
    (addMappingsAtStartup opt answers (streamInfo :: rest)).run s =
      (addMappingsAtStartup opt (fun i => answers (i + 1)) rest).run s' := by
  simp only [addMappingsAtStartup, EStateM.run_bind, run_tryCatch_of_endsIn hends]

theorem endsIn_addMapping_of_refused (hrefused : Refused opt (answers 0) streamInfo s)
    (hends : EndsIn (addMapping opt (answers 0) streamInfo) s s') : s' = s := by
  obtain ⟨e, hopen⟩ := openStream_of_refused opt hrefused ((answers 0).kafka 0)
  exact hends.eq_of_error (addMapping_of_openStream_error opt hopen)

/-- The loop at start-up never loses a channel. -/
theorem addMappingsAtStartup_channelNames {streams : List StreamSettings}
    (hends : EndsIn (addMappingsAtStartup opt answers streams) s s') :
    s.channelNames <+: s'.channelNames := by
  induction streams generalizing s answers with
  | nil =>
      have hsame : s' = s := hends.eq_of_ok rfl
      exact hsame ▸ List.prefix_rfl
  | cons streamInfo rest ih =>
      obtain ⟨added, hadded⟩ := EndsIn.exists (addMapping opt (answers 0) streamInfo) s
      rw [EndsIn, addMappingsAtStartup_run rest hadded] at hends
      have hrest := ih hends
      by_cases hrefused : Refused opt (answers 0) streamInfo s
      · rwa [endsIn_addMapping_of_refused hrefused hadded] at hrest
      · rw [addMapping_channelNames hrefused hadded] at hrest
        exact (List.prefix_append _ _).trans hrest

/-- The loop at start-up leaves the streams as they are exactly if it adds none. -/
theorem addMappingsAtStartup_streams_iff {streams : List StreamSettings}
    (hends : EndsIn (addMappingsAtStartup opt answers streams) s s') :
    s'.streams = s.streams ↔ AllRefused opt s.channelNames answers streams := by
  induction streams generalizing s answers with
  | nil =>
      rw [hends.eq_of_ok rfl]
      exact iff_of_true rfl trivial
  | cons streamInfo rest ih =>
      obtain ⟨added, hadded⟩ := EndsIn.exists (addMapping opt (answers 0) streamInfo) s
      rw [EndsIn, addMappingsAtStartup_run rest hadded] at hends
      rw [AllRefused, ← refused_iff]
      by_cases hrefused : Refused opt (answers 0) streamInfo s
      · have hsame := endsIn_addMapping_of_refused hrefused hadded
        subst hsame
        rw [ih hends, and_iff_right hrefused]
      · refine iff_of_false (fun hstreams => ?_) fun hall => hrefused hall.1
        have hlength := (addMappingsAtStartup_channelNames hends).length_le
        rw [addMapping_channelNames hrefused hadded] at hlength
        simp only [Forwarder.channelNames, hstreams, List.length_append, List.length_map,
          List.length_singleton] at hlength
        omega

theorem addMappings_run_of_error (rest : List StreamSettings) {e : Exception}
    (hrun : (addMapping opt (answers 0) streamInfo).run s = .error e s') :
    (addMappings opt answers (streamInfo :: rest)).run s = .error e s' := by
  simp only [addMappings, EStateM.run_bind, hrun]

theorem sameStreams_iff {first second : Forwarding Unit} {s₁ s₂ : Forwarder}
    (hfirst : EndsIn first s s₁) (hsecond : EndsIn second s s₂) :
    SameStreams first second s ↔ s₁.streams = s₂.streams := by
  constructor
  · exact fun hsame => hsame s₁ s₂ hfirst hsecond
  · intro hstreams s₁' s₂' hfirst' hsecond'
    rw [hfirst'.unique hfirst, hsecond'.unique hsecond, hstreams]

/-- If the first mapping throws, the command has ended and only the loop at
start-up goes on. -/
theorem sameStreams_of_error {e : Exception} (rest : List StreamSettings)
    (hrun : (addMapping opt (answers 0) streamInfo).run s = .error e s') :
    SameStreams (addMappingsAtStartup opt answers (streamInfo :: rest))
        (addMappings opt answers (streamInfo :: rest)) s ↔
      AllRefused opt s'.channelNames (fun i => answers (i + 1)) rest := by
  obtain ⟨final, hends⟩ :=
    EndsIn.exists (addMappingsAtStartup opt (fun i => answers (i + 1)) rest) s'
  have hstartup : EndsIn (addMappingsAtStartup opt answers (streamInfo :: rest)) s final := by
    rwa [EndsIn, addMappingsAtStartup_run rest (Or.inr ⟨e, hrun⟩)]
  have hcommand : EndsIn (addMappings opt answers (streamInfo :: rest)) s s' :=
    Or.inr ⟨e, addMappings_run_of_error rest hrun⟩
  rw [sameStreams_iff hstartup hcommand, addMappingsAtStartup_streams_iff hends]

/-- If it does not, both go on. -/
theorem sameStreams_of_ok (rest : List StreamSettings)
    (hrun : (addMapping opt (answers 0) streamInfo).run s = .ok () s') :
    SameStreams (addMappingsAtStartup opt answers (streamInfo :: rest))
        (addMappings opt answers (streamInfo :: rest)) s ↔
      SameStreams (addMappingsAtStartup opt (fun i => answers (i + 1)) rest)
        (addMappings opt (fun i => answers (i + 1)) rest) s' := by
  have hcommand : (addMappings opt answers (streamInfo :: rest)).run s =
      (addMappings opt (fun i => answers (i + 1)) rest).run s' := by
    simp only [addMappings, EStateM.run_bind, hrun]
  simp only [SameStreams, EndsIn, addMappingsAtStartup_run rest (Or.inl ⟨(), hrun⟩), hcommand]

theorem sameStreams_iff_onlyRefusedFollow (opt : MainOpt) (answers : Nat → MappingAnswers)
    (streams : List StreamSettings) (s : Forwarder) :
    SameStreams (addMappingsAtStartup opt answers streams) (addMappings opt answers streams) s ↔
      OnlyRefusedFollow opt s.channelNames s.producersByHost answers streams := by
  induction streams generalizing s answers with
  | nil =>
      have hends : EndsIn (addMappings opt answers []) s s := Or.inl ⟨(), rfl⟩
      exact iff_of_true ((sameStreams_iff hends hends).mpr rfl) trivial
  | cons streamInfo rest ih =>
      rw [OnlyRefusedFollow, ← refused_iff]
      by_cases hrefused : Refused opt (answers 0) streamInfo s
      · obtain ⟨e, hopen⟩ := openStream_of_refused opt hrefused ((answers 0).kafka 0)
        rw [sameStreams_of_error rest (addMapping_of_openStream_error opt hopen)]
        simp only [hrefused, true_implies, not_true_eq_false, false_implies, and_true]
      · by_cases hfits : MappingFits s.producersByHost (answers 0) streamInfo.converters
        · obtain ⟨added, hrun⟩ := addMapping_of_fits opt hrefused hfits
          have hends : EndsIn (addMapping opt (answers 0) streamInfo) s added :=
            Or.inl ⟨(), hrun⟩
          rw [sameStreams_of_ok rest hrun, ih, addMapping_channelNames hrefused hends,
            addMapping_producersByHost hrefused hfits hends]
          simp only [hrefused, hfits, false_implies, not_false_eq_true, true_implies,
            not_true_eq_false, and_true, true_and]
        · obtain ⟨e, added, hrun, -⟩ := addMapping_of_not_fits opt hrefused hfits
          have hends : EndsIn (addMapping opt (answers 0) streamInfo) s added :=
            Or.inr ⟨e, hrun⟩
          rw [sameStreams_of_error rest hrun, addMapping_channelNames hrefused hends]
          simp only [hrefused, hfits, false_implies, not_false_eq_true, true_implies,
            true_and]

/-- The loop at start-up is how a session begins. -/
theorem reachable_addMappingsAtStartup {streams : List StreamSettings}
    (hreach : (sessionSystem opt).Reachable ⟨s, .adding true streams⟩)
    (hends : EndsIn (addMappingsAtStartup opt answers streams) s s') :
    (sessionSystem opt).Reachable ⟨s', .idle⟩ := by
  induction streams generalizing s answers with
  | nil =>
      have hfinish : (sessionSystem opt).step ⟨s, .adding true []⟩ .finish =
          some ⟨s, .idle⟩ := rfl
      rw [hends.eq_of_ok rfl]
      exact hreach.next hfinish
  | cons streamInfo rest ih =>
      have hmapping := reachable_addMapping (answers 0) hreach
      obtain ⟨added, hadded⟩ := EndsIn.exists (addMapping opt (answers 0) streamInfo) s
      rw [EndsIn, addMappingsAtStartup_run rest hadded] at hends
      rcases hadded with ⟨result, hrun⟩ | ⟨e, hrun⟩
      · rw [hrun] at hmapping
        exact ih hmapping hends
      · rw [hrun] at hmapping
        exact ih hmapping hends

end Loops

/-- The command that adds the streams of a list runs its loop over them. -/
theorem handleCommandAdd_run (opt : MainOpt) (answers : Nat → MappingAnswers)
    {document : Json} {streams : List StreamSettings}
    (hparsed : ConfigParser.extractStreamInfo document = .ok streams) (s : Forwarder) :
    (handleCommandAdd opt answers document).run s = (addMappings opt answers streams).run s := by
  simp only [handleCommandAdd, hparsed, liftExcept, EStateM.run_bind, EStateM.run_pure]

/-- Streams added at start-up and by a command agree exactly if nothing but
refused streams follows the first one that throws. -/
theorem startup_agrees_with_command_iff (opt : MainOpt) (answers : Nat → MappingAnswers)
    (streams : List StreamSettings) (s : Forwarder) :
    (SameStreams (addMappingsAtStartup opt answers streams) (addMappings opt answers streams) s ↔
      OnlyRefusedFollow opt s.channelNames s.producersByHost answers streams) ∧
    ∀ document, ConfigParser.extractStreamInfo document = .ok streams →
      (SameStreams (addMappingsAtStartup opt answers streams)
          (handleCommandAdd opt answers document) s ↔
        OnlyRefusedFollow opt s.channelNames s.producersByHost answers streams) := by
  refine ⟨sameStreams_iff_onlyRefusedFollow opt answers streams s, ?_⟩
  intro document hparsed
  rw [← sameStreams_iff_onlyRefusedFollow]
  simp only [SameStreams, EndsIn, handleCommandAdd_run opt answers hparsed]

/-- A command for two channels, each with a converter to the topic `pv_topic`. -/
def addTwoCommand (first firstSchema second secondSchema : String) : Json :=
  .object [("cmd", .string "add"), ("streams", .array
    [.object [("channel", .string first), ("converter", .object
      [("schema", .string firstSchema), ("topic", .string "//kafka/pv_topic")])],
    .object [("channel", .string second), ("converter", .object
      [("schema", .string secondSchema), ("topic", .string "//kafka/pv_topic")])]])]

/-- The settings that the parser makes of it. -/
def addTwoSettings (first firstSchema second secondSchema : String) : List StreamSettings :=
  [⟨first, "pva", [⟨firstSchema, "//kafka/pv_topic", "converter_0"⟩]⟩,
    ⟨second, "pva", [⟨secondSchema, "//kafka/pv_topic", "converter_1"⟩]⟩]

/-- A schema that is not registered, and a second try for the same channel: the
stream that the first try has left behind keeps the second out. -/
theorem secondTry_agrees :
    SameStreams
      (addMappingsAtStartup {} (fun _ => {}) (addTwoSettings "pv" "f143" "pv" "f142"))
      (handleCommandAdd {} (fun _ => {}) (addTwoCommand "pv" "f143" "pv" "f142")) {} := by
  have hparsed : ConfigParser.extractStreamInfo (addTwoCommand "pv" "f143" "pv" "f142") =
      .ok (addTwoSettings "pv" "f143" "pv" "f142") := by decide +kernel
  apply ((startup_agrees_with_command_iff {} (fun _ => {}) _ {}).2 _ hparsed).mpr
  refine ⟨fun hrefused => ?_, fun _ _ => ?_, fun _ _ => ?_⟩
  · simp [RefusedAmong, Forwarder.channelNames] at hrefused
  · exact ⟨fun _ => trivial, fun _ _ => trivial, fun _ _ => trivial⟩
  · exact ⟨Or.inl (by simp), trivial⟩

/-- A schema that is not registered, and another channel after it: only the
loop at start-up adds the other channel. -/
theorem otherChannel_differs :
    ¬ ∀ (opt : MainOpt) (answers : Nat → MappingAnswers) (streams : List StreamSettings)
      (document : Json) (s : Forwarder),
      ConfigParser.extractStreamInfo document = .ok streams →
        SameStreams (addMappingsAtStartup opt answers streams)
          (handleCommandAdd opt answers document) s := by
  intro hall
  have hsame := hall {} (fun _ => {}) (addTwoSettings "pv1" "f143" "pv2" "f142")
    (addTwoCommand "pv1" "f143" "pv2" "f142") {} (by decide +kernel)
  have hcheck : (match
      (addMappingsAtStartup {} (fun _ => {}) (addTwoSettings "pv1" "f143" "pv2" "f142")).run {},
      (handleCommandAdd {} (fun _ => {}) (addTwoCommand "pv1" "f143" "pv2" "f142")).run {} with
    | .ok _ s₁, .error _ s₂ => s₁.streams ≠ s₂.streams
    | _, _ => false) = true := by decide +kernel
  split at hcheck
  · rename_i s₁ e s₂ hstartup hcommand
    exact of_decide_eq_true hcheck (hsame s₁ s₂ (Or.inl ⟨_, hstartup⟩) (Or.inr ⟨_, hcommand⟩))
  · cases hcheck

end EpicsToKafka
