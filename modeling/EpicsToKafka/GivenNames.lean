/-
Converters are shared on request.  A session is accompanied by a record of the
`name` fields of the JSON: of the converters that are still to be pushed and of
those that have become conversion paths.
-/
import EpicsToKafka.ConverterSharing
import Mathlib.Data.List.Forall2

namespace EpicsToKafka

open scoped List

namespace ConfigParser

/-- The names that the converters of a stream are given. -/
def givenConverterNames (streamJson : Json) : List (Option String) :=
  match streamJson.find "converter" with
  | some (.object fields) => [Json.findString "name" (.object fields)]
  | some (.array converters) => converters.map (Json.findString "name")
  | _ => []

/-- The names that the converters of a document are given, stream by stream. -/
def givenNames (document : Json) : List (List (Option String)) :=
  match document.find "streams" with
  | some (.array streams) => streams.map givenConverterNames
  | _ => []

end ConfigParser

/-- A converter whose name was given has that name. -/
def ConverterSettings.NamedAs (converter : ConverterSettings) (given : Option String) : Prop :=
  ∀ name, given = some name → converter.name = name

section Parsing

open ConfigParser

theorem forall₂_of_mapM {α β : Type} {f : α → Parser β} {R : β → α → Prop}
    (hf : ∀ x index y index', (f x).run index = .ok y index' → R y x) {xs : List α}
    {ys : List β} {index index' : UInt32} (hrun : (xs.mapM f).run index = .ok ys index') :
    List.Forall₂ R ys xs := by
  induction xs generalizing ys index with
  | nil =>
      cases hrun
      exact .nil
  | cons x rest ih =>
      rw [List.mapM_cons, EStateM.run_bind] at hrun
      cases hhead : (f x).run index with
      | error e middle =>
          rw [hhead] at hrun
          cases hrun
      | ok y middle =>
          simp only [hhead, EStateM.run_bind] at hrun
          cases htail : (rest.mapM f).run middle with
          | error e last =>
              rw [htail] at hrun
              cases hrun
          | ok tail last =>
              simp only [htail] at hrun
              cases hrun
              exact .cons (hf _ _ _ _ hhead) (ih htail)

theorem extractConverterSettings_namedAs (mapping : Json) (index : UInt32)
    (converter : ConverterSettings) (index' : UInt32)
    (hrun : (extractConverterSettings mapping).run index = .ok converter index') :
    converter.NamedAs (mapping.findString "name") := by
  intro name hname
  unfold extractConverterSettings at hrun
  cases hschema : mapping.findString "schema" with
  | none =>
      simp only [hschema, require, EStateM.run_bind] at hrun
      cases hrun
  | some schema =>
      cases htopic : mapping.findString "topic" with
      | none =>
          simp only [hschema, htopic, require, EStateM.run_bind, EStateM.run_pure] at hrun
          cases hrun
      | some topic =>
          simp only [hschema, htopic, hname, require, EStateM.run_bind, EStateM.run_pure] at hrun
          cases hrun
          rfl

/-- The settings of a stream have a converter for each name that was looked for. -/
def StreamSettings.NamedAs (streamInfo : StreamSettings) (given : List (Option String)) :
    Prop :=
  List.Forall₂ ConverterSettings.NamedAs streamInfo.converters given

theorem mapM_extractConverterSettings_namedAs {mappings : List Json} {index index' : UInt32}
    {converters : List ConverterSettings}
    (hrun : (mappings.mapM extractConverterSettings).run index = .ok converters index') :
    List.Forall₂ ConverterSettings.NamedAs converters
      (mappings.map (Json.findString "name")) :=
  List.forall₂_map_right_iff.mpr (forall₂_of_mapM extractConverterSettings_namedAs hrun)

/-- The converters that are made the settings of a stream. -/
theorem run_bind_converters {parser : Parser (List ConverterSettings)} {index index' : UInt32}
    {name epicsProtocol : String} {streamInfo : StreamSettings}
    (hrun : (parser >>= fun converters => pure (⟨name, epicsProtocol, converters⟩ :
      StreamSettings)).run index = .ok streamInfo index') :
    parser.run index = .ok streamInfo.converters index' := by
  rw [EStateM.run_bind] at hrun
  cases hparser : parser.run index with
  | error e last =>
      rw [hparser] at hrun
      cases hrun
  | ok converters last =>
      rw [hparser] at hrun
      cases hrun
      rfl

theorem extractStream_namedAs (streamJson : Json) (index : UInt32)
    (streamInfo : StreamSettings) (index' : UInt32)
    (hrun : (extractStream streamJson).run index = .ok streamInfo index') :
    streamInfo.NamedAs (givenConverterNames streamJson) := by
  unfold extractStream at hrun
  rw [EStateM.run_bind] at hrun
  unfold StreamSettings.NamedAs
  split at hrun
  · unfold givenConverterNames
    cases hfind : streamJson.find "converter" with
    | none =>
        simp only [hfind] at hrun
        cases hrun
        exact .nil
    | some value =>
        cases value with
        | object fields =>
            simp only [hfind] at hrun
            exact mapM_extractConverterSettings_namedAs (run_bind_converters hrun)
        | array converters =>
            simp only [hfind] at hrun
            exact mapM_extractConverterSettings_namedAs (run_bind_converters hrun)
        | null | boolean _ | number _ | string _ =>
            simp only [hfind] at hrun
            cases hrun
            exact .nil
  · cases hrun

theorem extractStreamInfo_namedAs {document : Json} {streams : List StreamSettings}
    (hparsed : extractStreamInfo document = .ok streams) :
    List.Forall₂ StreamSettings.NamedAs streams (givenNames document) := by
  unfold extractStreamInfo at hparsed
  unfold givenNames
  cases hfind : document.find "streams" with
  | none =>
      rw [hfind] at hparsed
      cases hparsed
      exact .nil
  | some value =>
      cases value with
      | array streamsJson =>
          simp only [hfind] at hparsed
          split at hparsed
          · rename_i hrun
            cases hparsed
            exact List.forall₂_map_right_iff.mpr (forall₂_of_mapM extractStream_namedAs hrun)
          · cases hparsed
      | null | boolean _ | number _ | string _ | object _ =>
          rw [hfind] at hparsed
          cases hparsed
          exact .nil

end Parsing

/-- A session with the record of the names.  `pending` belongs to the streams
and `current` to the converters that are left in the loops of the session,
`paths` to the conversion paths of the stream at an address. -/
structure NamedSession where
  session : Session
  pending : List (List (Option String)) := []
  current : List (Option String) := []
  paths : Nat → List (Option String) := fun _ => []

namespace NamedSession

/-- The record after a step to `next`. -/
def track (s : NamedSession) (action : SessionAction) (next : Session) : NamedSession :=
  match action, s.session.control with
  | .command document, _ =>
      { s with session := next, pending := ConfigParser.givenNames document }
  | .openStream _ _, _ =>
      { s with session := next, pending := s.pending.tail, current := s.pending.headD [] }
  | .push _, .mapping _ stream _ _ =>
      { s with
        session := next
        current := s.current.tail
        paths :=
          -- the path may have been dropped
          if s.session.forwarder.livePaths.length < next.forwarder.livePaths.length then
            Function.update s.paths stream (s.paths stream ++ [s.current.headD none])
          else s.paths }
  | _, _ => { s with session := next }

def step (opt : MainOpt) (s : NamedSession) (action : SessionAction) : Option NamedSession :=
  (s.session.step opt action).map (s.track action)

/-- Every live conversion path with the name it was given. -/
def entries (s : NamedSession) : List (ConversionPath × Option String) :=
  s.session.forwarder.pathLists.flatMap fun entry => entry.2.zip (s.paths entry.1)

end NamedSession

/-- A session that starts with the streams of a configuration file. -/
def namedSystem (opt : MainOpt) : Transition.System NamedSession SessionAction where
  init s := ∃ document streamsInfo,
    ConfigParser.extractStreamInfo document = .ok streamsInfo ∧
      s = { session := ⟨{}, .adding true streamsInfo⟩
            pending := ConfigParser.givenNames document }
  step := NamedSession.step opt

/-- Two paths share their converter exactly if both were given the same
non-empty name, and a path that was given none shares it with no other. -/
structure SharedOnRequest (s : NamedSession) : Prop where
  complete : s.entries.map Prod.fst = s.session.forwarder.livePaths
  shared : s.entries.Pairwise fun entry other =>
    entry.1.converter.address = other.1.converter.address ↔
      ∃ name, name ≠ "" ∧ entry.2 = some name ∧ other.2 = some name
  unnamed : s.entries.Pairwise fun entry other =>
    entry.2 = none ∨ other.2 = none →
      entry.1.converter.address ≠ other.1.converter.address

/-- If a path that is asked for gets a name that is in use, both names were
given; `given` is the name in the JSON. -/
def ConverterSettings.SharesGivenName (converterInfo : ConverterSettings)
    (given : Option String) (entries : List (ConversionPath × Option String)) : Prop :=
  converterInfo.schema ∈ registeredSchemas →
    (topicHost converterInfo.topic).isSome → converterInfo.name ≠ "" →
      ∀ entry ∈ entries, entry.1.requested.name = converterInfo.name →
        entry.2.isSome ∧ given.isSome

/-- The converter that a step asks for. -/
def Session.requestedBy (s : Session) (action : SessionAction) : Option ConverterSettings :=
  match action, s.control with
  | .push _, .mapping _ _ (converter :: _) _ => some converter
  | _, _ => none

/-- The condition on a step. -/
def NamedSession.SharesGivenNames (s : NamedSession) (action : SessionAction) : Prop :=
  ∀ converter ∈ s.session.requestedBy action,
    converter.SharesGivenName (s.current.headD none) s.entries

/-- The record and the loops of the session are at the same place. -/
def NamedSession.Aligned (s : NamedSession) : Prop :=
  match s.session.control with
  | .idle => True
  | .adding _ pending => List.Forall₂ StreamSettings.NamedAs pending s.pending
  | .mapping _ _ converters pending =>
      List.Forall₂ ConverterSettings.NamedAs converters s.current ∧
        List.Forall₂ StreamSettings.NamedAs pending s.pending

section Record

variable {opt : MainOpt} {s s' : NamedSession} {action : SessionAction}

@[simp] theorem NamedSession.track_session (next : Session) :
    (s.track action next).session = next := by
  unfold track
  split <;> rfl

theorem namedSystem_session {ok : NamedSession → SessionAction → Prop}
    (hreach : (namedSystem opt).ReachesVia ok s) :
    (sessionSystem opt).Reachable s.session := by
  induction hreach with
  | init hinit =>
      obtain ⟨document, streamsInfo, -, rfl⟩ := hinit
      exact .init ⟨streamsInfo, rfl⟩
  | step _ _ hstep ih =>
      obtain ⟨next, hnext, rfl⟩ := Option.map_eq_some_iff.mp hstep
      rw [NamedSession.track_session]
      exact ih.next hnext

theorem NamedSession.aligned_afterThrow {startup : Bool} {pending : List StreamSettings}
    (hcontrol : s.session.control = .afterThrow startup pending)
    (hpending : List.Forall₂ StreamSettings.NamedAs pending s.pending) : s.Aligned := by
  unfold Aligned
  rw [hcontrol]
  unfold Control.afterThrow
  cases startup with
  | true => exact hpending
  | false => trivial

/-- Only an `add` command starts a loop, over the streams that it lists. -/
theorem Session.handleCommand_control (s : Session) (document : Json) :
    (s.handleCommand document).control = s.control ∨ ∃ settings,
      ConfigParser.extractStreamInfo document = .ok settings ∧
        (s.handleCommand document).control = .adding false settings := by
  unfold handleCommand
  split
  · split
    · exact Or.inr ⟨_, ‹_›, rfl⟩
    · exact Or.inl rfl
  · split <;> exact Or.inl rfl
  · exact Or.inl rfl
  · exact Or.inl rfl
  · exact Or.inl rfl

theorem NamedSession.aligned_handleCommand (document : Json)
    (hidle : s.session.control = .idle) :
    (s.track (.command document) (s.session.handleCommand document)).Aligned := by
  unfold Aligned
  rw [track_session]
  rcases s.session.handleCommand_control document with hsame | ⟨settings, hparsed, hadding⟩
  · rw [hsame, hidle]
    trivial
  · rw [hadding]
    exact extractStreamInfo_namedAs hparsed

theorem NamedSession.Aligned.step (haligned : s.Aligned)
    (hstep : s.step opt action = some s') : s'.Aligned := by
  obtain ⟨next, hnext, rfl⟩ := Option.map_eq_some_iff.mp hstep
  unfold Session.step at hnext
  split at hnext
  · rename_i document hcontrol
    cases hnext
    exact aligned_handleCommand document hcontrol
  · rename_i initialized answer startup streamInfo pending hcontrol
    simp only [Aligned, hcontrol] at haligned
    obtain ⟨names, rest, hnames, hrest, hpending⟩ := List.forall₂_cons_left_iff.mp haligned
    split at hnext
    · cases hnext
      simp only [Aligned, track, hpending]
      exact ⟨hnames, hrest⟩
    · cases hnext
      apply aligned_afterThrow rfl
      simp only [track, hpending]
      exact hrest
  · rename_i answer startup stream converter rest pending hcontrol
    simp only [Aligned, hcontrol] at haligned
    obtain ⟨hconverters, hpending⟩ := haligned
    obtain ⟨name, names, hname, hnames, hcurrent⟩ := List.forall₂_cons_left_iff.mp hconverters
    split at hnext
    · cases hnext
      simp only [Aligned, track, hcontrol, hcurrent]
      exact ⟨hnames, hpending⟩
    · cases hnext
      refine aligned_afterThrow (congrArg Session.control (track_session _)) ?_
      simp only [track, hcontrol]
      exact hpending
  · rename_i startup stream pending hcontrol
    simp only [Aligned, hcontrol] at haligned
    cases hnext
    simp only [Aligned, track]
    exact haligned.2
  · cases hnext
    simp only [Aligned, track]
  · cases hnext
    exact haligned
  · split at hnext <;> cases hnext
    exact haligned
  · cases hnext
    exact haligned
  · cases hnext

/-- What the record guarantees of every run. -/
structure NamedSession.RecordOk (s : NamedSession) : Prop where
  aligned : s.Aligned
  lengths : ∀ entry ∈ s.session.forwarder.pathLists,
    (s.paths entry.1).length = entry.2.length
  unused : ∀ address, s.session.forwarder.nextAddress ≤ address → s.paths address = []
  given : ∀ entry ∈ s.entries, entry.1.requested.NamedAs entry.2

/-- A step that adds no path leaves the record of the paths alone. -/
theorem NamedSession.track_paths_of_kept {next : Session}
    (hkept : StreamsKept s.session.forwarder next.forwarder) :
    (s.track action next).paths = s.paths := by
  unfold track
  split
  · rfl
  · rfl
  · exact if_neg (Nat.not_lt.mpr hkept.livePaths.length_le)
  · rfl

theorem NamedSession.entries_of_kept (action : SessionAction) {next : Session}
    (hkept : StreamsKept s.session.forwarder next.forwarder) :
    (s.track action next).entries <+~ s.entries := by
  unfold entries
  rw [track_paths_of_kept hkept, track_session]
  exact hkept.flatMap _ fun _ => rfl

theorem NamedSession.RecordOk.kept (hok : s.RecordOk) {next : Session}
    (haligned : (s.track action next).Aligned)
    (hkept : StreamsKept s.session.forwarder next.forwarder) :
    (s.track action next).RecordOk := by
  refine ⟨haligned, ?_, ?_, ?_⟩
  · rw [track_paths_of_kept hkept, track_session]
    intro entry hentry
    rcases hkept.pathLists with hsubperm | ⟨hperm, -⟩
    · exact hok.lengths entry (hsubperm.subset hentry)
    · rcases List.mem_cons.mp (hperm.subset hentry) with rfl | hold
      · rw [hok.unused _ (Nat.le_refl _)]
        rfl
      · exact hok.lengths entry hold
  · rw [track_paths_of_kept hkept, track_session]
    exact fun address hle => hok.unused address (Nat.le_trans hkept.nextAddress hle)
  · exact fun entry hentry => hok.given entry ((entries_of_kept action hkept).subset hentry)

variable {startup : Bool} {stream : Nat} {converter : ConverterSettings}
  {rest : List ConverterSettings} {pending : List StreamSettings} {next : Session}
  {path : ConversionPath} (answer : KafkaAnswer) (haddresses : AddressesOk s.session.forwarder)
  (hcontrol : s.session.control = .mapping startup stream (converter :: rest) pending)
  (hadded : PathAdded stream path s.session.forwarder next.forwarder)

include haddresses hcontrol hadded

/-- The step that adds a path records the name that it was given. -/
theorem NamedSession.track_paths_of_added :
    (s.track (.push answer) next).paths =
      Function.update s.paths stream (s.paths stream ++ [s.current.headD none]) := by
  have hlength := (hadded.livePaths haddresses).length_eq
  rw [List.length_append, List.length_singleton] at hlength
  unfold track
  simp only [hcontrol]
  exact if_pos (by omega)

theorem NamedSession.entries_of_added (hok : s.RecordOk) :
    (s.track (.push answer) next).entries ~ s.entries ++ [(path, s.current.headD none)] := by
  unfold entries
  rw [track_paths_of_added answer haddresses hcontrol hadded, track_session]
  apply hadded.flatMap haddresses
  · intro entry _ hne
    rw [Function.update_of_ne hne]
  · intro paths hentry
    rw [Function.update_self]
    exact List.zip_append (hok.lengths _ hentry).symm

theorem NamedSession.RecordOk.added (hok : s.RecordOk)
    (haligned : (s.track (.push answer) next).Aligned) (hrequested : path.requested = converter) :
    (s.track (.push answer) next).RecordOk := by
  have hpaths := track_paths_of_added answer haddresses hcontrol hadded
  have hnext := hadded.nextAddress
  refine ⟨haligned, ?_, ?_, ?_⟩
  · rw [hpaths, track_session, hadded.pathLists]
    intro entry hentry
    obtain ⟨old, hold, rfl⟩ := List.mem_map.mp hentry
    have hlength := hok.lengths old hold
    split
    · rename_i haddress
      rw [haddress, Function.update_self, List.length_append, List.length_append, ← haddress,
        hlength]
      rfl
    · rename_i hne
      rw [Function.update_of_ne hne, hlength]
  · rw [hpaths, track_session]
    intro address hle
    obtain ⟨owner, howner, rfl⟩ := List.mem_map.mp hadded.owner
    have hallocated := haddresses.allocated owner howner
    rw [Function.update_of_ne (by omega)]
    exact hok.unused address (by omega)
  · intro entry hentry
    have hentries := entries_of_added answer haddresses hcontrol hadded hok
    rcases List.mem_append.mp (hentries.subset hentry) with hold | hnew
    · exact hok.given entry hold
    · obtain rfl := List.mem_singleton.mp hnew
      have haligned := hok.aligned
      simp only [Aligned, hcontrol] at haligned
      obtain ⟨name, names, hname, -, hcurrent⟩ :=
        List.forall₂_cons_left_iff.mp haligned.1
      rw [hcurrent, hrequested]
      exact hname

end Record

section Runs

variable {opt : MainOpt} {s s' : NamedSession} {action : SessionAction}

/-- A step adds no path, or the one that the next converter asks for. -/
theorem NamedSession.step_cases (haddresses : AddressesOk s.session.forwarder)
    (hstep : s.step opt action = some s') :
    ∃ next, s' = s.track action next ∧
      (StreamsKept s.session.forwarder next.forwarder ∨
        ∃ answer startup stream converter rest pending path, action = .push answer ∧
          s.session.control = .mapping startup stream (converter :: rest) pending ∧
          converter.schema ∈ registeredSchemas ∧ (topicHost converter.topic).isSome ∧
          path.requested = converter ∧
          PathAdded stream path s.session.forwarder next.forwarder) := by
  obtain ⟨next, hnext, rfl⟩ := Option.map_eq_some_iff.mp hstep
  refine ⟨next, rfl, ?_⟩
  rcases (Session.step_move hnext).pathsKept_or with
    hkept | ⟨answer, startup, stream, converter, rest, pending, haction, hcontrol, hpush⟩
  · exact Or.inl hkept.toStreamsKept
  · rcases hpush.streamsKept_or haddresses with
      hkept | ⟨output, hschema, hhost, -, hadded⟩
    · exact Or.inl hkept
    · exact Or.inr ⟨answer, startup, stream, converter, rest, pending, _, haction, hcontrol,
        hschema, hhost, rfl, hadded⟩

theorem NamedSession.RecordOk.step (hok : s.RecordOk)
    (haddresses : AddressesOk s.session.forwarder) (hstep : s.step opt action = some s') :
    s'.RecordOk := by
  have haligned := hok.aligned.step hstep
  obtain ⟨next, rfl, hcases⟩ := step_cases haddresses hstep
  rcases hcases with hkept | ⟨answer, _, _, _, _, _, _, rfl, hcontrol, -, -, hrequested, hadded⟩
  · exact hok.kept haligned hkept
  · exact hok.added answer haddresses hcontrol hadded haligned hrequested

theorem reachable_recordOk (hreach : (namedSystem opt).Reachable s) : s.RecordOk := by
  apply hreach.invariant
  · rintro state ⟨document, streamsInfo, hparsed, rfl⟩
    refine ⟨extractStreamInfo_namedAs hparsed, ?_, fun _ _ => rfl, ?_⟩
    · simp [Forwarder.pathLists, Forwarder.liveStreams]
    · simp [NamedSession.entries, Forwarder.pathLists, Forwarder.liveStreams]
  · intro state action next hbefore hok hstep
    exact hok.step (reachable_sharingOk (namedSystem_session hbefore)).addresses hstep

/-- Paths that were asked for under the same non-empty name were given it. -/
def NamedSession.GivenAlike (s : NamedSession) : Prop :=
  s.entries.Pairwise fun entry other =>
    entry.1.requested.name = other.1.requested.name → entry.1.requested.name ≠ "" →
      entry.2.isSome ∧ other.2.isSome

theorem NamedSession.GivenAlike.step (halike : s.GivenAlike) (hok : s.RecordOk)
    (haddresses : AddressesOk s.session.forwarder) (hshares : s.SharesGivenNames action)
    (hstep : s.step opt action = some s') : s'.GivenAlike := by
  have hsymm : ∀ {entry other : ConversionPath × Option String},
      (entry.1.requested.name = other.1.requested.name → entry.1.requested.name ≠ "" →
        entry.2.isSome ∧ other.2.isSome) →
      (other.1.requested.name = entry.1.requested.name → other.1.requested.name ≠ "" →
        other.2.isSome ∧ entry.2.isSome) := by
    intro entry other halike hsame hname
    exact (halike hsame.symm (hsame ▸ hname)).symm
  obtain ⟨next, rfl, hcases⟩ := step_cases haddresses hstep
  rcases hcases with hkept |
    ⟨answer, _, _, converter, _, _, path, rfl, hcontrol, hschema, hhost, rfl, hadded⟩
  · obtain ⟨middle, hperm, hsublist⟩ := entries_of_kept action hkept
    exact hperm.pairwise (List.Pairwise.sublist hsublist halike) hsymm
  · have hentries := entries_of_added answer haddresses hcontrol hadded hok
    refine hentries.symm.pairwise ?_ hsymm
    rw [List.pairwise_append]
    refine ⟨halike, List.pairwise_singleton _ _, ?_⟩
    intro entry hentry other hnew hsame hname
    obtain rfl := List.mem_singleton.mp hnew
    have hrequested : s.session.requestedBy (.push answer) = some path.requested := by
      simp only [Session.requestedBy, hcontrol]
    exact hshares path.requested hrequested hschema hhost (hsame ▸ hname) entry hentry hsame

theorem NamedSession.RecordOk.complete (hok : s.RecordOk) :
    s.entries.map Prod.fst = s.session.forwarder.livePaths := by
  rw [entries, List.map_flatMap, Forwarder.livePaths_eq]
  refine List.flatMap_congr fun entry hentry => ?_
  exact List.map_fst_zip (Nat.le_of_eq (hok.lengths entry hentry).symm)

end Runs

/-- In a run in which names that the parser has made up are not in use
otherwise, converters are shared on request and only on request. -/
theorem shared_on_request_of_sharesGivenNames (opt : MainOpt) (s : NamedSession)
    (hreach : (namedSystem opt).ReachesVia NamedSession.SharesGivenNames s) :
    SharedOnRequest s := by
  have hok := reachable_recordOk hreach.reachable
  have hsharing := reachable_sharingOk (namedSystem_session hreach)
  have halike : s.GivenAlike := by
    apply hreach.invariant
    · rintro state ⟨document, streamsInfo, -, rfl⟩
      simp [NamedSession.GivenAlike, NamedSession.entries, Forwarder.pathLists,
        Forwarder.liveStreams]
    · intro state action next hbefore halike hshares hstep
      exact halike.step (reachable_recordOk hbefore)
        (reachable_sharingOk (namedSystem_session hbefore)).addresses hshares hstep
  have hshares := hsharing.shares_iff
  rw [← hok.complete, List.pairwise_map] at hshares
  have hshared : s.entries.Pairwise fun entry other =>
      entry.1.converter.address = other.1.converter.address ↔
        ∃ name, name ≠ "" ∧ entry.2 = some name ∧ other.2 = some name := by
    refine (hshares.and halike).imp_of_mem ?_
    rintro entry other hentry hother ⟨hiff, halike⟩
    rw [hiff]
    constructor
    · rintro ⟨hsame, hname⟩
      obtain ⟨hgiven, hgiven'⟩ := halike hsame hname
      obtain ⟨name, heq⟩ := Option.isSome_iff_exists.mp hgiven
      obtain ⟨name', heq'⟩ := Option.isSome_iff_exists.mp hgiven'
      have hnamed := hok.given entry hentry name heq
      have hnamed' := hok.given other hother name' heq'
      refine ⟨name, hnamed ▸ hname, heq, ?_⟩
      rw [heq', ← hnamed', ← hsame, hnamed]
    · rintro ⟨name, hname, heq, heq'⟩
      have hnamed := hok.given entry hentry name heq
      have hnamed' := hok.given other hother name heq'
      exact ⟨hnamed.trans hnamed'.symm, hnamed ▸ hname⟩
  refine ⟨hok.complete, hshared, hshared.imp ?_⟩
  rintro entry other hiff hnone hsame
  obtain ⟨name, -, heq, heq'⟩ := hiff.mp hsame
  rcases hnone with hnone | hnone
  · cases hnone.symm.trans heq
  · cases hnone.symm.trans heq'

instance (converterInfo : ConverterSettings) (given : Option String)
    (entries : List (ConversionPath × Option String)) :
    Decidable (converterInfo.SharesGivenName given entries) :=
  inferInstanceAs (Decidable (converterInfo.schema ∈ registeredSchemas →
    (topicHost converterInfo.topic).isSome → converterInfo.name ≠ "" →
      ∀ entry ∈ entries, entry.1.requested.name = converterInfo.name →
        entry.2.isSome ∧ given.isSome))

instance (s : NamedSession) (action : SessionAction) :
    Decidable (s.SharesGivenNames action) :=
  inferInstanceAs (Decidable (∀ converter ∈ s.session.requestedBy action,
    converter.SharesGivenName (s.current.headD none) s.entries))

/-- A command that adds one channel with one converter, which is given a name. -/
def addNamedCommand (channel topic name : String) : Json :=
  .object [("cmd", .string "add"), ("streams", .array [.object
    [("channel", .string channel), ("converter", .object [("schema", .string "f142"),
      ("topic", .string topic), ("name", .string name)])]])]

/-- Two commands that give the same name. -/
theorem sameNameTwice_shared :
    ∃ s : NamedSession, s.entries.map Prod.snd = [some "shared", some "shared"] ∧
      SharedOnRequest s := by
  obtain ⟨s, hreach, hentries⟩ :=
    Transition.System.exists_reachesVia_of_run
      (T := namedSystem {}) NamedSession.SharesGivenNames
      (fun s => s.entries.map Prod.snd = [some "shared", some "shared"])
      [.finish,
        .command (addNamedCommand "pv1" "//kafka/topic1" "shared"), .openStream true {},
        .push {}, .finish, .finish,
        .command (addNamedCommand "pv2" "//kafka/topic2" "shared"), .openStream true {},
        .push {}, .finish, .finish]
      ⟨.object [], [], rfl, rfl⟩ (by decide +kernel)
  exact ⟨s, hentries, shared_on_request_of_sharesGivenNames {} s hreach⟩

/-- Two commands that give no name: the parser calls both converters
`converter_0`, and the second path is given the converter of the first. -/
theorem noNameTwice_shared :
    ¬ ∀ (opt : MainOpt) (s : NamedSession), (namedSystem opt).Reachable s →
      SharedOnRequest s := by
  intro hall
  obtain ⟨s, hreach, hshared⟩ :=
    Transition.System.exists_reachable_of_run
      (T := namedSystem {})
      (fun s => ¬ s.entries.Pairwise fun entry other =>
        entry.2 = none ∨ other.2 = none →
          entry.1.converter.address ≠ other.1.converter.address)
      (.finish :: runAddCommand "pv1" "f142" "//kafka/topic1" ++
        runAddCommand "pv2" "f142" "//kafka/topic2")
      ⟨.object [], [], rfl, rfl⟩ (by decide +kernel)
  exact hshared (hall {} s hreach).unnamed

end EpicsToKafka
