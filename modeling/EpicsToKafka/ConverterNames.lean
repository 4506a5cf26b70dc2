/-
Converters and the names they are found by, over whole histories of commands.
A name refers to a converter for as long as a conversion path uses it, but the
parser of every command starts to number its converters from zero, and a name
is looked up without regard to the schema.  The steps of a session are those
between which a worker or the status reporter can drop a stream.
-/
import EpicsToKafka.Transition
import EpicsToKafka.AddMapping
import Mathlib.Data.List.Perm.Basic
import Mathlib.Data.List.Flatten

namespace EpicsToKafka

open scoped List

/-- Where the main thread is: waiting for a command, in the loop over the
streams, or in the loop over the converters of a stream.  At `startup` the
loop over the streams goes on after an exception. -/
inductive Control where
  | idle
  | adding (startup : Bool) (pending : List StreamSettings)
  | mapping (startup : Bool) (stream : Nat) (converters : List ConverterSettings)
      (pending : List StreamSettings)
deriving Repr, DecidableEq

structure Session where
  forwarder : Forwarder
  control : Control

/-- A step of the main thread, of the status reporter, or of whoever drops the
last reference to a removed stream. -/
inductive SessionAction where
  | command (document : Json)
  | openStream (initialized : Bool) (answer : KafkaAnswer)
  | push (answer : KafkaAnswer)
  | finish
  | checkStreamStatus (failed : List Nat)
  | destroy (address : Nat)

/-- An exception ends an `add` command, but not the loop at start-up. -/
def Control.afterThrow (startup : Bool) (pending : List StreamSettings) : Control :=
  if startup then .adding true pending else .idle

namespace Session

/-- `ConfigCallback::handleCommand`; `exit` only leaves the main loop. -/
def handleCommand (s : Session) (document : Json) : Session :=
  match ConfigParser.findCommand document with
  | .add =>
      match ConfigParser.extractStreamInfo document with
      | .ok settings => { s with control := .adding false settings }
      | .error _ => s
  | .stopChannel =>
      match document.findString "channel" with
      | some channel => { s with forwarder := s.forwarder.stopChannel channel }
      | none => s
  | .stopAll => { s with forwarder := s.forwarder.clearStreams }
  | .exit | .unknown => s

def step (opt : MainOpt) (s : Session) (action : SessionAction) : Option Session :=
  match action, s.control with
  | .command document, .idle => some (s.handleCommand document)
  | .openStream initialized answer, .adding startup (streamInfo :: pending) =>
      match (openStream opt initialized answer streamInfo).run s.forwarder with
      | .ok stream forwarder =>
          some ⟨forwarder, .mapping startup stream streamInfo.converters pending⟩
      | .error _ forwarder => some ⟨forwarder, .afterThrow startup pending⟩
  | .push answer, .mapping startup stream (converter :: rest) pending =>
      match (pushConverterToStream opt answer converter stream).run s.forwarder with
      | .ok _ forwarder => some ⟨forwarder, .mapping startup stream rest pending⟩
      | .error _ forwarder => some ⟨forwarder, .afterThrow startup pending⟩
  | .finish, .mapping startup _ [] pending =>
      some { s with control := .adding startup pending }
  | .finish, .adding _ [] => some { s with control := .idle }
  | .checkStreamStatus failed, _ =>
      some { s with forwarder := s.forwarder.checkStreamStatus failed }
  | .destroy address, .mapping _ stream _ _ =>
      if address = stream then none
      else some { s with forwarder := s.forwarder.destroy address }
  | .destroy address, _ => some { s with forwarder := s.forwarder.destroy address }
  | _, _ => none

end Session

/-- A session of the forwarder with the streams of its configuration file. -/
def sessionSystem (opt : MainOpt) : Transition.System Session SessionAction where
  init s := ∃ streamsInfo, s = ⟨{}, .adding true streamsInfo⟩
  step := Session.step opt

/-- Every path converts to the schema that was asked for, and no converter was
given to a request for another schema. -/
structure SchemasAgree (s : Forwarder) : Prop where
  paths : ∀ path ∈ s.livePaths, path.converter.schema = path.requested.schema
  reused : ∀ request ∈ s.reused, request.2.schema = request.1.schema

/-- The request for a converter, unless it throws before the name is looked
up, agrees with all paths that were asked for under its name. -/
def ConverterSettings.KeepsName (converterInfo : ConverterSettings)
    (s : Forwarder) : Prop :=
  converterInfo.schema ∈ registeredSchemas →
    (topicHost converterInfo.topic).isSome → converterInfo.name ≠ "" →
      ∀ path ∈ s.livePaths, path.requested.name = converterInfo.name →
        path.requested.schema = converterInfo.schema

/-- The condition on a step. -/
def Session.KeepsNames (s : Session) (action : SessionAction) : Prop :=
  match action, s.control with
  | .push _, .mapping _ _ (converter :: _) _ => converter.KeepsName s.forwarder
  | _, _ => True

/-- The invariant: a converter that a name refers to is used only by paths
that were asked for under this name. -/
structure NamesOk (s : Forwarder) : Prop where
  agree : SchemasAgree s
  named : ∀ name address, s.converters.lookup name = some address →
    ∀ path ∈ s.livePaths, path.converter.address = address →
      path.requested.name = name
  fresh : ∀ path ∈ s.livePaths, path.converter.address < s.nextAddress
  registered : ∀ name address, s.converters.lookup name = some address →
    address < s.nextAddress

/-- The part of the invariant that holds in every run. -/
structure RegistryOk (s : Forwarder) : Prop where
  named : ∀ name address, s.converters.lookup name = some address →
    ∀ path ∈ s.livePaths, path.converter.address = address →
      path.requested.name = name
  fresh : ∀ path ∈ s.livePaths, path.converter.address < s.nextAddress
  registered : ∀ name address, s.converters.lookup name = some address →
    address < s.nextAddress

namespace Forwarder

variable {s : Forwarder}

theorem exists_path_of_findConverter {name : String} {converter : Converter}
    (hfind : s.findConverter name = some converter) :
    name ≠ "" ∧ s.converters.lookup name = some converter.address ∧
      ∃ path ∈ s.livePaths, path.converter = converter := by
  unfold findConverter at hfind
  split at hfind
  · cases hfind
  · rename_i hname
    obtain ⟨address, hlookup, hlock⟩ := Option.bind_eq_some_iff.mp hfind
    unfold lock at hlock
    have haddress : converter.address = address := by
      simpa using List.find?_some hlock
    obtain ⟨path, hpath, hconverter⟩ :=
      List.mem_map.mp (List.mem_of_find?_eq_some hlock)
    exact ⟨hname, haddress ▸ hlookup, path, hpath, hconverter⟩

@[simp] theorem afterObtain_livePaths (converterInfo : ConverterSettings) :
    (s.afterObtain converterInfo).livePaths = s.livePaths := by
  unfold afterObtain
  split <;> rfl

/-- A name that is found after a request was found before, or the request has
registered its new converter under it. -/
theorem lookup_afterObtain {converterInfo : ConverterSettings} {name : String}
    {address : Nat}
    (hlookup : (s.afterObtain converterInfo).converters.lookup name = some address) :
    s.converters.lookup name = some address ∨
      (converterInfo.name = name ∧ address = s.nextAddress ∧
        (s.afterObtain converterInfo).nextAddress = s.nextAddress + 1) := by
  unfold afterObtain at hlookup ⊢
  cases hfind : s.findConverter converterInfo.name with
  | some converter =>
      rw [hfind] at hlookup
      exact Or.inl hlookup
  | none =>
      simp only [hfind] at hlookup
      split at hlookup
      · exact Or.inl hlookup
      · rw [List.lookup_cons] at hlookup
        split at hlookup
        · rename_i hname
          exact Or.inr ⟨(beq_iff_eq.mp hname).symm, (Option.some.inj hlookup).symm, rfl⟩
        · exact Or.inl hlookup

theorem mem_reused_afterObtain {converterInfo : ConverterSettings}
    {request : ConverterSettings × Converter}
    (hrequest : request ∈ (s.afterObtain converterInfo).reused) :
    request ∈ s.reused ∨ request = (converterInfo, s.converterFor converterInfo) := by
  unfold afterObtain at hrequest
  unfold converterFor
  cases hfind : s.findConverter converterInfo.name with
  | none =>
      rw [hfind] at hrequest
      exact Or.inl hrequest
  | some converter =>
      rw [hfind] at hrequest
      simpa using hrequest

theorem nextAddress_le_afterObtain (s : Forwarder) (converterInfo : ConverterSettings) :
    s.nextAddress ≤ (s.afterObtain converterInfo).nextAddress := by
  unfold afterObtain
  split
  · exact Nat.le_refl _
  · exact Nat.le_succ _

theorem mem_livePaths_updateStream {address : Nat} {f : MappedStream → MappedStream}
    {path : ConversionPath} (hpath : path ∈ (s.updateStream address f).livePaths) :
    path ∈ s.livePaths ∨ ∃ stream, path ∈ (f stream).conversionPaths ∧
      stream ∈ s.liveStreams := by
  obtain ⟨updated, hupdated, hmem⟩ := List.mem_flatMap.mp hpath
  rw [liveStreams, updateStream, ← List.map_append] at hupdated
  obtain ⟨stream, hstream, rfl⟩ := List.mem_map.mp hupdated
  split at hmem
  · exact Or.inr ⟨stream, hmem, hstream⟩
  · exact Or.inl (List.mem_flatMap.mpr ⟨stream, hstream, hmem⟩)

end Forwarder

theorem MappedStream.mem_addConverter {stream : MappedStream} {added path : ConversionPath}
    (hpath : path ∈ (stream.addConverter added).conversionPaths) :
    path ∈ stream.conversionPaths ∨ path = added := by
  unfold MappedStream.addConverter at hpath
  split at hpath
  · exact Or.inl hpath
  · simpa using hpath

/-- The conversion paths of each stream that is not destroyed. -/
def Forwarder.pathLists (s : Forwarder) : List (Nat × List ConversionPath) :=
  s.liveStreams.map fun stream => (stream.address, stream.conversionPaths)

theorem Forwarder.livePaths_eq (s : Forwarder) :
    s.livePaths = s.pathLists.flatMap Prod.snd := by
  simp [livePaths, pathLists, List.flatMap_map]

/-- A change of the state that adds no conversion path: streams are dropped, or
one without paths is added. -/
structure StreamsKept (s s' : Forwarder) : Prop where
  pathLists : s'.pathLists <+~ s.pathLists ∨
    (s'.pathLists ~ (s.nextAddress, []) :: s.pathLists ∧ s.nextAddress < s'.nextAddress)
  nextAddress : s.nextAddress ≤ s'.nextAddress

/-- Nor does it ask for a converter. -/
structure PathsKept (s s' : Forwarder) : Prop extends StreamsKept s s' where
  converters : s'.converters = s.converters
  reused : s'.reused = s.reused

theorem subperm_flatMap {α β : Type} {shorter longer : List α} (f : α → List β)
    (hsubperm : shorter <+~ longer) : shorter.flatMap f <+~ longer.flatMap f := by
  obtain ⟨middle, hperm, hsublist⟩ := hsubperm
  exact ⟨middle.flatMap f, hperm.flatMap_right f, hsublist.flatMap f⟩

namespace StreamsKept

variable {s s' : Forwarder}

/-- What is read off the lists of paths, and is empty for an empty list. -/
theorem flatMap (hkept : StreamsKept s s') {α : Type}
    (f : Nat × List ConversionPath → List α) (hnil : ∀ address, f (address, []) = []) :
    s'.pathLists.flatMap f <+~ s.pathLists.flatMap f := by
  rcases hkept.pathLists with hsubperm | ⟨hperm, -⟩
  · exact subperm_flatMap f hsubperm
  · have hflat := hperm.flatMap_right f
    rw [List.flatMap_cons, hnil, List.nil_append] at hflat
    exact hflat.subperm

theorem livePaths (hkept : StreamsKept s s') : s'.livePaths <+~ s.livePaths := by
  rw [Forwarder.livePaths_eq, Forwarder.livePaths_eq]
  exact hkept.flatMap Prod.snd fun _ => rfl

theorem mem (hkept : StreamsKept s s') {path : ConversionPath}
    (hpath : path ∈ s'.livePaths) : path ∈ s.livePaths :=
  hkept.livePaths.subset hpath

end StreamsKept

namespace PathsKept

variable {opt : MainOpt} {s s' : Forwarder}

theorem refl (s : Forwarder) : PathsKept s s :=
  ⟨⟨Or.inl (.refl _), Nat.le_refl _⟩, rfl, rfl⟩

/-- The map of producers has no part in it. -/
theorem withHosts (hkept : PathsKept s s') (hosts : List String) :
    PathsKept s { s' with producersByHost := hosts } :=
  ⟨⟨hkept.pathLists, hkept.nextAddress⟩, hkept.converters, hkept.reused⟩

/-- A method that leaves the conversion paths of its stream alone. -/
theorem updateStream (hkept : PathsKept s s') (address : Nat)
    {f : MappedStream → MappedStream}
    (haddress : ∀ stream, (f stream).address = stream.address)
    (hpaths : ∀ stream, (f stream).conversionPaths = stream.conversionPaths) :
    PathsKept s (s'.updateStream address f) := by
  have hlists : (s'.updateStream address f).pathLists = s'.pathLists := by
    simp only [Forwarder.pathLists, Forwarder.liveStreams, Forwarder.updateStream,
      ← List.map_append, List.map_map]
    refine List.map_congr_left fun stream _ => ?_
    simp only [Function.comp_apply]
    split
    · rw [haddress, hpaths]
    · rfl
  exact ⟨⟨hlists ▸ hkept.pathLists, hkept.nextAddress⟩, hkept.converters, hkept.reused⟩

theorem afterCallbacks (streamInfo : StreamSettings) :
    PathsKept s (s.afterCallbacks opt streamInfo) := by
  refine ⟨⟨Or.inr ⟨?_, Nat.lt_succ_self _⟩, Nat.le_succ _⟩, rfl, rfl⟩
  simp only [Forwarder.pathLists, Forwarder.liveStreams, Forwarder.afterCallbacks,
    addCallbacks, Forwarder.afterAddStream, List.append_assoc, List.map_append]
  exact List.perm_middle

theorem afterSetProducer (hkept : PathsKept s s') (stream : Nat) (uri : URI) :
    PathsKept s (s'.afterSetProducer stream uri) := by
  apply (hkept.withHosts _).updateStream stream
  · exact fun stream => stream.setProducer_address _
  · exact fun stream => stream.setProducer_conversionPaths _

theorem afterOpen (streamInfo : StreamSettings) (uri : Option URI) :
    PathsKept s (s.afterOpen opt streamInfo uri) := by
  have hopened : PathsKept s (s.afterCallbacks opt streamInfo) := afterCallbacks streamInfo
  have hstatus : PathsKept s (((uri.map ((s.afterCallbacks opt streamInfo).afterSetProducer
      s.nextAddress)).getD (s.afterCallbacks opt streamInfo))) := by
    cases uri with
    | none => exact hopened
    | some uri => exact hopened.afterSetProducer _ uri
  apply hstatus.updateStream s.nextAddress
  · exact fun stream => stream.setServiceID_address _
  · exact fun stream => stream.setServiceID_conversionPaths _

theorem openMove {initialized : Bool} {streamInfo : StreamSettings}
    (hmove : OpenMove opt initialized streamInfo s s') : PathsKept s s' := by
  cases hmove with
  | refused _ => exact refl s
  | opened _ uri => exact afterOpen streamInfo uri
  | thrown _ hosts => exact (afterCallbacks streamInfo).withHosts hosts

/-- A stream that is taken out of `Streams` is still alive. -/
theorem eraseIf (victim : MappedStream → Bool) : PathsKept s (s.eraseIf victim) := by
  refine ⟨⟨Or.inl (List.Perm.subperm (List.Perm.map _ ?_)), Nat.le_refl _⟩, rfl, rfl⟩
  have hsplit := List.filter_append_perm (fun stream => !victim stream) s.streams
  simp only [Bool.not_not] at hsplit
  calc (s.streams.filter fun stream => !victim stream) ++
        (s.removed ++ s.streams.filter victim)
    _ ~ (s.streams.filter fun stream => !victim stream) ++
        (s.streams.filter victim ++ s.removed) := List.perm_append_comm.append_left _
    _ = ((s.streams.filter fun stream => !victim stream) ++ s.streams.filter victim) ++
        s.removed := (List.append_assoc _ _ _).symm
    _ ~ s.streams ++ s.removed := hsplit.append_right _

theorem destroy (address : Nat) : PathsKept s (s.destroy address) := by
  refine ⟨⟨Or.inl (List.Sublist.subperm (List.Sublist.map _ ?_)), Nat.le_refl _⟩, rfl, rfl⟩
  exact List.filter_sublist.append_left _

end PathsKept

/-- What a step of a session does to the forwarder. -/
inductive SessionMove (opt : MainOpt) (s : Session) (action : SessionAction) :
    Forwarder → Prop
  | kept : SessionMove opt s action s.forwarder
  | erased (victim : MappedStream → Bool) :
      SessionMove opt s action (s.forwarder.eraseIf victim)
  | destroyed (address : Nat) : SessionMove opt s action (s.forwarder.destroy address)
  | opened {forwarder : Forwarder} {initialized : Bool} {streamInfo : StreamSettings}
      (hmove : OpenMove opt initialized streamInfo s.forwarder forwarder) :
      SessionMove opt s action forwarder
  | pushed {forwarder : Forwarder} {answer : KafkaAnswer} {startup : Bool} {stream : Nat}
      {converter : ConverterSettings} {rest : List ConverterSettings}
      {pending : List StreamSettings} (haction : action = .push answer)
      (hcontrol : s.control = .mapping startup stream (converter :: rest) pending)
      (hmove : PushMove converter stream s.forwarder forwarder) :
      SessionMove opt s action forwarder

section Step

variable {opt : MainOpt} {s s' : Session} {action : SessionAction}

theorem Session.handleCommand_move (document : Json) :
    SessionMove opt s action (s.handleCommand document).forwarder := by
  unfold Session.handleCommand
  split
  · split <;> exact .kept
  · split
    · exact .erased _
    · exact .kept
  · exact .erased _
  · exact .kept
  · exact .kept

theorem Session.step_move (hstep : s.step opt action = some s') :
    SessionMove opt s action s'.forwarder := by
  unfold Session.step at hstep
  split at hstep
  · cases hstep
    exact handleCommand_move _
  · split at hstep <;> cases hstep <;> rename_i hrun
    · exact .opened (openStream_move (Or.inl ⟨_, hrun⟩))
    · exact .opened (openStream_move (Or.inr ⟨_, hrun⟩))
  · rename_i hcontrol
    split at hstep <;> cases hstep <;> rename_i hrun
    · exact .pushed rfl hcontrol (pushConverterToStream_move (Or.inl ⟨_, hrun⟩))
    · exact .pushed rfl hcontrol (pushConverterToStream_move (Or.inr ⟨_, hrun⟩))
  · cases hstep
    exact .kept
  · cases hstep
    exact .kept
  · cases hstep
    exact .erased _
  · split at hstep <;> cases hstep
    exact .destroyed _
  · cases hstep
    exact .destroyed _
  · cases hstep

/-- Only a push adds conversion paths. -/
theorem SessionMove.pathsKept_or {forwarder : Forwarder}
    (hmove : SessionMove opt s action forwarder) :
    PathsKept s.forwarder forwarder ∨
      ∃ answer startup stream converter rest pending, action = .push answer ∧
        s.control = .mapping startup stream (converter :: rest) pending ∧
        PushMove converter stream s.forwarder forwarder := by
  cases hmove with
  | kept => exact Or.inl (.refl _)
  | erased victim => exact Or.inl (.eraseIf victim)
  | destroyed address => exact Or.inl (.destroy address)
  | opened hopen => exact Or.inl (.openMove hopen)
  | pushed haction hcontrol hpush =>
      exact Or.inr ⟨_, _, _, _, _, _, haction, hcontrol, hpush⟩

end Step

/-- A push adds at most the path that was asked for. -/
theorem Forwarder.mem_livePaths_addConverter {s : Forwarder} {added path : ConversionPath}
    {stream : Nat} (hpath : path ∈ (s.updateStream stream fun stream =>
      stream.addConverter added).livePaths) : path ∈ s.livePaths ∨ path = added := by
  rcases Forwarder.mem_livePaths_updateStream hpath with hold | ⟨owner, hadded, howner⟩
  · exact Or.inl hold
  · rcases MappedStream.mem_addConverter hadded with hold | hnew
    · exact Or.inl (List.mem_flatMap.mpr ⟨owner, howner, hold⟩)
    · exact Or.inr hnew

namespace RegistryOk

variable {s s' : Forwarder}

theorem pathsKept (hok : RegistryOk s) (hkept : PathsKept s s') : RegistryOk s' where
  named name address hlookup path hpath :=
    hok.named name address (hkept.converters ▸ hlookup) path (hkept.mem hpath)
  fresh path hpath := Nat.lt_of_lt_of_le (hok.fresh path (hkept.mem hpath)) hkept.nextAddress
  registered name address hlookup := Nat.lt_of_lt_of_le
    (hok.registered name address (hkept.converters ▸ hlookup)) hkept.nextAddress

theorem afterObtain (hok : RegistryOk s) (converterInfo : ConverterSettings) :
    RegistryOk (s.afterObtain converterInfo) := by
  have hnext := s.nextAddress_le_afterObtain converterInfo
  refine ⟨?_, ?_, ?_⟩
  · intro name address hlookup path hpath haddress
    rw [Forwarder.afterObtain_livePaths] at hpath
    rcases Forwarder.lookup_afterObtain hlookup with hold | ⟨-, hnew, -⟩
    · exact hok.named name address hold path hpath haddress
    · -- no path uses a converter that has not been created yet
      have hfresh := hok.fresh path hpath
      omega
  · intro path hpath
    rw [Forwarder.afterObtain_livePaths] at hpath
    exact Nat.lt_of_lt_of_le (hok.fresh path hpath) hnext
  · intro name address hlookup
    rcases Forwarder.lookup_afterObtain hlookup with hold | ⟨-, hnew, hsucc⟩
    · exact Nat.lt_of_lt_of_le (hok.registered name address hold) hnext
    · omega

theorem addConverter (hok : RegistryOk s) {added : ConversionPath} (stream : Nat)
    (hnamed : ∀ name, s.converters.lookup name = some added.converter.address →
      added.requested.name = name)
    (hfresh : added.converter.address < s.nextAddress) :
    RegistryOk (s.updateStream stream fun stream => stream.addConverter added) := by
  refine ⟨?_, ?_, hok.registered⟩
  · intro name address hlookup path hpath haddress
    rcases Forwarder.mem_livePaths_addConverter hpath with hold | rfl
    · exact hok.named name address hlookup path hold haddress
    · subst haddress
      exact hnamed name hlookup
  · intro path hpath
    rcases Forwarder.mem_livePaths_addConverter hpath with hold | rfl
    · exact hok.fresh path hold
    · exact hfresh

/-- The names under which the converter of a request is known afterwards. -/
theorem converterFor_named (hok : RegistryOk s) {converterInfo : ConverterSettings}
    {name : String} (hlookup : (s.afterObtain converterInfo).converters.lookup name =
      some (s.converterFor converterInfo).address) : converterInfo.name = name := by
  rcases Forwarder.lookup_afterObtain hlookup with hold | ⟨hname, -, -⟩
  · unfold Forwarder.converterFor at hold
    cases hfind : s.findConverter converterInfo.name with
    | some converter =>
        obtain ⟨-, hregistered, path, hpath, rfl⟩ :=
          Forwarder.exists_path_of_findConverter hfind
        rw [hfind] at hold
        calc converterInfo.name = path.requested.name :=
              (hok.named _ _ hregistered path hpath rfl).symm
          _ = name := hok.named _ _ hold path hpath rfl
    | none =>
        rw [hfind] at hold
        exact absurd (hok.registered _ _ hold) (Nat.lt_irrefl _)
  · exact hname

theorem converterFor_fresh (hok : RegistryOk s) (converterInfo : ConverterSettings) :
    (s.converterFor converterInfo).address <
      (s.afterObtain converterInfo).nextAddress := by
  unfold Forwarder.afterObtain Forwarder.converterFor
  cases hfind : s.findConverter converterInfo.name with
  | some converter =>
      obtain ⟨-, -, path, hpath, rfl⟩ := Forwarder.exists_path_of_findConverter hfind
      exact hok.fresh path hpath
  | none => exact Nat.lt_succ_self _

theorem pushMove (hok : RegistryOk s) {converterInfo : ConverterSettings} {stream : Nat}
    (hmove : PushMove converterInfo stream s s') : RegistryOk s' := by
  have hobtained := hok.afterObtain converterInfo
  cases hmove with
  | thrown => exact hok
  | obtained hosts _ _ => exact hobtained.pathsKept ((PathsKept.refl _).withHosts hosts)
  | pushed uri _ _ =>
      have hhosts := hobtained.pathsKept ((PathsKept.refl _).withHosts
        ((s.afterObtain converterInfo).producersByHost.insert uri.hostPort))
      exact hhosts.addConverter stream (fun _ => hok.converterFor_named)
        (hok.converterFor_fresh converterInfo)

end RegistryOk

namespace NamesOk

variable {opt : MainOpt} {s s' : Forwarder}

theorem registry (hok : NamesOk s) : RegistryOk s :=
  ⟨hok.named, hok.fresh, hok.registered⟩

theorem of_registry (hagree : SchemasAgree s) (hregistry : RegistryOk s) : NamesOk s :=
  ⟨hagree, hregistry.named, hregistry.fresh, hregistry.registered⟩

theorem pathsKept (hok : NamesOk s) (hkept : PathsKept s s') : NamesOk s' := by
  refine of_registry ⟨?_, ?_⟩ (hok.registry.pathsKept hkept)
  · exact fun path hpath => hok.agree.paths path (hkept.mem hpath)
  · rw [hkept.reused]
    exact hok.agree.reused

/-- The converter that a request is given suits it. -/
theorem converterFor_schema (hok : NamesOk s) {converterInfo : ConverterSettings}
    (hkeeps : converterInfo.name ≠ "" → ∀ path ∈ s.livePaths,
      path.requested.name = converterInfo.name →
        path.requested.schema = converterInfo.schema) :
    (s.converterFor converterInfo).schema = converterInfo.schema := by
  unfold Forwarder.converterFor
  cases hfind : s.findConverter converterInfo.name with
  | none => rfl
  | some converter =>
      obtain ⟨hname, hlookup, path, hpath, rfl⟩ :=
        Forwarder.exists_path_of_findConverter hfind
      -- the path that keeps the converter alive was asked for under its name
      have hsame := hok.named _ _ hlookup path hpath rfl
      calc path.converter.schema = path.requested.schema := hok.agree.paths path hpath
        _ = converterInfo.schema := hkeeps hname path hpath hsame

theorem agree_afterObtain (hok : NamesOk s) {converterInfo : ConverterSettings}
    (hschema : (s.converterFor converterInfo).schema = converterInfo.schema) :
    SchemasAgree (s.afterObtain converterInfo) := by
  constructor
  · rw [Forwarder.afterObtain_livePaths]
    exact hok.agree.paths
  · intro request hrequest
    rcases Forwarder.mem_reused_afterObtain hrequest with hold | rfl
    · exact hok.agree.reused request hold
    · exact hschema

theorem pushMove {converterInfo : ConverterSettings} {stream : Nat} (hok : NamesOk s)
    (hkeeps : converterInfo.KeepsName s) (hmove : PushMove converterInfo stream s s') :
    NamesOk s' := by
  refine of_registry ?_ (hok.registry.pushMove hmove)
  cases hmove with
  | thrown => exact hok.agree
  | obtained hosts hschema hhost =>
      have hobtained := hok.agree_afterObtain (hok.converterFor_schema (hkeeps hschema hhost))
      exact ⟨hobtained.paths, hobtained.reused⟩
  | pushed uri hschema hhost =>
      have hsuits := hok.converterFor_schema (hkeeps hschema hhost)
      have hobtained := hok.agree_afterObtain hsuits
      refine ⟨?_, hobtained.reused⟩
      intro path hpath
      rcases Forwarder.mem_livePaths_addConverter hpath with hold | rfl
      · exact hobtained.paths path hold
      · exact hsuits

theorem step {s s' : Session} {action : SessionAction} (hok : NamesOk s.forwarder)
    (hkeeps : s.KeepsNames action) (hstep : s.step opt action = some s') :
    NamesOk s'.forwarder := by
  rcases (Session.step_move hstep).pathsKept_or with
    hkept | ⟨answer, startup, stream, converter, rest, pending, rfl, hcontrol, hpush⟩
  · exact hok.pathsKept hkept
  · have hname : converter.KeepsName s.forwarder := by
      simpa only [Session.KeepsNames, hcontrol] using hkeeps
    exact hok.pushMove hname hpush

end NamesOk

/-- In a run in which every request keeps to the schema of its name, every
path converts to the schema that was asked for. -/
theorem schemas_agree_of_keepsNames (opt : MainOpt) (s : Session)
    (hreach : (sessionSystem opt).ReachesVia Session.KeepsNames s) :
    SchemasAgree s.forwarder := by
  have hok : NamesOk s.forwarder := by
    induction hreach with
    | init hinit =>
        obtain ⟨streamsInfo, rfl⟩ := hinit
        constructor
        · constructor <;> simp [Forwarder.livePaths, Forwarder.liveStreams]
        all_goals simp [Forwarder.livePaths, Forwarder.liveStreams]
    | step _ hkeeps hstep ih => exact ih.step hkeeps hstep
  exact hok.agree

instance (s : Forwarder) : Decidable (SchemasAgree s) :=
  decidable_of_iff
    ((∀ path ∈ s.livePaths, path.converter.schema = path.requested.schema) ∧
      ∀ request ∈ s.reused, request.2.schema = request.1.schema)
    ⟨fun h => ⟨h.1, h.2⟩, fun h => ⟨h.1, h.2⟩⟩

instance (converterInfo : ConverterSettings) (s : Forwarder) :
    Decidable (converterInfo.KeepsName s) :=
  inferInstanceAs (Decidable (converterInfo.schema ∈ registeredSchemas →
    (topicHost converterInfo.topic).isSome → converterInfo.name ≠ "" →
      ∀ path ∈ s.livePaths, path.requested.name = converterInfo.name →
        path.requested.schema = converterInfo.schema))

instance (s : Session) (action : SessionAction) : Decidable (s.KeepsNames action) := by
  unfold Session.KeepsNames
  split <;> infer_instance

section Commands

variable {opt : MainOpt} {s : Forwarder}

/-- The loop over the converters, run to its end, as steps of a session. -/
theorem reachable_pushConverters (answers : Nat → KafkaAnswer) {startup : Bool}
    {stream : Nat} {converters : List ConverterSettings} {pending : List StreamSettings}
    (hreach : (sessionSystem opt).Reachable ⟨s, .mapping startup stream converters pending⟩) :
    match (pushConverters opt stream answers converters).run s with
    | .ok _ s' => (sessionSystem opt).Reachable ⟨s', .adding startup pending⟩
    | .error _ s' => (sessionSystem opt).Reachable ⟨s', .afterThrow startup pending⟩ := by
  induction converters generalizing s answers with
  | nil =>
      have hfinish : (sessionSystem opt).step ⟨s, .mapping startup stream [] pending⟩
          .finish = some ⟨s, .adding startup pending⟩ := rfl
      exact hreach.next hfinish
  | cons converter rest ih =>
      have hstep : (sessionSystem opt).step
          ⟨s, .mapping startup stream (converter :: rest) pending⟩ (.push (answers 0)) =
            match (pushConverterToStream opt (answers 0) converter stream).run s with
            | .ok _ s' => some ⟨s', .mapping startup stream rest pending⟩
            | .error _ s' => some ⟨s', .afterThrow startup pending⟩ := rfl
      simp only [pushConverters, EStateM.run_bind]
      cases hpush : (pushConverterToStream opt (answers 0) converter stream).run s with
      | ok result s' =>
          rw [hpush] at hstep
          exact ih _ (hreach.next hstep)
      | error e s' =>
          rw [hpush] at hstep
          exact hreach.next hstep

/-- A call of `addMapping`, as steps of a session. -/
theorem reachable_addMapping (answers : MappingAnswers) {startup : Bool}
    {streamInfo : StreamSettings} {pending : List StreamSettings}
    (hreach : (sessionSystem opt).Reachable
      ⟨s, .adding startup (streamInfo :: pending)⟩) :
    match (addMapping opt answers streamInfo).run s with
    | .ok _ s' => (sessionSystem opt).Reachable ⟨s', .adding startup pending⟩
    | .error _ s' => (sessionSystem opt).Reachable ⟨s', .afterThrow startup pending⟩ := by
  have hstep : (sessionSystem opt).step ⟨s, .adding startup (streamInfo :: pending)⟩
      (.openStream answers.initialized (answers.kafka 0)) =
        match (openStream opt answers.initialized (answers.kafka 0) streamInfo).run s with
        | .ok stream s' => some ⟨s', .mapping startup stream streamInfo.converters pending⟩
        | .error _ s' => some ⟨s', .afterThrow startup pending⟩ := rfl
  cases hopen : (openStream opt answers.initialized (answers.kafka 0) streamInfo).run s with
  | error e s' =>
      rw [hopen] at hstep
      rw [addMapping_of_openStream_error opt hopen]
      exact hreach.next hstep
  | ok stream opened =>
      rw [hopen] at hstep
      have hpushes := reachable_pushConverters (fun i => answers.kafka (i + 1))
        (hreach.next hstep)
      cases hpush : (pushConverters opt stream (fun i => answers.kafka (i + 1))
          streamInfo.converters).run opened with
      | ok result s' =>
          rw [hpush] at hpushes
          rw [addMapping_of_pushConverters_ok opt hopen hpush]
          exact hpushes
      | error e s' =>
          rw [hpush] at hpushes
          rw [addMapping_of_pushConverters_error opt hopen hpush]
          exact hpushes

theorem reachable_addMappings {answers : Nat → MappingAnswers}
    {streams : List StreamSettings} {s' : Forwarder}
    (hreach : (sessionSystem opt).Reachable ⟨s, .adding false streams⟩)
    (hends : EndsIn (addMappings opt answers streams) s s') :
    (sessionSystem opt).Reachable ⟨s', .idle⟩ := by
  induction streams generalizing s answers with
  | nil =>
      have hfinish : (sessionSystem opt).step ⟨s, .adding false []⟩ .finish =
          some ⟨s, .idle⟩ := rfl
      rw [hends.eq_of_ok rfl]
      exact hreach.next hfinish
  | cons streamInfo rest ih =>
      have hmapping := reachable_addMapping (answers 0) hreach
      cases hrun : (addMapping opt (answers 0) streamInfo).run s with
      | ok result added =>
          rw [hrun] at hmapping
          simp only [EndsIn, addMappings, EStateM.run_bind, hrun] at hends
          exact ih hmapping hends
      | error e added =>
          rw [hrun] at hmapping
          have hthrow : (addMappings opt answers (streamInfo :: rest)).run s =
              .error e added := by
            simp only [addMappings, EStateM.run_bind, hrun]
          rw [hends.eq_of_error hthrow]
          exact hmapping

/-- An `add` command, handled in one go, is a run of the session. -/
theorem reachable_handleCommandAdd {answers : Nat → MappingAnswers} {document : Json}
    {s' : Forwarder} (hreach : (sessionSystem opt).Reachable ⟨s, .idle⟩)
    (hadd : ConfigParser.findCommand document = .add)
    (hends : EndsIn (handleCommandAdd opt answers document) s s') :
    (sessionSystem opt).Reachable ⟨s', .idle⟩ := by
  have hstep : (sessionSystem opt).step ⟨s, .idle⟩ (.command document) =
      some (Session.handleCommand ⟨s, .idle⟩ document) := rfl
  cases hsettings : ConfigParser.extractStreamInfo document with
  | ok settings =>
      simp only [Session.handleCommand, hadd, hsettings] at hstep
      apply reachable_addMappings (hreach.next hstep)
      simpa only [EndsIn, handleCommandAdd, hsettings, liftExcept, EStateM.run_bind,
        EStateM.run_pure] using hends
  | error e =>
      have hthrow : (handleCommandAdd opt answers document).run s = .error e s := by
        simp only [handleCommandAdd, hsettings, liftExcept, EStateM.run_bind]
        rfl
      rw [hends.eq_of_error hthrow]
      exact hreach

end Commands

/-- A command that adds one channel with one converter, which has no name. -/
def addCommand (channel schema topic : String) : Json :=
  .object [("cmd", .string "add"), ("streams", .array [.object
    [("channel", .string channel), ("converter", .object
      [("schema", .string schema), ("topic", .string topic)])]])]

/-- The steps of such a command when nothing fails. -/
def runAddCommand (channel schema topic : String) : List SessionAction :=
  [.command (addCommand channel schema topic), .openStream true {}, .push {}, .finish,
    .finish]

/-- Two commands that share the generated name and the schema. -/
theorem sameSchemaTwice_agree :
    ∃ s : Session, s.forwarder.livePaths.length = 2 ∧ s.forwarder.reused ≠ [] ∧
      SchemasAgree s.forwarder := by
  obtain ⟨s, hreach, hpaths, hreused⟩ :=
    Transition.System.exists_reachesVia_of_run
      (T := sessionSystem {}) Session.KeepsNames
      (fun s => s.forwarder.livePaths.length = 2 ∧ s.forwarder.reused ≠ [])
      (.finish :: runAddCommand "pv1" "f142" "//kafka/topic1" ++
        runAddCommand "pv2" "f142" "//kafka/topic2")
      ⟨[], rfl⟩ (by decide +kernel)
  exact ⟨s, hpaths, hreused, schemas_agree_of_keepsNames {} s hreach⟩

/-- Two commands for different schemas: both converters are called
`converter_0`, and the second path is given the converter of the first. -/
theorem otherSchema_disagree :
    ¬ ∀ (opt : MainOpt) (s : Session), (sessionSystem opt).Reachable s →
      SchemasAgree s.forwarder := by
  intro hall
  obtain ⟨s, hreach, hdisagree⟩ :=
    Transition.System.exists_reachable_of_run
      (T := sessionSystem {}) (fun s => ¬ SchemasAgree s.forwarder)
      (.finish :: runAddCommand "pv1" "f142" "//kafka/topic1" ++
        runAddCommand "pv2" "TdcTime" "//kafka/topic2")
      ⟨[], rfl⟩ (by decide +kernel)
  exact hdisagree (hall {} s hreach)

end EpicsToKafka
