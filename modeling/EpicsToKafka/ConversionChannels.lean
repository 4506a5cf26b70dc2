/-
Channel names in `Streams`.  The store itself does not reject a second stream
of the same name: `addMapping` looks the name up and publishes the stream in
two calls that lock separately, under an outer mutex that removals never take.
-/
import EpicsToKafka.ConversionControl

namespace EpicsToKafka

variable {n m : Nat} {cfg : Config} {s s' : State n m} {w : Fin n} {c : Fin m}

def State.channelNames (s : State n m) : List String :=
  s.streamPointers.map fun x => (s.heap x).channelName

/-- What a step leaves alone that neither finds a name free nor publishes a
stream. -/
structure StoreKept (s s' : State n m) : Prop where
  pointers : s'.streamPointers.Sublist s.streamPointers
  channelName : ∀ x, (s'.heap x).channelName = (s.heap x).channelName
  publish : ∀ c channel, s'.caller c = .publish channel →
    s.caller c = .publish channel

theorem StoreKept.channelNames (hkept : StoreKept s s') :
    s'.channelNames.Sublist s.channelNames := by
  simp only [State.channelNames, hkept.channelName]
  exact hkept.pointers.map _

/-- A caller's step that leaves the store alone and ends at `pc`. -/
theorem StoreKept.setCaller {pc : CallerPc}
    (hpc : ∀ channel, pc ≠ .publish channel) : StoreKept s (s.setCaller c pc) where
  pointers := List.Sublist.refl _
  channelName _ := rfl
  publish d channel hpublish := by
    by_cases hd : d = c
    · rw [hd, State.setCaller_caller_self] at hpublish
      exact absurd hpublish (hpc channel)
    · rwa [State.setCaller_caller_of_ne s pc hd] at hpublish

/-- A change of one stream that keeps its name. -/
theorem channelName_update {stream x : Nat} {changed : Stream}
    (hname : changed.channelName = (s.heap stream).channelName) :
    (Function.update s.heap stream changed x).channelName =
      (s.heap x).channelName := by
  by_cases hx : x = stream
  · rw [hx, Function.update_self, hname]
  · rw [Function.update_of_ne hx]

theorem WorkerMove.storeKept (hmove : WorkerMove cfg s w s') : StoreKept s s' := by
  have hframe := hmove.frame
  refine ⟨by rw [hframe.streamPointers], fun x => ?_, fun c channel hpc => ?_⟩
  · cases hmove with
    | iterate _ _ => exact channelName_update rfl
    | closeBatch _ => unfold State.closeBatch; split <;> rfl
    | destroyPacket _ => unfold State.destroyPacket; split <;> rfl
    | _ => rfl
  · rwa [hframe.caller] at hpc

/-- What a step does to the names in the store: it keeps them or drops some,
finds a name free, or publishes a stream under the name it found free. -/
inductive StoreMove (s : State n m) (action : Action n m) : State n m → Prop
  | kept {s' : State n m} (hkept : StoreKept s s') : StoreMove s action s'
  | free {c : Fin m} {channel : String}
      (haction : action = .getStreamByChannelName c)
      (hpc : s.caller c = .lookup channel) (hfree : channel ∉ s.channelNames) :
      StoreMove s action (s.setCaller c (.publish channel))
  | publish {c : Fin m} {channel : String} (haction : action = .add c)
      (hpc : s.caller c = .publish channel) :
      StoreMove s action { s.setCaller c (.converting s.nextStream) with
        heap := Function.update s.heap s.nextStream { channelName := channel }
        streamPointers := s.streamPointers ++ [s.nextStream]
        nextStream := s.nextStream + 1 }

theorem mem_channelNames {channel : String} :
    channel ∈ s.channelNames ↔
      ∃ x ∈ s.streamPointers, (s.heap x).channelName = channel := by
  simp [State.channelNames]

theorem getStreamByChannelName_storeMove
    (hstep : s.getStreamByChannelName c = some s') :
    StoreMove s (.getStreamByChannelName c) s' := by
  unfold State.getStreamByChannelName at hstep
  split at hstep
  · rename_i channel hpc
    split at hstep
    · split at hstep
      · cases hstep
        exact .kept (.setCaller (by simp))
      · rename_i hfind
        cases hstep
        refine .free rfl hpc fun hmem => ?_
        obtain ⟨x, hx, hname⟩ := mem_channelNames.mp hmem
        simpa [hname] using List.find?_eq_none.mp hfind x hx
    · cases hstep
  · cases hstep

theorem add_storeMove (hstep : s.add c = some s') : StoreMove s (.add c) s' := by
  unfold State.add at hstep
  split at hstep
  · split at hstep
    · cases hstep; exact .publish rfl ‹_›
    · cases hstep
  · cases hstep

theorem addMapping_storeKept {channel : String}
    (hstep : s.addMapping c channel = some s') : StoreKept s s' := by
  unfold State.addMapping at hstep
  split at hstep
  · cases hstep
    have hcaller : StoreKept s (s.setCaller c (.lookup channel)) :=
      .setCaller (by simp)
    exact ⟨.refl _, hcaller.channelName, hcaller.publish⟩
  · cases hstep

theorem addConverter_storeKept (hstep : s.addConverter c = some s') :
    StoreKept s s' := by
  unfold State.addConverter at hstep
  split at hstep
  · cases hstep
    exact ⟨.refl _, fun _ => channelName_update rfl, fun _ _ => id⟩
  · cases hstep

theorem addMappingReturns_storeKept (hstep : s.addMappingReturns c = some s') :
    StoreKept s s' := by
  have hdrop : ∀ stream, StoreKept s (s.dropLocal c stream) := by
    intro stream
    simp only [State.dropLocal]
    split
    · exact .setCaller (by simp)
    · exact .setCaller (by simp)
  unfold State.addMappingReturns at hstep
  split at hstep
  · cases hstep; exact .setCaller (by simp)
  · cases hstep; exact hdrop _
  · cases hstep; exact hdrop _
  · cases hstep

theorem RemovalMove.storeKept {action : Action n m} {victim : Nat → Bool}
    (hmove : RemovalMove s action c victim s') : StoreKept s s' := by
  have hcaller : StoreKept s (s.setCaller c (.erasing ((s.destroyedBy victim).flatMap
      fun x => (s.heap x).conversionPaths))) :=
    .setCaller (by simp)
  rw [hmove.next]
  exact ⟨List.filter_sublist, hcaller.channelName, hcaller.publish⟩

theorem destruct_storeKept (hstep : s.destruct c = some s') : StoreKept s s' := by
  have hcaller : ∀ pc, (∀ channel, pc ≠ .publish channel) →
      StoreKept s (s.setCaller c pc) := fun _ hpc => .setCaller hpc
  have hidle := hcaller .idle (by simp)
  unfold State.destruct at hstep
  split at hstep
  · cases hstep; exact ⟨hidle.pointers, hidle.channelName, hidle.publish⟩
  · split at hstep
    · cases hstep; exact hcaller _ (by simp)
    · cases hstep
  · cases hstep; exact ⟨hidle.pointers, hidle.channelName, hidle.publish⟩
  · split at hstep
    · cases hstep; exact hcaller _ (by simp)
    · cases hstep
  · cases hstep

theorem OutsideMove.storeKept (hmove : OutsideMove s s') : StoreKept s s' := by
  cases hmove with
  | start _ _ | stop | join _ => exact ⟨.refl _, fun _ => rfl, fun _ _ => id⟩
  | enqueueUpdate _ | errorInEpics _ =>
      exact ⟨.refl _, fun _ => channelName_update rfl, fun _ _ => id⟩

theorem step_storeMove {action : Action n m}
    (hstep : s.step cfg action = some s') : StoreMove s action s' := by
  have hremoval : ∀ victim, action.victim s = some victim → StoreMove s action s' := by
    intro victim hvictim
    obtain ⟨c, hmove⟩ := step_removal hvictim hstep
    exact .kept hmove.storeKept
  unfold State.step at hstep
  split at hstep
  · cases hstep
  cases action with
  | stopChannel c channel | clearStreams c | checkStreamStatus c => exact hremoval _ rfl
  | work w sizeApprox => exact .kept (workerStep_move hstep).storeKept
  | addMapping c channel => exact .kept (addMapping_storeKept hstep)
  | getStreamByChannelName c => exact getStreamByChannelName_storeMove hstep
  | add c => exact add_storeMove hstep
  | addConverter c => exact .kept (addConverter_storeKept hstep)
  | addMappingReturns c => exact .kept (addMappingReturns_storeKept hstep)
  | destruct c => exact .kept (destruct_storeKept hstep)
  | start w => exact .kept (start_move hstep).storeKept
  | stop w => exact .kept (stop_move hstep).storeKept
  | join w => exact .kept (join_move hstep).storeKept
  | enqueueUpdate stream update => exact .kept (enqueueUpdate_move hstep).storeKept
  | errorInEpics stream => exact .kept (errorInEpics_move hstep).storeKept

/-- The names in the store are distinct, and a name that was found free is
still free when its stream is published. -/
structure ChannelsOk (s : State n m) : Prop where
  nodup : s.channelNames.Nodup
  free : ∀ c channel, s.caller c = .publish channel → channel ∉ s.channelNames

theorem ChannelsOk.initial (cursor : Nat) : ChannelsOk (State.initial n m cursor) := by
  constructor <;> simp [State.channelNames, State.initial]

theorem ChannelsOk.kept (hok : ChannelsOk s) (hkept : StoreKept s s') :
    ChannelsOk s' where
  nodup := hok.nodup.sublist hkept.channelNames
  free c channel hpc hmem :=
    hok.free c channel (hkept.publish c channel hpc) (hkept.channelNames.subset hmem)

/-- Publishing appends one name and renames nothing. -/
theorem channelNames_publish {channel : String} (halloc : AllocOk s)
    (hheap : s'.heap = Function.update s.heap s.nextStream { channelName := channel })
    (hpointers : s'.streamPointers = s.streamPointers ++ [s.nextStream]) :
    s'.channelNames = s.channelNames ++ [channel] := by
  have hold : ∀ x ∈ s.streamPointers,
      (s'.heap x).channelName = (s.heap x).channelName := by
    intro x hx
    have hne : x ≠ s.nextStream := Nat.ne_of_lt (halloc.pointers_lt x hx)
    rw [hheap, Function.update_of_ne hne]
  rw [State.channelNames, hpointers, List.map_append, List.map_congr_left hold]
  simp [State.channelNames, hheap]

/-- The outer mutex admits one caller into `addMapping` at a time. -/
theorem LocksOk.caller_unique (hlocks : LocksOk s) {c d : Fin m}
    (hc : (s.caller c).locksStreams = true) (hd : (s.caller d).locksStreams = true) :
    d = c := by
  have hinside : s.insideStreams (.inr c) := hc
  have hinsideOther : s.insideStreams (.inr d) := hd
  exact Sum.inr.inj (hlocks.outer.exclusive hinsideOther hinside)

theorem ChannelsOk.step {action : Action n m} (hok : ChannelsOk s)
    (hlocks : LocksOk s) (halloc : AllocOk s)
    (hstep : s.step cfg action = some s') : ChannelsOk s' := by
  cases step_storeMove hstep with
  | kept hkept => exact hok.kept hkept
  | @free c channel _ hpc hfree =>
      refine ⟨hok.nodup, fun d other hother => ?_⟩
      by_cases hd : d = c
      · rw [hd, State.setCaller_caller_self] at hother
        cases hother
        exact hfree
      · rw [State.setCaller_caller_of_ne s _ hd] at hother
        exact hok.free d other hother
  | @publish c channel _ hpc =>
      constructor
      · rw [channelNames_publish halloc rfl rfl]
        exact List.nodup_append'.mpr
          ⟨hok.nodup, List.nodup_singleton _, by simpa using hok.free c channel hpc⟩
      · intro d other hother
        have hd : d ≠ c := by
          intro heq
          simp [heq] at hother
        have hother : s.caller d = .publish other :=
          (State.setCaller_caller_of_ne s _ hd).symm.trans hother
        -- nobody else stands between the lookup and the publication
        exact absurd (hlocks.caller_unique (by simp [hpc, CallerPc.locksStreams])
          (by simp [hother, CallerPc.locksStreams])) hd

theorem reachable_channelsOk (hreach : (conversionSystem cfg n m).Reachable s) :
    ChannelsOk s := by
  refine hreach.invariant (fun s ⟨cursor, hinit⟩ => hinit ▸ .initial cursor) ?_
  intro s action s' hbefore hok hstep
  exact hok.step (reachable_locksOk hbefore) (reachable_allocOk hbefore) hstep

/-- The schedule publishes a stream named `channel`. -/
def PublishedIn (cfg : Config) (s : State n m) (channel : String)
    (schedule : List (Action n m)) : Prop :=
  ∃ before rest c middle, schedule = before ++ .add c :: rest ∧
    (conversionSystem cfg n m).run s before = some middle ∧
    middle.caller c = .publish channel

/-- The schedule holds both calls of one `addMapping` of `channel`: the check
that finds the name free, and the publication. -/
def MappedIn (cfg : Config) (s : State n m) (channel : String)
    (schedule : List (Action n m)) : Prop :=
  ∃ before between rest c checked published,
    schedule = before ++ .getStreamByChannelName c :: between ++ .add c :: rest ∧
    (conversionSystem cfg n m).run s before = some checked ∧
    checked.caller c = .lookup channel ∧
    (conversionSystem cfg n m).run s
      (before ++ .getStreamByChannelName c :: between) = some published ∧
    published.caller c = .publish channel

theorem step_publishes {action : Action n m} {channel : String}
    (halloc : AllocOk s) (hstep : s.step cfg action = some s')
    (hbefore : channel ∉ s.channelNames) (hafter : channel ∈ s'.channelNames) :
    ∃ c, action = .add c ∧ s.caller c = .publish channel := by
  cases step_storeMove hstep with
  | kept hkept => exact absurd (hkept.channelNames.subset hafter) hbefore
  | free _ _ _ => exact absurd hafter hbefore
  | @publish c other haction hpc =>
      rw [channelNames_publish halloc rfl rfl, List.mem_append,
        List.mem_singleton] at hafter
      obtain rfl := hafter.resolve_left hbefore
      exact ⟨c, haction, hpc⟩

theorem step_checks {action : Action n m} {channel : String}
    (hstep : s.step cfg action = some s')
    (hbefore : s.caller c ≠ .publish channel)
    (hafter : s'.caller c = .publish channel) :
    action = .getStreamByChannelName c ∧ s.caller c = .lookup channel := by
  cases step_storeMove hstep with
  | kept hkept => exact absurd (hkept.publish c channel hafter) hbefore
  | @free d other haction hpc _ =>
      by_cases hc : c = d
      · rw [hc, State.setCaller_caller_self] at hafter
        cases hafter
        exact ⟨hc ▸ haction, hc ▸ hpc⟩
      · rw [State.setCaller_caller_of_ne s _ hc] at hafter
        exact absurd hafter hbefore
  | @publish d other _ _ =>
      by_cases hc : c = d
      · simp [hc] at hafter
      · exact absurd ((State.setCaller_caller_of_ne s _ hc).symm.trans hafter) hbefore

theorem publishedIn_of_run {channel : String} {schedule : List (Action n m)}
    (hreach : (conversionSystem cfg n m).Reachable s)
    (hrun : (conversionSystem cfg n m).run s schedule = some s')
    (hbefore : channel ∉ s.channelNames) (hafter : channel ∈ s'.channelNames) :
    PublishedIn cfg s channel schedule := by
  obtain ⟨before, action, rest, middle, next, hsplit, hmiddle, hstep, hnot, hnow⟩ :=
    Transition.System.exists_step_of_run
      (P := fun u : State n m => channel ∈ u.channelNames) hrun hbefore hafter
  obtain ⟨c, rfl, hpc⟩ := step_publishes (reachable_allocOk (hreach.run hmiddle))
    hstep hnot hnow
  exact ⟨before, rest, c, middle, hsplit, hmiddle, hpc⟩

/-- If nobody has found the name free yet, the whole `addMapping` lies in the
schedule. -/
theorem PublishedIn.mappedIn {channel : String} {schedule : List (Action n m)}
    (hpublished : PublishedIn cfg s channel schedule)
    (hnone : ∀ c, s.caller c ≠ .publish channel) : MappedIn cfg s channel schedule := by
  obtain ⟨before, rest, c, middle, hsplit, hmiddle, hpc⟩ := hpublished
  obtain ⟨first, action, between, checked, next, hfirst, hchecked, hstep, hnot, hnow⟩ :=
    Transition.System.exists_step_of_run
      (P := fun u : State n m => u.caller c = .publish channel) hmiddle (hnone c) hpc
  obtain ⟨rfl, hlookup⟩ := step_checks hstep hnot hnow
  exact ⟨first, between, rest, c, checked, middle, by rw [hsplit, hfirst], hchecked,
    hlookup, hfirst ▸ hmiddle, hpc⟩

/-- In every reachable state the names in `Streams` are distinct.  A
`stopChannel` leaves the other streams as they were, in their order, and the
name only comes back when some caller's `Streams::add` publishes it after the
stop; if the stop removed a stream, that caller's lookup follows the stop as
well. -/
theorem channel_names_unique (hreach : (conversionSystem cfg n m).Reachable s) :
    s.channelNames.Nodup ∧
      ∀ c channel s', s.step cfg (.stopChannel c channel) = some s' →
        channel ∉ s'.channelNames ∧ s'.heap = s.heap ∧
        s'.streamPointers =
          s.streamPointers.filter (fun x => (s.heap x).channelName ≠ channel) ∧
        ∀ schedule later, (conversionSystem cfg n m).run s' schedule = some later →
          channel ∈ later.channelNames →
          PublishedIn cfg s' channel schedule ∧
            (channel ∈ s.channelNames → MappedIn cfg s' channel schedule) := by
  have hok := reachable_channelsOk hreach
  refine ⟨hok.nodup, fun c channel s' hstep => ?_⟩
  have hvictim : (Action.stopChannel c channel : Action n m).victim s =
      some fun x => decide ((s.heap x).channelName = channel) := rfl
  obtain ⟨d, hmove⟩ := step_removal hvictim hstep
  have hpointers : s'.streamPointers =
      s.streamPointers.filter (fun x => (s.heap x).channelName ≠ channel) := by
    rw [hmove.next]
    simp [State.erased]
  have hheap : s'.heap = s.heap := by
    rw [hmove.next]
    rfl
  have hgone : channel ∉ s'.channelNames := by
    intro hmem
    obtain ⟨x, hx, hname⟩ := mem_channelNames.mp hmem
    rw [hpointers, List.mem_filter] at hx
    rw [hheap] at hname
    simp [hname] at hx
  refine ⟨hgone, hheap, hpointers, fun schedule later hrun hback => ?_⟩
  have hnext : (conversionSystem cfg n m).step s (.stopChannel c channel) = some s' :=
    hstep
  have hpublished := publishedIn_of_run (hreach.next hnext) hrun hgone hback
  refine ⟨hpublished, fun hpresent => hpublished.mappedIn fun k hpc => ?_⟩
  -- the name was taken, so nobody had found it free
  exact hok.free k channel (hmove.storeKept.publish k channel hpc) hpresent

/-- Two channels are mapped, the first is stopped and mapped again. -/
theorem channel_names_unique_stop_and_remap :
    ∃ s s' : State 1 1,
      (conversionSystem .maxSubqueueSize 1 1).Reachable s ∧
      s.channelNames = ["a", "b"] ∧ s.channelNames.Nodup ∧
      s.step .maxSubqueueSize (.stopChannel 0 "a") = some s' ∧
      "a" ∉ s'.channelNames ∧
      (∃ later, (conversionSystem .maxSubqueueSize 1 1).run s'
          (.destruct 0 :: .destruct 0 :: Action.mapChannel 0 "a") = some later ∧
        later.channelNames = ["b", "a"]) ∧
      MappedIn .maxSubqueueSize s' "a"
        (.destruct 0 :: .destruct 0 :: Action.mapChannel 0 "a") := by
  obtain ⟨s, hreach, hnames, hcheck⟩ :=
    Transition.System.exists_reachable_of_run
      (T := conversionSystem .maxSubqueueSize 1 1)
      (fun s => s.channelNames = ["a", "b"] ∧
        ((s.step .maxSubqueueSize (.stopChannel 0 "a")).bind fun s' =>
          ((conversionSystem .maxSubqueueSize 1 1).run s'
            (.destruct 0 :: .destruct 0 :: Action.mapChannel 0 "a"))).any
          (fun later => later.channelNames = ["b", "a"]) = true)
      (Action.mapChannel 0 "a" ++ Action.mapChannel 0 "b") ⟨0, rfl⟩ (by decide +kernel)
  obtain ⟨later, hbind, hlater⟩ := (Option.any_eq_true _ _).mp hcheck
  obtain ⟨s', hstep, hrun⟩ := Option.bind_eq_some_iff.mp hbind
  have hlater : later.channelNames = ["b", "a"] := by simpa using hlater
  obtain ⟨hnodup, hstop⟩ := channel_names_unique hreach
  obtain ⟨hgone, -, -, hback⟩ := hstop 0 "a" s' hstep
  have hmapped := (hback _ later hrun (by simp [hlater])).2 (by simp [hnames])
  exact ⟨s, s', hreach, hnames, hnodup, hstep, hgone, ⟨later, hrun, hlater⟩, hmapped⟩

end EpicsToKafka
