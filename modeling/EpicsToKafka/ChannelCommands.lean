/-
What the commands mean for the channels that are forwarded.  The main thread
carries a command out step by step while other threads run; a command as a
whole appends to the list of the channels, filters it or empties it.
-/
import EpicsToKafka.ConversionChannels
import EpicsToKafka.MainStages

namespace EpicsToKafka

variable {n m : Nat} {cfg : Config}

section Names

variable {s s' : State n m} {c : Fin m} {action : Action n m}

/-- The channel of a caller inside `addMapping` whose stream is not published
yet. -/
def CallerPc.owes : CallerPc → List String
  | .lookup channel | .publish channel => [channel]
  | _ => []

/-- A step as in an `addMapping` that succeeds, with no client that fails. -/
def State.Maps (s : State n m) : Action n m → Prop
  | .getStreamByChannelName c => ∀ channel ∈ (s.caller c).owes, channel ∉ s.channelNames
  | .addMappingReturns c => (s.caller c).owes = []
  | .errorInEpics _ => False
  | _ => True

instance (s : State n m) (action : Action n m) : Decidable (s.Maps action) :=
  match action with
  | .getStreamByChannelName c => inferInstanceAs
      (Decidable (∀ channel ∈ (s.caller c).owes, channel ∉ s.channelNames))
  | .addMappingReturns c => inferInstanceAs (Decidable ((s.caller c).owes = []))
  | .errorInEpics _ => instDecidableFalse
  | .start _ | .stop _ | .join _ | .work _ _ | .enqueueUpdate _ _ | .addMapping _ _ | .add _
  | .addConverter _ | .stopChannel _ _ | .clearStreams _ | .checkStreamStatus _ | .destruct _ =>
      instDecidableTrue

/-- No client has failed. -/
def State.Healthy (s : State n m) : Prop :=
  ∀ x, (s.heap x).status = 0

theorem status_update {stream x : Nat} {changed : Stream}
    (hstatus : changed.status = (s.heap stream).status) :
    (Function.update s.heap stream changed x).status = (s.heap x).status := by
  by_cases hx : x = stream
  · rw [hx, Function.update_self, hstatus]
  · rw [Function.update_of_ne hx]

theorem WorkerMove.status {w : Fin n} (hmove : WorkerMove cfg s w s') (x : Nat) :
    (s'.heap x).status = (s.heap x).status := by
  cases hmove with
  | iterate _ _ => exact status_update rfl
  | closeBatch _ => unfold State.closeBatch; split <;> rfl
  | destroyPacket _ => unfold State.destroyPacket; split <;> rfl
  | _ => rfl

theorem CallerMove.healthy (hmove : CallerMove s c s') (hhealthy : s.Healthy) : s'.Healthy := by
  intro x
  cases hmove with
  | add _ _ =>
      by_cases hx : x = s.nextStream
      · subst hx
        simp
      · simpa [hx] using hhealthy x
  | addConverter _ =>
      rw [← hhealthy x]
      exact status_update rfl
  | addMapping _ _ | found _ _ _ | notFound _ _ _ | throwEarly _ | keepStream _
  | dropStream _ _ | eraseIf _ _ | erased _ | erasePath _ _ | returned _ | returnPath _ _ =>
      exact hhealthy x

theorem step_healthy (hstep : s.step cfg action = some s') (hmaps : s.Maps action)
    (hhealthy : s.Healthy) : s'.Healthy := by
  cases hcaller : action.callerOf with
  | some c => exact (step_callerMove hstep hcaller).healthy hhealthy
  | none =>
      intro x
      unfold State.step at hstep
      split at hstep
      · cases hstep
      cases action with
      | work w sizeApprox => exact ((workerStep_move hstep).status x).trans (hhealthy x)
      | errorInEpics stream => exact hmaps.elim
      | enqueueUpdate stream update =>
          simp only [State.enqueueUpdate, Option.ite_none_right_eq_some,
            Option.some.injEq] at hstep
          rw [← hstep.2, ← hhealthy x]
          exact status_update rfl
      | start w | join w =>
          simp only [State.start, State.join, Option.ite_none_right_eq_some,
            Option.some.injEq] at hstep
          rw [← hstep.2]
          exact hhealthy x
      | stop w =>
          cases hstep
          exact hhealthy x
      | addMapping _ _ | getStreamByChannelName _ | add _ | addConverter _
      | addMappingReturns _ | stopChannel _ _ | clearStreams _ | checkStreamStatus _
      | destruct _ => cases hcaller

theorem channelNames_congr (hpointers : s'.streamPointers = s.streamPointers)
    (hname : ∀ x, (s'.heap x).channelName = (s.heap x).channelName) :
    s'.channelNames = s.channelNames := by
  simp only [State.channelNames, hpointers, hname]

/-- Workers and clients change neither the list nor a name in it. -/
theorem step_names_outside (hstep : s.step cfg action = some s')
    (hcaller : action.callerOf = none) : s'.channelNames = s.channelNames := by
  rcases step_outside hstep hcaller with ⟨w, hmove⟩ | hmove
  · exact channelNames_congr hmove.frame.streamPointers hmove.frame.channelName
  · refine channelNames_congr ?_ hmove.storeKept.channelName
    cases hmove with
    | start _ _ | stop | join _ | enqueueUpdate _ | errorInEpics _ => rfl

theorem RemovalMove.channelNames {victim : Nat → Bool}
    (hmove : RemovalMove s action c victim s') :
    s'.channelNames =
      (s.streamPointers.filter (!victim ·)).map fun x => (s.heap x).channelName := by
  rw [hmove.next]
  rfl

/-- A caller inside a destructor changes no name and owes none. -/
theorem destruct_names (hstep : s.step cfg (.destruct c) = some s') :
    s'.channelNames = s.channelNames ∧ (s'.caller c).owes = (s.caller c).owes := by
  unfold State.step at hstep
  split at hstep
  · cases hstep
  simp only [State.destruct] at hstep
  split at hstep
  · rename_i hpc
    cases hstep
    simp [State.channelNames, State.setCaller, hpc, CallerPc.owes]
  · rename_i hpc
    split at hstep
    · cases hstep
      simp [State.channelNames, State.setCaller, hpc, CallerPc.owes]
    · cases hstep
  · rename_i hpc
    cases hstep
    simp [State.channelNames, State.setCaller, hpc, CallerPc.owes]
  · rename_i hpc
    split at hstep
    · cases hstep
      simp [State.channelNames, State.setCaller, hpc, CallerPc.owes]
    · cases hstep
  · cases hstep

theorem addMapping_names {channel : String} (hstep : s.step cfg (.addMapping c channel) = some s') :
    s'.channelNames = s.channelNames ∧ (s'.caller c).owes = [channel] := by
  unfold State.step at hstep
  split at hstep
  · cases hstep
  simp only [State.addMapping] at hstep
  split at hstep
  · cases hstep
    simp [State.channelNames, State.setCaller, CallerPc.owes]
  · cases hstep

/-- A name that was found already is not published. -/
theorem getStreamByChannelName_names (hstep : s.step cfg (.getStreamByChannelName c) = some s') :
    s'.channelNames = s.channelNames ∧
      ((s'.caller c).owes = (s.caller c).owes ∨
        (s'.caller c).owes = [] ∧ ∃ channel ∈ (s.caller c).owes, channel ∈ s.channelNames) := by
  unfold State.step at hstep
  split at hstep
  · cases hstep
  simp only [State.getStreamByChannelName] at hstep
  split at hstep
  · rename_i channel hpc
    split at hstep
    · split at hstep
      · rename_i stream hfind
        cases hstep
        have hname := List.find?_some hfind
        have hmem := mem_channelNames.mpr
          ⟨stream, List.mem_of_find?_eq_some hfind, by simpa using hname⟩
        exact ⟨rfl, Or.inr ⟨by simp [CallerPc.owes], channel, by simp [hpc, CallerPc.owes], hmem⟩⟩
      · cases hstep
        exact ⟨rfl, Or.inl (by simp [hpc, CallerPc.owes])⟩
    · cases hstep
  · cases hstep

theorem add_names (halloc : AllocOk s) (hstep : s.step cfg (.add c) = some s') :
    s'.channelNames ++ (s'.caller c).owes = s.channelNames ++ (s.caller c).owes := by
  unfold State.step at hstep
  split at hstep
  · cases hstep
  simp only [State.add] at hstep
  split at hstep
  · rename_i channel hpc
    split at hstep
    · cases hstep
      rw [channelNames_publish halloc rfl rfl]
      simp [hpc, CallerPc.owes]
    · cases hstep
  · cases hstep

theorem addConverter_names (hstep : s.step cfg (.addConverter c) = some s') :
    s'.channelNames = s.channelNames ∧ (s'.caller c).owes = (s.caller c).owes := by
  unfold State.step at hstep
  split at hstep
  · cases hstep
  simp only [State.addConverter] at hstep
  split at hstep
  · cases hstep
    exact ⟨channelNames_congr rfl fun x => channelName_update rfl, rfl⟩
  · cases hstep

/-- `addMapping` is left, and what it owes is not published. -/
theorem addMappingReturns_names (hstep : s.step cfg (.addMappingReturns c) = some s') :
    s'.channelNames = s.channelNames ∧ (s'.caller c).owes = [] := by
  have hdrop : ∀ stream, (s.dropLocal c stream).channelNames = s.channelNames ∧
      ((s.dropLocal c stream).caller c).owes = [] := by
    intro stream
    simp only [State.dropLocal]
    split
    · exact ⟨rfl, by simp [CallerPc.owes]⟩
    · exact ⟨rfl, by simp [CallerPc.owes]⟩
  unfold State.step at hstep
  split at hstep
  · cases hstep
  simp only [State.addMappingReturns] at hstep
  split at hstep
  · cases hstep
    exact ⟨rfl, by simp [CallerPc.owes]⟩
  · cases hstep
    exact hdrop _
  · cases hstep
    exact hdrop _
  · cases hstep

end Names

/-- What a command does to the list of the channels. -/
def Command.apply (channels : List String) : Command → List String
  | .add added => channels ++ added
  | .stopChannel channel => channels.filter (· ≠ channel)
  | .stopAll => []
  | .exit | .ignored => channels

def MainAction.command : MainAction n → Option Command
  | .poll command => some command
  | _ => none

/-- A step means what the command means that it brings, if any. -/
def MainAction.apply (channels : List String) (action : MainAction n) : List String :=
  match action.command with
  | some command => command.apply channels
  | none => channels

theorem Command.apply_sublist (command : Command) {channels others : List String}
    (hsublist : channels.Sublist others) :
    (command.apply channels).Sublist (command.apply others) := by
  cases command with
  | add added => exact hsublist.append_right added
  | stopChannel channel => exact hsublist.filter _
  | stopAll => exact List.Sublist.refl _
  | exit | ignored => exact hsublist

theorem MainAction.apply_sublist (action : MainAction n) {channels others : List String}
    (hsublist : channels.Sublist others) :
    (action.apply channels).Sublist (action.apply others) := by
  unfold MainAction.apply
  split
  · exact Command.apply_sublist _ hsublist
  · exact hsublist

theorem foldl_apply (schedule : List (MainAction n)) (channels : List String) :
    schedule.foldl MainAction.apply channels =
      (schedule.filterMap MainAction.command).foldl Command.apply channels := by
  rw [List.foldl_filterMap]
  refine congrArg (fun apply => schedule.foldl apply channels) ?_
  funext names action
  unfold MainAction.apply
  cases action.command <;> rfl

/-- The channels that the command in hand has still to add. -/
def MainPc.rest : MainPc → List String
  | .adding _ channels | .mapping _ channels => channels
  | _ => []

namespace Main

variable {s s' : Main n}

/-- The constructor is about to add the channels of the configuration file. -/
def initial (n cursor : Nat) (channels : List String) : Main n :=
  ⟨.adding true channels, { value := ForwardingRunState.run }, .initial n 2 cursor⟩

/-- The channels that are forwarded, and those still to be added. -/
def channels (s : Main n) : List String :=
  s.conversion.channelNames ++ ((s.conversion.caller mainCaller).owes ++ s.pc.rest)

/-- A step with which nothing fails, up to the final `clearStreams`. -/
def Succeeds (s : Main n) (action : MainAction n) : Prop :=
  action ≠ .throws ∧ s.pc ≠ .clearStreams ∧ s.Meets State.Maps action

instance (s : Main n) (action : MainAction n) : Decidable (s.Succeeds action) :=
  inferInstanceAs (Decidable (action ≠ .throws ∧ s.pc ≠ .clearStreams ∧ s.Meets State.Maps action))

/-- A step does what it means, and may lose a channel where something fails. -/
structure Brings (s : Main n) (action : MainAction n) (s' : Main n) : Prop where
  below : s'.channels.Sublist (action.apply s.channels)
  exactly : s.Succeeds action → s.conversion.Healthy → s'.channels = action.apply s.channels

namespace Brings

variable {action : MainAction n}

theorem of_eq (heq : s'.channels = action.apply s.channels) : Brings s action s' :=
  ⟨heq ▸ List.Sublist.refl _, fun _ _ => heq⟩

/-- The main thread goes on to a point with the same channels to add. -/
theorem goto {pc : MainPc} (hnone : action.command = none) (hrest : pc.rest = s.pc.rest) :
    Brings s action { s with pc } :=
  .of_eq (by simp [channels, hrest, MainAction.apply, hnone])

/-- A step on the streams that is none of the main thread's. -/
theorem other {work : Action n 2} {conversion : State n 2} {pc : MainPc}
    (hnone : action.command = none) (hrest : pc.rest = s.pc.rest)
    (hstep : s.conversion.step cfg work = some conversion)
    (hcaller : work.callerOf ≠ some mainCaller)
    (hnames : conversion.channelNames = s.conversion.channelNames) :
    Brings s action { s with conversion, pc } :=
  .of_eq (by simp [channels, hrest, MainAction.apply, hnone, hnames,
    step_caller_of_ne hstep hcaller])

theorem outside {work : Action n 2} {conversion : State n 2} {pc : MainPc}
    (hnone : action.command = none) (hrest : pc.rest = s.pc.rest)
    (hstep : s.conversion.step cfg work = some conversion) (hcaller : work.callerOf = none) :
    Brings s action { s with conversion, pc } :=
  other hnone hrest hstep (by simp [hcaller]) (step_names_outside hstep hcaller)

theorem destruct {conversion : State n 2} {pc : MainPc} (hnone : action.command = none)
    (hrest : pc.rest = s.pc.rest)
    (hstep : s.conversion.step cfg (.destruct mainCaller) = some conversion) :
    Brings s action { s with conversion, pc } := by
  obtain ⟨hnames, howes⟩ := destruct_names hstep
  exact .of_eq (by simp [channels, hrest, MainAction.apply, hnone, hnames, howes])

end Brings

/-- The caller of a removal owes nothing when it has erased its victims. -/
theorem removal_owes {s s' : State n m} {c : Fin m} {action : Action n m}
    {victim : Nat → Bool} (hmove : RemovalMove s action c victim s') :
    (s'.caller c).owes = [] := by
  obtain ⟨paths, herasing⟩ := hmove.erasing
  rw [herasing]
  rfl

theorem mainPlan_brings {plan : Plan n} (hok : MainOk s) (hplan : s.mainPlan = some plan)
    (hdone : CarriesOut cfg s plan s') : Brings s .main s' := by
  have hcaller := hok.caller
  unfold mainPlan at hplan
  cases hpc : s.pc with
  | adding startup pending =>
      rw [hpc] at hcaller
      cases pending with
      | nil =>
          simp only [hpc, Option.some.injEq] at hplan
          subst hplan
          rw [hdone.eq_goto]
          refine .goto rfl ?_
          rw [hpc]
          cases startup <;> rfl
      | cons channel rest =>
          simp only [hpc, Option.some.injEq] at hplan
          subst hplan
          obtain ⟨hnext, hstep⟩ := hdone.eq_conversion
          obtain ⟨hnames, howes⟩ := addMapping_names hstep
          have hnone : (s.conversion.caller mainCaller).owes = [] := congrArg CallerPc.owes hcaller
          rw [hnext]
          exact .of_eq (by simp [channels, hnames, howes, hpc, hnone, MainPc.rest,
            MainAction.apply, MainAction.command])
  | mapping startup rest =>
      simp only [hpc] at hplan
      split at hplan
      · cases hplan
        rw [hdone.eq_goto]
        exact .goto rfl (by rw [hpc]; rfl)
      · cases hplan
  | startWorker i =>
      simp only [hpc] at hplan
      split at hplan
      · cases hplan
        obtain ⟨hnext, hstep⟩ := hdone.eq_conversion
        rw [hnext]
        exact .outside rfl (by rw [hpc]; rfl) hstep rfl
      · cases hplan
        rw [hdone.eq_goto]
        exact .goto rfl (by rw [hpc]; rfl)
  | testFlag =>
      simp only [hpc, Option.some.injEq] at hplan
      subst hplan
      rw [hdone.eq_goto]
      refine .goto rfl ?_
      rw [hpc]
      split <;> rfl
  | poll => simp [hpc] at hplan
  | removing | clearing =>
      simp only [hpc] at hplan
      split at hplan
      · cases hplan
        rw [hdone.eq_goto]
        exact .goto rfl (by rw [hpc]; rfl)
      · cases hplan
        obtain ⟨hnext, hstep⟩ := hdone.eq_conversion
        rw [hnext]
        exact .destruct rfl (by rw [hpc]) hstep
  | raising call =>
      simp only [hpc] at hplan
      split at hplan
      · cases hplan
        rw [hdone.eq_goto]
        exact .goto rfl (by rw [hpc]; rfl)
      · cases hplan
  | stopWorker i =>
      simp only [hpc] at hplan
      split at hplan
      · cases hplan
        obtain ⟨hnext, hstep⟩ := hdone.eq_conversion
        rw [hnext]
        exact .outside rfl (by rw [hpc]; rfl) hstep rfl
      · cases hplan
        rw [hdone.eq_goto]
        exact .goto rfl (by rw [hpc]; rfl)
  | joinWorker i =>
      simp only [hpc] at hplan
      split at hplan
      · cases hplan
        obtain ⟨hnext, hstep⟩ := hdone.eq_conversion
        rw [hnext]
        exact .outside rfl (by rw [hpc]; rfl) hstep rfl
      · cases hplan
  | clearStreams =>
      simp only [hpc, Option.some.injEq] at hplan
      subst hplan
      obtain ⟨hnext, hstep⟩ := hdone.eq_conversion
      have hmove := step_removal_of hstep rfl rfl
      have hnone : s'.channels = [] := by
        rw [hnext, channels, hmove.channelNames, removal_owes hmove]
        simp [MainPc.rest]
      exact ⟨hnone ▸ List.nil_sublist _, fun hsucceeds => absurd hpc hsucceeds.2.1⟩
  | returned => simp [hpc] at hplan

/-- Nothing is still to be added when the next command is polled for. -/
theorem owes_of_poll (hok : MainOk s) (hpc : s.pc = .poll) :
    (s.conversion.caller mainCaller).owes = [] := by
  have hcaller := hok.caller
  rw [hpc] at hcaller
  exact congrArg CallerPc.owes hcaller

theorem channels_of_poll (hok : MainOk s) (hpc : s.pc = .poll) :
    s.channels = s.conversion.channelNames := by
  simp [channels, owes_of_poll hok hpc, hpc, MainPc.rest]

theorem commandPlan_brings {command : Command} (hok : MainOk s) (hpc : s.pc = .poll)
    (hdone : CarriesOut cfg s (s.commandPlan command) s') : Brings s (.poll command) s' := by
  have hnone := owes_of_poll hok hpc
  refine .of_eq ?_
  rw [channels_of_poll hok hpc]
  cases command with
  | add pending =>
      rw [hdone.eq_goto]
      simp [channels, hnone, MainPc.rest, MainAction.apply, MainAction.command, Command.apply]
  | stopChannel channel =>
      obtain ⟨hnext, hstep⟩ := hdone.eq_conversion
      have hmove := step_removal_of hstep rfl rfl
      rw [hnext, channels, hmove.channelNames, removal_owes hmove]
      simp [MainPc.rest, MainAction.apply, MainAction.command, Command.apply,
        State.channelNames, List.filter_map, Function.comp_def]
  | stopAll =>
      obtain ⟨hnext, hstep⟩ := hdone.eq_conversion
      have hmove := step_removal_of hstep rfl rfl
      rw [hnext, channels, hmove.channelNames, removal_owes hmove]
      simp [MainPc.rest, MainAction.apply, MainAction.command, Command.apply]
  | exit =>
      obtain ⟨hnext, -⟩ := hdone.eq_flag
      rw [hnext]
      simp [channels, hnone, MainPc.rest, MainAction.apply, MainAction.command, Command.apply]
  | ignored =>
      rw [hdone.eq_goto]
      simp [channels, hnone, MainPc.rest, MainAction.apply, MainAction.command, Command.apply]

/-- Inside `addMapping` the channel is published, or given up. -/
theorem mapping_brings {action : Action n 2} {conversion : State n 2}
    (halloc : AllocOk s.conversion) (haction : action.ofMapping = true)
    (hmaps : s.Succeeds (.mapping action) → s.conversion.Maps action)
    (hstep : s.conversion.step cfg action = some conversion) :
    Brings s (.mapping action) { s with conversion } := by
  have hself : action.callerOf = some mainCaller := by
    cases action <;> simp_all [Action.ofMapping, Action.callerOf]
  have hlost : conversion.channelNames = s.conversion.channelNames →
      (conversion.caller mainCaller).owes = [] →
        ({ s with conversion } : Main n).channels.Sublist s.channels := by
    intro hnames howes
    simp only [channels, hnames, howes, List.nil_append]
    exact (List.sublist_append_right _ _).append_left _
  have hkept : conversion.channelNames = s.conversion.channelNames →
      (conversion.caller mainCaller).owes = (s.conversion.caller mainCaller).owes →
        ({ s with conversion } : Main n).channels = s.channels := by
    intro hnames howes
    simp only [channels, hnames, howes]
  cases action with
  | getStreamByChannelName c =>
      cases hself
      obtain ⟨hnames, hsame | ⟨hgone, channel, howed, htaken⟩⟩ :=
        getStreamByChannelName_names hstep
      · exact .of_eq (hkept hnames hsame)
      · exact ⟨hlost hnames hgone,
          fun hsucceeds => absurd htaken (hmaps hsucceeds channel howed)⟩
  | add c =>
      cases hself
      refine .of_eq ?_
      simp only [channels, ← List.append_assoc, add_names halloc hstep]
      rfl
  | addConverter c =>
      cases hself
      obtain ⟨hnames, hsame⟩ := addConverter_names hstep
      exact .of_eq (hkept hnames hsame)
  | addMappingReturns c =>
      cases hself
      obtain ⟨hnames, hgone⟩ := addMappingReturns_names hstep
      exact ⟨hlost hnames hgone,
        fun hsucceeds _ => hkept hnames (hgone.trans (hmaps hsucceeds).symm)⟩
  | destruct c =>
      cases hself
      obtain ⟨hnames, hsame⟩ := destruct_names hstep
      exact .of_eq (hkept hnames hsame)
  | _ => cases haction

/-- The status reporter removes the streams whose clients have failed. -/
theorem thread_brings {action : Action n 2} {conversion : State n 2}
    (haction : action.ofThread = true)
    (hstep : s.conversion.step cfg action = some conversion) :
    Brings s (.thread action) { s with conversion } := by
  cases action with
  | work _ _ | enqueueUpdate _ _ | errorInEpics _ => exact .outside rfl rfl hstep rfl
  | destruct c =>
      have hreporter : c = reporterCaller := of_decide_eq_true haction
      subst hreporter
      exact .other rfl rfl hstep (by simp [Action.callerOf]) (destruct_names hstep).1
  | checkStreamStatus c =>
      have hreporter : c = reporterCaller := of_decide_eq_true haction
      subst hreporter
      have hnames := (step_removal_of hstep rfl rfl).channelNames
      have hcaller := step_caller_of_ne hstep (c := mainCaller) (by simp [Action.callerOf])
      refine ⟨?_, fun _ hhealthy => ?_⟩
      · simp only [channels, hnames, hcaller]
        exact (List.filter_sublist.map _).append_right _
      · have hall : s.conversion.streamPointers.filter
            (fun x => !decide ((s.conversion.heap x).status < 0)) =
              s.conversion.streamPointers :=
          List.filter_eq_self.mpr fun x _ => by simp [hhealthy x]
        simp only [channels, hnames, hcaller, hall]
        rfl
  | _ => cases haction

theorem step_brings {action : MainAction n} (hreach : (mainSystem cfg n).Reachable s)
    (hstep : s.step cfg action = some s') : Brings s action s' := by
  have hok := reachable_mainOk hreach
  have halloc := reachable_allocOk (reachable_conversion hreach)
  obtain ⟨plan, hplan, hdone⟩ := step_carriesOut hstep
  cases action with
  | main => exact mainPlan_brings hok hplan hdone
  | poll command =>
      simp only [Main.plan] at hplan
      split at hplan
      · cases hplan
        exact commandPlan_brings hok ‹_› hdone
      · cases hplan
  | mapping action =>
      have hmaps : s.Succeeds (.mapping action) →
          ∀ work ∈ plan.conversion, s.conversion.Maps work :=
        fun hsucceeds => hsucceeds.2.2 plan hplan
      simp only [Main.plan] at hplan
      split at hplan
      · split at hplan
        · cases hplan
          obtain ⟨hnext, hstep⟩ := hdone.eq_conversion
          rw [hnext]
          exact mapping_brings halloc ‹_› (fun hsucceeds => hmaps hsucceeds action rfl) hstep
        · cases hplan
      · cases hplan
  | throws =>
      have hfails : ¬ s.Succeeds .throws := fun hsucceeds => hsucceeds.1 rfl
      simp only [Main.plan] at hplan
      split at hplan
      · rename_i startup rest hpc
        split at hplan
        · cases hplan
          rw [hdone.eq_goto]
          refine ⟨?_, fun hsucceeds => absurd hsucceeds hfails⟩
          simp only [channels, hpc, MainAction.apply, MainAction.command]
          refine List.Sublist.append_left (List.Sublist.append_left ?_ _) _
          cases startup with
          | true => exact List.Sublist.refl _
          | false => exact List.nil_sublist _
        · cases hplan
      · cases hplan
  | thread action =>
      simp only [Main.plan] at hplan
      split at hplan
      · cases hplan
        obtain ⟨hnext, hstep⟩ := hdone.eq_conversion
        rw [hnext]
        exact thread_brings ‹_› hstep
      · cases hplan
  | flag action =>
      cases hplan
      obtain ⟨hnext, -⟩ := hdone.eq_flag
      rw [hnext]
      exact .of_eq rfl

/-- No client fails in a run whose steps all succeed. -/
theorem step_healthy_of_succeeds {action : MainAction n} (hsucceeds : s.Succeeds action)
    (hstep : s.step cfg action = some s') (hhealthy : s.conversion.Healthy) :
    s'.conversion.Healthy := by
  obtain ⟨plan, hplan, hdone⟩ := step_carriesOut hstep
  rcases hdone.conversion_cases with hsame | ⟨work, hwork, hnext⟩
  · rwa [hsame]
  · exact step_healthy hnext (hsucceeds.2.2 plan hplan work hwork) hhealthy

/-- The forwarded channels follow the commands.  Whatever runs beside the main
thread, the channels in `Streams` are those of the configuration file as the
commands so far have changed them, in this order, or fewer; and where nothing
has failed, exactly those when the main thread polls for the next command. -/
theorem channels_follow_commands (cfg : Config) (n cursor : Nat) (channels : List String)
    (schedule : List (MainAction n)) (s : Main n)
    (hrun : (mainSystem cfg n).run (initial n cursor channels) schedule = some s) :
    s.conversion.channelNames.Sublist
        ((schedule.filterMap MainAction.command).foldl Command.apply channels) ∧
      ((mainSystem cfg n).runVia Main.Succeeds (initial n cursor channels) schedule = some s →
        s.pc = .poll → s.conversion.channelNames =
          (schedule.filterMap MainAction.command).foldl Command.apply channels) := by
  have hinit : (mainSystem cfg n).Reachable (initial n cursor channels) :=
    .init ⟨channels, cursor, rfl⟩
  constructor
  · have hvia : (mainSystem cfg n).runVia (fun _ _ => True) (initial n cursor channels)
        schedule = some s := by
      rw [Transition.System.runVia_eq_run fun _ _ _ => trivial, hrun]
    obtain ⟨-, hbelow⟩ := Transition.System.runVia_refines (mainSystem cfg n).Reachable
      Main.channels MainAction.apply List.Sublist List.Sublist.refl
      (fun _ _ _ hfirst hsecond => hfirst.trans hsecond)
      (fun action _ _ hsublist => action.apply_sublist hsublist)
      (fun _ _ _ hreach _ hstep => ⟨hreach.next hstep, (step_brings hreach hstep).below⟩)
      hinit hvia
    rw [foldl_apply] at hbelow
    exact (List.sublist_append_left _ _).trans hbelow
  · intro hvia hpc
    obtain ⟨⟨hreach, -⟩, hexactly⟩ := Transition.System.runVia_refines
      (fun s : Main n => (mainSystem cfg n).Reachable s ∧ s.conversion.Healthy)
      Main.channels MainAction.apply Eq (fun _ => rfl) (fun _ _ _ => Eq.trans)
      (fun action _ _ heq => congrArg action.apply heq)
      (fun _ _ _ hbefore hsucceeds hstep =>
        ⟨⟨hbefore.1.next hstep, step_healthy_of_succeeds hsucceeds hstep hbefore.2⟩,
          (step_brings hbefore.1 hstep).exactly hsucceeds hbefore.2⟩)
      ⟨hinit, fun _ => rfl⟩ hvia
    rw [foldl_apply, channels_of_poll (reachable_mainOk hreach) hpc] at hexactly
    exact hexactly

/-- An undisturbed `addMapping` by the main thread. -/
def mapChannel : List (MainAction n) :=
  [.main, .mapping (.getStreamByChannelName mainCaller), .mapping (.add mainCaller),
    .mapping (.addConverter mainCaller), .mapping (.addMappingReturns mainCaller),
    .mapping (.destruct mainCaller), .main]

/-- Two channels from the configuration file; one command stops the first, and
another adds a third. -/
def stopOneAddOne : List (MainAction n) :=
  mapChannel ++ mapChannel ++ List.replicate 4 .main ++ [.poll (.stopChannel "a")] ++
    List.replicate 4 .main ++ [.poll (.add ["c"])] ++ mapChannel ++ List.replicate 2 .main

theorem stopOneAddOne_channels :
    ∃ s : Main 1, s.pc = .poll ∧ s.conversion.channelNames = ["b", "c"] := by
  have hchecked : ((mainSystem .maxSubqueueSize 1).runVia Main.Succeeds
      (initial 1 0 ["a", "b"]) stopOneAddOne).any (fun s => s.pc = .poll) = true := by
    decide +kernel
  obtain ⟨s, hvia, hpc⟩ := (Option.any_eq_true _ _).mp hchecked
  obtain ⟨-, hexactly⟩ := channels_follow_commands .maxSubqueueSize 1 0 ["a", "b"]
    stopOneAddOne s (Transition.System.run_of_runVia hvia)
  exact ⟨s, of_decide_eq_true hpc, hexactly hvia (of_decide_eq_true hpc)⟩

end Main

end EpicsToKafka
