/-
From EPICS to Kafka.  Each stream has a client, whose monitors poll elements
and enqueue updates at the stream; workers dequeue them, and the paths of the
stream emit them.  The two sides meet in the queue of the stream only.
-/
import EpicsToKafka.ConversionChannels
import EpicsToKafka.MonitorEvents
import EpicsToKafka.Publication

namespace EpicsToKafka

open PVData

variable {k n m : Nat} {cfg : Config}

section Paths

variable {s s' : State n m} {action : Action n m} {w : Fin n} {c : Fin m}

/-- A stream keeps its paths, and new ones come last. -/
theorem step_conversionPaths (halloc : AllocOk s) (hstep : s.step cfg action = some s')
    (x : Nat) : (s.heap x).conversionPaths <+: (s'.heap x).conversionPaths := by
  rcases step_move hstep with ⟨w, hmove⟩ | ⟨c, hmove⟩ | hmove
  · rw [hmove.frame.conversionPaths]
  · cases hmove with
    | add _ _ =>
        by_cases hx : x = s.nextStream
        · subst hx
          simp [halloc.heap_fresh]
        · simp [hx]
    | @addConverter stream _ =>
        by_cases hx : x = stream
        · subst hx
          simp
        · simp [hx]
    | addMapping _ _ | found _ _ _ | notFound _ _ _ | throwEarly _ | keepStream _
    | dropStream _ _ | eraseIf _ _ | erased _ | erasePath _ _ | returned _ | returnPath _ _ =>
        exact List.prefix_refl _
  · cases hmove with
    | @enqueueUpdate stream _ _ | @errorInEpics stream _ =>
        by_cases hx : x = stream
        · subst hx
          simp
        · simp [hx]
    | start _ _ | stop | join _ => exact List.prefix_refl _

theorem State.mem_dequeueRecord {stream : Nat} {d : Dequeue} (hd : d ∈ s.dequeueRecord stream) :
    d.stream = stream ∧ d.paths = (s.heap stream).conversionPaths := by
  unfold State.dequeueRecord at hd
  split at hd
  · rw [List.mem_singleton.mp hd]
    exact ⟨rfl, rfl⟩
  · cases hd

theorem WorkerMove.dequeued (hmove : WorkerMove cfg s w s') :
    s'.dequeued = s.dequeued ∨
      ∃ stream, s'.dequeued = s.dequeued ++ s.dequeueRecord stream := by
  cases hmove with
  | @iterate frame stream locals next _ _ => exact Or.inr ⟨stream, rfl⟩
  | closeBatch _ =>
      refine Or.inl ?_
      unfold State.closeBatch
      split <;> rfl
  | destroyPacket _ =>
      refine Or.inl ?_
      unfold State.destroyPacket
      split <;> rfl
  | _ => exact Or.inl rfl

/-- An update is dequeued for the paths its stream has then. -/
theorem step_dequeued (hstep : s.step cfg action = some s') {d : Dequeue}
    (hd : d ∈ s'.dequeued) :
    d ∈ s.dequeued ∨ d.paths = (s.heap d.stream).conversionPaths := by
  rcases step_move hstep with ⟨w, hmove⟩ | ⟨c, hmove⟩ | hmove
  · rcases hmove.dequeued with hsame | ⟨stream, hnew⟩
    · exact Or.inl (hsame ▸ hd)
    · rw [hnew, List.mem_append] at hd
      refine hd.imp_right fun hrecord => ?_
      obtain ⟨hstream, hpaths⟩ := State.mem_dequeueRecord hrecord
      rw [hpaths, hstream]
  · exact Or.inl (hmove.frame.dequeued ▸ hd)
  · cases hmove with
    | start _ _ | stop | join _ | enqueueUpdate _ | errorInEpics _ => exact Or.inl hd

/-- What was dequeued was dequeued for paths of its own stream. -/
def DequeuedOk (s : State n m) : Prop :=
  ∀ d ∈ s.dequeued, d.paths <+: (s.heap d.stream).conversionPaths

theorem reachable_dequeuedOk (hreach : (conversionSystem cfg n m).Reachable s) :
    DequeuedOk s := by
  refine hreach.invariant ?_ ?_
  · rintro s ⟨cursor, rfl⟩
    simp [DequeuedOk, State.initial]
  · intro s action s' hbefore hknown hstep d hd
    have hkept := step_conversionPaths (reachable_allocOk hbefore) hstep d.stream
    rcases step_dequeued hstep hd with hold | hnew
    · exact (hknown d hold).trans hkept
    · rwa [hnew]

/-- A step keeps the names of the streams there are. -/
theorem step_channelName (hstep : s.step cfg action = some s') {x : Nat}
    (hx : x < s.nextStream) : (s'.heap x).channelName = (s.heap x).channelName := by
  cases step_storeMove hstep with
  | kept hkept => exact hkept.channelName x
  | free _ _ _ => rfl
  | publish _ _ => simp [Nat.ne_of_lt hx]

end Paths

/-- The clients of all streams, each with `k` monitors, and what becomes of
their updates. -/
structure Pipeline (k n m : Nat) where
  monitors : Nat → MonitorEvents k
  publication : Publication n m

/-- The workers do the conversions here, not `MonitorAction.convert`. -/
def PVData.MonitorAction.ofEpics : PVData.MonitorAction k → Bool
  | .convert => false
  | _ => true

/-- Only clients enqueue. -/
def PublicationAction.ofForwarder : PublicationAction n m → Bool
  | .conversion (.enqueueUpdate _ _) => false
  | _ => true

/-- A step of the client of a stream, or of the rest. -/
inductive PipelineAction (k n m : Nat) where
  | epics (stream : Nat) (action : PVData.MonitorAction k)
  | forwarder (action : PublicationAction n m)

namespace Pipeline

variable {s s' : Pipeline k n m}

/-- The `EmitQueue` of a client is the `OutputQueue` of its stream. -/
def epics (cfg : Config) (s : Pipeline k n m) (stream : Nat)
    (action : PVData.MonitorAction k) : Option (Pipeline k n m) :=
  let conversion := s.publication.conversion
  if conversion.terminated = false ∧ stream < conversion.nextStream ∧ action.ofEpics = true then do
    let monitors ← (s.monitors stream).step (conversion.heap stream).channelName action
    let publication ← ((s.monitors stream).enqueues action).elim (some s.publication)
      fun update =>
        s.publication.step cfg (.conversion (.enqueueUpdate stream (some update)))
    some ⟨Function.update s.monitors stream monitors, publication⟩
  else none

def step (cfg : Config) (s : Pipeline k n m) : PipelineAction k n m → Option (Pipeline k n m)
  | .epics stream action => s.epics cfg stream action
  | .forwarder action =>
      if action.ofForwarder then
        (s.publication.step cfg action).map fun publication => { s with publication }
      else none

end Pipeline

/-- The forwarder with the clients of all streams it will ever have. -/
def pipelineSystem (cfg : Config) (k n m : Nat) :
    Transition.System (Pipeline k n m) (PipelineAction k n m) where
  init s := ∃ (elements : Nat → Fin k → Nat → PVStructure) (cursor : Nat),
    s = ⟨fun stream => .initial (elements stream), .initial n m cursor⟩
  step := Pipeline.step cfg

namespace Pipeline

variable {s s' : Pipeline k n m}

/-- The channel of a stream. -/
def channelName (s : Pipeline k n m) (stream : Nat) : String :=
  (s.publication.conversion.heap stream).channelName

/-- The updates that the client of a stream has enqueued. -/
def enqueuedBy (s : Pipeline k n m) (stream : Nat) : List (Option Nat) :=
  (s.monitors stream).client.enqueued.map Enqueued.update

/-- What one step can do. -/
inductive Move (cfg : Config) (s : Pipeline k n m) : Pipeline k n m → Prop
  | client {stream : Nat} {action : PVData.MonitorAction k} {monitors : MonitorEvents k}
      (hstream : stream < s.publication.conversion.nextStream)
      (hstep : (s.monitors stream).step (s.channelName stream) action = some monitors)
      (hnone : (s.monitors stream).enqueues action = none) :
      Move cfg s { s with monitors := Function.update s.monitors stream monitors }
  | enqueue {stream update : Nat} {action : PVData.MonitorAction k} {monitors : MonitorEvents k}
      {publication : Publication n m}
      (hstream : stream < s.publication.conversion.nextStream)
      (hstep : (s.monitors stream).step (s.channelName stream) action = some monitors)
      (hsome : (s.monitors stream).enqueues action = some update)
      (henqueue : s.publication.convert cfg (.enqueueUpdate stream (some update)) =
        some publication) :
      Move cfg s ⟨Function.update s.monitors stream monitors, publication⟩
  | forward {action : PublicationAction n m} {publication : Publication n m}
      (haction : action.ofForwarder = true)
      (hstep : s.publication.step cfg action = some publication) :
      Move cfg s { s with publication }

theorem step_move {action : PipelineAction k n m} (hstep : s.step cfg action = some s') :
    Move cfg s s' := by
  cases action with
  | epics stream action =>
      simp only [step, epics] at hstep
      split at hstep
      · rename_i hguard
        obtain ⟨monitors, hmonitors, hrest⟩ := Option.bind_eq_some_iff.mp hstep
        obtain ⟨publication, hpublication, hdone⟩ := Option.bind_eq_some_iff.mp hrest
        cases hdone
        cases henqueues : (s.monitors stream).enqueues action with
        | none =>
            rw [henqueues] at hpublication
            cases hpublication
            exact .client hguard.2.1 hmonitors henqueues
        | some update =>
            rw [henqueues] at hpublication
            exact .enqueue hguard.2.1 hmonitors henqueues hpublication
      · cases hstep
  | forwarder action =>
      simp only [step] at hstep
      split at hstep
      · obtain ⟨publication, hpublication, rfl⟩ := Option.map_eq_some_iff.mp hstep
        exact .forward ‹_› hpublication
      · cases hstep

/-- Each side runs as it does alone, and the queue of a stream has what its
client has enqueued. -/
structure PipelineOk (cfg : Config) (s : Pipeline k n m) : Prop where
  publication : (publicationSystem cfg n m).Reachable s.publication
  monitors : ∀ x, (PVData.monitorSystem (s.channelName x) k).Reachable (s.monitors x)
  fresh : ∀ x, s.publication.conversion.nextStream ≤ x →
    ∃ elements, s.monitors x = .initial elements
  enqueued : ∀ x, (s.publication.enqueuedAt x).map (fun entry => some entry.update) =
    s.enqueuedBy x

/-- A client that has done nothing may be the client of any channel. -/
theorem reachable_of_fresh {monitors : MonitorEvents k}
    (hfresh : ∃ elements, monitors = .initial elements) (channelName : String) :
    (PVData.monitorSystem channelName k).Reachable monitors :=
  .init hfresh

theorem convert_enqueueUpdate {publication publication' : Publication n m} {stream update : Nat}
    (hstep : publication.convert cfg (.enqueueUpdate stream (some update)) =
      some publication') :
    publication.conversion.step cfg (.enqueueUpdate stream (some update)) =
        some publication'.conversion ∧
      publication'.enqueued =
        publication.enqueued ++ [(stream, ⟨publication.conversion.nextTicket, update⟩)] := by
  unfold Publication.convert at hstep
  split at hstep
  · cases hstep
  obtain ⟨conversion, hconversion, rfl⟩ := Option.map_eq_some_iff.mp hstep
  exact ⟨hconversion, rfl⟩

/-- The forwarder takes steps of the conversion system and enqueues nothing. -/
theorem forwarder_step {publication publication' : Publication n m}
    {action : PublicationAction n m} (haction : action.ofForwarder = true)
    (hstep : publication.step cfg action = some publication') :
    (∃ work, publication.conversion.step cfg work = some publication'.conversion) ∧
      publication'.enqueued = publication.enqueued := by
  cases action with
  | conversion work =>
      simp only [Publication.step, Publication.convert] at hstep
      split at hstep
      · cases hstep
      obtain ⟨conversion, hconversion, rfl⟩ := Option.map_eq_some_iff.mp hstep
      have hentry : work.entry publication.conversion = [] := by
        cases work with
        | enqueueUpdate _ _ => cases haction
        | _ => rfl
      exact ⟨⟨work, hconversion⟩, by rw [hentry, List.append_nil]⟩
  | emitReturns w message answer =>
      obtain ⟨_, conversion, _, hconversion, rfl⟩ := Publication.emitReturns_eq_some hstep
      exact ⟨⟨.work w 0, hconversion⟩, rfl⟩

namespace PipelineOk

theorem initial (elements : Nat → Fin k → Nat → PVStructure) (cursor : Nat) :
    PipelineOk cfg
      (⟨fun stream => .initial (elements stream), .initial n m cursor⟩ : Pipeline k n m) where
  publication := .init ⟨cursor, rfl⟩
  monitors _ := reachable_of_fresh ⟨_, rfl⟩ _
  fresh _ _ := ⟨_, rfl⟩
  enqueued _ := rfl

/-- A client moves; what it enqueues arrives at its stream. -/
theorem clientStep (hok : PipelineOk cfg s) {stream : Nat} {action : PVData.MonitorAction k}
    {monitors : MonitorEvents k} {publication : Publication n m}
    (hstream : stream < s.publication.conversion.nextStream)
    (hstep : (s.monitors stream).step (s.channelName stream) action = some monitors)
    (hreach : (publicationSystem cfg n m).Reachable publication)
    (hnext : s.publication.conversion.nextStream ≤ publication.conversion.nextStream)
    (hname : ∀ x < s.publication.conversion.nextStream,
      (publication.conversion.heap x).channelName = s.channelName x)
    (hsame : ∀ x, x ≠ stream → publication.enqueuedAt x = s.publication.enqueuedAt x)
    (harrived : (publication.enqueuedAt stream).map (fun entry => some entry.update) =
      (s.publication.enqueuedAt stream).map (fun entry => some entry.update) ++
        ((s.monitors stream).enqueues action).toList.map some) :
    PipelineOk cfg (⟨Function.update s.monitors stream monitors, publication⟩ :
      Pipeline k n m) := by
  have hmonitors := (hok.monitors stream).next hstep
  refine ⟨hreach, fun x => ?_, fun x hx => ?_, fun x => ?_⟩
  · by_cases hx : x = stream
    · subst hx
      simpa only [channelName, hname x hstream, Function.update_self] using hmonitors
    · simp only [Function.update_of_ne hx]
      by_cases hlt : x < s.publication.conversion.nextStream
      · simpa only [channelName, hname x hlt] using hok.monitors x
      · exact reachable_of_fresh (hok.fresh x (Nat.not_lt.mp hlt)) _
  · have hbefore := Nat.le_trans hnext hx
    have hne : x ≠ stream := Nat.ne_of_gt (Nat.lt_of_lt_of_le hstream hbefore)
    simpa only [Function.update_of_ne hne] using hok.fresh x hbefore
  · by_cases hx : x = stream
    · subst hx
      rw [harrived, hok.enqueued]
      simp only [enqueuedBy, Function.update_self, MonitorEvents.step_enqueued hstep]
    · simpa only [hsame x hx, enqueuedBy, Function.update_of_ne hx] using hok.enqueued x

theorem forward (hok : PipelineOk cfg s) {action : PublicationAction n m}
    {publication : Publication n m} (haction : action.ofForwarder = true)
    (hstep : s.publication.step cfg action = some publication) :
    PipelineOk cfg { s with publication } := by
  obtain ⟨⟨work, hwork⟩, henqueued⟩ := forwarder_step haction hstep
  refine ⟨hok.publication.next hstep, fun x => ?_, fun x hx => ?_, fun x => ?_⟩
  · by_cases hlt : x < s.publication.conversion.nextStream
    · have hmonitors := hok.monitors x
      rwa [channelName, ← step_channelName hwork hlt] at hmonitors
    · exact reachable_of_fresh (hok.fresh x (Nat.not_lt.mp hlt)) _
  · exact hok.fresh x (Nat.le_trans (step_next_le hwork).1 hx)
  · have hsame := hok.enqueued x
    rw [Publication.enqueuedAt, ← henqueued] at hsame
    exact hsame

theorem move (hok : PipelineOk cfg s) (hmove : Move cfg s s') : PipelineOk cfg s' := by
  cases hmove with
  | client hstream hstep hnone =>
      exact hok.clientStep hstream hstep hok.publication (Nat.le_refl _) (fun _ _ => rfl)
        (fun _ _ => rfl) (by simp [hnone])
  | @enqueue stream update action monitors publication hstream hstep hsome henqueue =>
      obtain ⟨hconversion, henqueued⟩ := convert_enqueueUpdate henqueue
      have hlabelled : (publicationSystem cfg n m).step s.publication
          (.conversion (.enqueueUpdate stream (some update))) = some publication := henqueue
      refine hok.clientStep hstream hstep (hok.publication.next hlabelled)
        (step_next_le hconversion).1 (fun x hx => step_channelName hconversion hx)
        (fun x hx => ?_) ?_
      · simp [Publication.enqueuedAt, henqueued, Ne.symm hx]
      · simp [Publication.enqueuedAt, henqueued, hsome]
  | forward haction hstep => exact hok.forward haction hstep

end PipelineOk

theorem reachable_pipelineOk (hreach : (pipelineSystem cfg k n m).Reachable s) :
    PipelineOk cfg s := by
  refine hreach.invariant ?_ ?_
  · rintro s ⟨elements, cursor, rfl⟩
    exact PipelineOk.initial elements cursor
  · intro s action s' _ hok hstep
    exact hok.move (step_move hstep)

/-- A path has been there since the first update was taken from its stream. -/
def ServesFromStart (s : Pipeline k n m) (path stream : Nat) : Prop :=
  path ∈ (s.publication.conversion.heap stream).conversionPaths ∧
    ∀ d ∈ s.publication.conversion.dequeued, d.stream = stream → path ∈ d.paths

namespace PipelineOk

theorem conversion (hok : PipelineOk cfg s) :
    (conversionSystem cfg n m).Reachable s.publication.conversion :=
  (Publication.reachable_followed hok.publication).reachable

/-- The path of a dequeued update belongs to the stream it came from only. -/
theorem owner (hok : PipelineOk cfg s) {d : Dequeue}
    (hd : d ∈ s.publication.conversion.dequeued) {path : Nat} (hpath : path ∈ d.paths)
    (other : Nat) :
    path ∈ (s.publication.conversion.heap other).conversionPaths ↔ other = d.stream := by
  have hmem := (reachable_dequeuedOk hok.conversion d hd).subset hpath
  constructor
  · exact fun hother => (reachable_allocOk hok.conversion).paths_owner _ _ path hother hmem
  · rintro rfl
    exact hmem

/-- What a stream has left to convert is what its client enqueued last. -/
theorem arrivals (hok : PipelineOk cfg s) (stream : Nat) :
    (s.publication.dequeuedFrom stream ++
        (s.publication.conversion.heap stream).outputQueue.filterMap id).map
      (fun entry => some entry.update) = s.enqueuedBy stream := by
  rw [(Publication.reachable_followed hok.publication).arrivals, hok.enqueued]

theorem dequeuedFor_eq (hok : PipelineOk cfg s) {path stream : Nat}
    (hserves : s.ServesFromStart path stream) :
    s.publication.conversion.dequeuedFor path = s.publication.dequeuedFrom stream := by
  have hiff : ∀ d ∈ s.publication.conversion.dequeued,
      decide (path ∈ d.paths) = decide (d.stream = stream) := by
    intro d hd
    rw [decide_eq_decide]
    exact ⟨fun hpath => ((hok.owner hd hpath stream).mp hserves.1).symm, hserves.2 d hd⟩
  rw [State.dequeuedFor, Publication.dequeuedFrom, List.filter_congr hiff]

end PipelineOk

/-- One monitor polls two elements, the timer ticks between their emissions,
and a worker takes all three updates and is stopped. -/
def pollTwoAndStop (w : Fin n) (c : Fin m) (t : Fin k) : List (PipelineAction k n m) :=
  (Action.mapChannel c "pv").map (fun action => .forwarder (.conversion action)) ++
    (MonitorEvents.reuseElement t).map (.epics 0) ++
    [.forwarder (.conversion (.start w))] ++
    List.replicate 13 (.forwarder (.conversion (.work w 3))) ++
    [.forwarder (.emitReturns w (some [1, 2, 3]) .noError),
      .forwarder (.conversion (.work w 3)),
      .forwarder (.emitReturns w (some [1, 2, 3]) .queueFull),
      .forwarder (.conversion (.work w 3)), .forwarder (.emitReturns w none .noError),
      .forwarder (.conversion (.work w 3)), .forwarder (.conversion (.stop w)),
      .forwarder (.conversion (.work w 3)), .forwarder (.conversion (.join w))]

theorem exists_pollTwoAndStop :
    ∃ s : Pipeline 1 1 1, (pipelineSystem .maxSubqueueSize 1 1 1).Reachable s ∧
      s.publication.emissionsFor 0 = [⟨0, 0⟩, ⟨1, 0⟩, ⟨2, 1⟩] ∧ s.channelName 0 = "pv" ∧
      s.ServesFromStart 0 0 ∧ s.publication.conversion.joined 0 = true ∧
      (s.publication.conversion.heap 0).outputQueue = [] ∧ (s.monitors 0).call 0 = .idle ∧
      ((s.monitors 0).polled 0).map PVStructure.alarmMessage =
        [some "NO_ALARM", some "HIGH_ALARM"] := by
  obtain ⟨s, hreach, hemitted, hname, hpath, hfirst, hrest⟩ :=
    Transition.System.exists_reachable_of_run (T := pipelineSystem .maxSubqueueSize 1 1 1)
      (fun s => s.publication.emissionsFor 0 = [⟨0, 0⟩, ⟨1, 0⟩, ⟨2, 1⟩] ∧
        s.channelName 0 = "pv" ∧
        0 ∈ (s.publication.conversion.heap 0).conversionPaths ∧
        (∀ d ∈ s.publication.conversion.dequeued, d.stream = 0 → 0 ∈ d.paths) ∧
        s.publication.conversion.joined 0 = true ∧
        (s.publication.conversion.heap 0).outputQueue = [] ∧ (s.monitors 0).call 0 = .idle ∧
        ((s.monitors 0).polled 0).map PVStructure.alarmMessage =
          [some "NO_ALARM", some "HIGH_ALARM"])
      (pollTwoAndStop 0 0 0) ⟨fun _ _ _ => .alarmed "NO_ALARM" 0, 0, rfl⟩ (by decide +kernel)
  exact ⟨s, hreach, hemitted, hname, ⟨hpath, hfirst⟩, hrest⟩

/-- No message mixes channels up.  Whatever a path emits was polled, by a
monitor of the stream that owns the path, on the channel of that stream. -/
theorem emitted_was_polled (cfg : Config) (k n m : Nat) (s : Pipeline k n m)
    (hreach : (pipelineSystem cfg k n m).Reachable s) :
    ∀ e ∈ s.publication.emissions, ∃ stream,
      (∀ other, e.path ∈ (s.publication.conversion.heap other).conversionPaths ↔
        other = stream) ∧
      ∃ t, ∃ content ∈ (s.monitors stream).polled t,
        (s.monitors stream).client.contentAt e.entry.update =
          some (content, s.channelName stream) := by
  intro e he
  have hok := reachable_pipelineOk hreach
  have hfollowed := Publication.reachable_followed hok.publication
  have hemitted : e.entry ∈ s.publication.emissionsFor e.path :=
    List.mem_map_of_mem (List.mem_filter.mpr ⟨he, by simp⟩)
  have hdequeued := (hfollowed.emissionsFor_subperm e.path).subset hemitted
  obtain ⟨d, hfor, hentry⟩ := List.mem_map.mp hdequeued
  obtain ⟨hd, hpath⟩ := List.mem_filter.mp hfor
  refine ⟨d.stream, hok.owner hd (of_decide_eq_true hpath), ?_⟩
  have hfrom : e.entry ∈ s.publication.dequeuedFrom d.stream :=
    hentry ▸ List.mem_map_of_mem (List.mem_filter.mpr ⟨hd, by simp⟩)
  have henqueued : some e.entry.update ∈ s.enqueuedBy d.stream := by
    rw [← hok.arrivals]
    exact List.mem_map.mpr ⟨e.entry, List.mem_append_left _ hfrom, rfl⟩
  exact MonitorEvents.enqueued_was_polled (hok.monitors d.stream) henqueued

theorem pollTwoAndStop_was_polled :
    ∃ s : Pipeline 1 1 1, ∃ e ∈ s.publication.emissions, e.entry = ⟨2, 1⟩ ∧
      ∃ t, ∃ content ∈ (s.monitors 0).polled t,
        (s.monitors 0).client.contentAt 1 = some (content, "pv") := by
  obtain ⟨s, hreach, hemitted, hname, hserves, -⟩ := exists_pollTwoAndStop
  have hmem : (⟨2, 1⟩ : Entry) ∈ s.publication.emissionsFor 0 := by simp [hemitted]
  obtain ⟨e, hfor, hentry⟩ := List.mem_map.mp hmem
  obtain ⟨he, hpath⟩ := List.mem_filter.mp hfor
  obtain ⟨stream, howner, t, content, hpolled, hread⟩ :=
    emitted_was_polled .maxSubqueueSize 1 1 1 s hreach e he
  have hstream : 0 = stream := by
    rw [← howner, of_decide_eq_true hpath]
    exact hserves.1
  subst hstream
  rw [hname, hentry] at hread
  exact ⟨s, e, he, hentry, t, content, hpolled, hread⟩

/-- Nothing is lost.  When the workers have been stopped and nothing waits at
a stream, a path that has been there from the start has emitted what the
client enqueued, each update once; so it has emitted, as it was polled, every
element of a monitor whose call has returned. -/
theorem everything_is_emitted (cfg : Config) (k n m : Nat) (s : Pipeline k n m)
    (hreach : (pipelineSystem cfg k n m).Reachable s) (path stream : Nat)
    (hserves : s.ServesFromStart path stream)
    (hstopped : ∀ w, s.publication.conversion.joined w = true)
    (hempty : (s.publication.conversion.heap stream).outputQueue = []) :
    ((s.publication.emissionsFor path).map fun entry => some entry.update).Perm
        (s.enqueuedBy stream) ∧
      ∀ t, (s.monitors stream).call t = .idle →
        (((s.monitors stream).polled t).map fun content =>
          some (content, s.channelName stream)).Subperm
            ((s.publication.emissionsFor path).map fun entry =>
              (s.monitors stream).client.contentAt entry.update) := by
  have hok := reachable_pipelineOk hreach
  have harrivals := hok.arrivals stream
  rw [hempty, List.filterMap_nil, List.append_nil, ← hok.dequeuedFor_eq hserves] at harrivals
  have hperm : ((s.publication.emissionsFor path).map fun entry => some entry.update).Perm
      (s.enqueuedBy stream) := by
    rw [← harrivals]
    exact ((Publication.reachable_followed hok.publication).emissionsFor_perm hstopped path).map _
  refine ⟨hperm, fun t hidle => ?_⟩
  have hpolled := MonitorEvents.polled_sublist (hok.monitors stream) hidle
  have hread := hperm.map fun update => update.bind (s.monitors stream).client.contentAt
  rw [List.map_map] at hread
  exact hpolled.subperm.trans hread.symm.subperm

theorem pollTwoAndStop_is_emitted :
    ∃ s : Pipeline 1 1 1, ((s.monitors 0).polled 0).map PVStructure.alarmMessage =
        [some "NO_ALARM", some "HIGH_ALARM"] ∧
      (((s.monitors 0).polled 0).map fun content => some (content, "pv")).Subperm
        ((s.publication.emissionsFor 0).map fun entry =>
          (s.monitors 0).client.contentAt entry.update) := by
  obtain ⟨s, hreach, -, hname, hserves, hjoined, hempty, hidle, hpolled⟩ :=
    exists_pollTwoAndStop
  have hall : ∀ w, s.publication.conversion.joined w = true := fun w => by
    rw [Subsingleton.elim w 0]
    exact hjoined
  obtain ⟨-, hread⟩ :=
    everything_is_emitted .maxSubqueueSize 1 1 1 s hreach 0 0 hserves hall hempty
  have hread := hread 0 hidle
  rw [hname] at hread
  exact ⟨s, hpolled, hread⟩

end Pipeline

end EpicsToKafka
