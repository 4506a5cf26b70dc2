/-
`ConversionScheduler::fill` over a fixed list of streams, call after call.  The
visits are kept in order across the calls; between them the EPICS clients go
on filling the queues of the streams.
-/
import EpicsToKafka.FillQueue
import EpicsToKafka.Transition
import Mathlib.Data.List.Nodup
import Mathlib.Data.Nat.ModEq

namespace EpicsToKafka

variable {υ : Type}

/-- What a visit meets: the entries that came in since the visit before, by
stream, and the answers of `size_approx` and of the enqueues. -/
structure Surroundings (υ : Type) where
  arrivals : Nat → List (Option υ)
  sizeApprox : Nat
  enqueue : Nat → Bool

/-- A call of `fillConversionQueue`: the index of its stream, what had been
queued before it, and its return value. -/
structure Visit where
  sid : Nat
  nfc : Nat
  n1 : Nat
deriving Repr, DecidableEq

/-- The state of a call of `fill`; `visits` is history. -/
structure FillRun (υ : Type) where
  streams : List (StreamQueue υ)
  sid : Nat
  work : WorkQueue υ
  nfc : Nat
  visits : List Visit

/-- The EPICS clients put new entries into the queues. -/
def arrive (arrivals : Nat → List (Option υ)) (streams : List (StreamQueue υ)) :
    List (StreamQueue υ) :=
  streams.mapIdx fun index stream =>
    { stream with outputQueue := stream.outputQueue ++ arrivals index }

/-- The cursor after the check against the number of streams. -/
def wrapCursor (size sid : Nat) : Nat :=
  if size ≤ sid then 0 else sid

/-- The body of the loop up to its `break`. -/
def FillRun.visit (nfm : Nat) (around : Surroundings υ) (run : FillRun υ) :
    Option (FillRun υ) :=
  let streams := arrive around.arrivals run.streams
  match streams[run.sid]? with
  | none => none
  | some stream =>
      (fillConversionQueue around.enqueue around.sizeApprox (uint32Sub nfm run.nfc) stream
        run.work).map fun filled =>
          { streams := streams.set run.sid filled.stream
            sid := wrapCursor streams.length (run.sid + 1)
            work := filled.work
            nfc := uint32Add run.nfc filled.numQueued
            visits := run.visits ++ [⟨run.sid, run.nfc, filled.numQueued⟩] }

/-- The `while` loop, for at most `fuel` rounds. -/
def FillRun.loop (nfm sid0 : Nat) (around : Nat → Surroundings υ) :
    (fuel : Nat) → FillRun υ → Option (FillRun υ)
  | 0, _ => none
  | fuel + 1, run =>
      if run.nfc < nfm then
        (run.visit nfm (around run.visits.length)).bind fun next =>
          if next.sid = sid0 then some next else loop nfm sid0 around fuel next
      else some run

/-- The conversion of a `uint32_t` to `int`. -/
def intOfUint32 (value : Nat) : Int :=
  Int.bmod value (2 ^ 32)

/-- A call of `fill` by some worker, with its queue and everything that
happens around it. -/
structure FillArguments (υ : Type) where
  nfm : Nat
  work : WorkQueue υ
  around : Nat → Surroundings υ
  nfm_pos : 0 < nfm
  nfm_lt : nfm < 2 ^ 32

/-- `ConversionScheduler::fill`; the last component is its return value. -/
def fill (streams : List (StreamQueue υ)) (sid : Nat) (arguments : FillArguments υ) :
    Option (FillRun υ × Int) :=
  if streams.length = 0 then some (⟨streams, sid, arguments.work, 0, []⟩, 0)
  else
    let sid0 := wrapCursor streams.length sid
    (FillRun.loop arguments.nfm sid0 arguments.around streams.length
      ⟨streams, sid0, arguments.work, 0, []⟩).map fun run => (run, intOfUint32 run.nfc)

@[simp] theorem length_arrive (arrivals : Nat → List (Option υ))
    (streams : List (StreamQueue υ)) : (arrive arrivals streams).length = streams.length :=
  List.length_mapIdx

/-- The paths of the streams, which no call changes. -/
def pathsOf (streams : List (StreamQueue υ)) : List (List Nat) :=
  streams.map StreamQueue.conversionPaths

/-- The packets that the entries of the queues are worth. -/
def worth (streams : List (StreamQueue υ)) : Nat :=
  (streams.map fun stream =>
    stream.conversionPaths.length * stream.outputQueue.reduceOption.length).sum

/-- The packets that new entries are worth. -/
def arrivalsWorth (paths : List (List Nat)) (arrivals : Nat → List (Option υ)) : Nat :=
  (paths.mapIdx fun index conversionPaths =>
    conversionPaths.length * (arrivals index).reduceOption.length).sum

theorem pathsOf_arrive (arrivals : Nat → List (Option υ)) (streams : List (StreamQueue υ)) :
    pathsOf (arrive arrivals streams) = pathsOf streams := by
  induction streams generalizing arrivals with
  | nil => rfl
  | cons stream rest ih =>
      have htail := ih fun index => arrivals (index + 1)
      simp only [pathsOf, arrive, List.mapIdx_cons, List.map_cons] at htail ⊢
      rw [htail]

theorem worth_arrive (arrivals : Nat → List (Option υ)) (streams : List (StreamQueue υ)) :
    worth (arrive arrivals streams) = worth streams + arrivalsWorth (pathsOf streams) arrivals := by
  induction streams generalizing arrivals with
  | nil => rfl
  | cons stream rest ih =>
      have htail := ih fun index => arrivals (index + 1)
      simp only [worth, arrivalsWorth, pathsOf, arrive, List.mapIdx_cons, List.map_cons,
        List.sum_cons, List.reduceOption_append, List.length_append, Nat.mul_add] at htail ⊢
      rw [htail]
      omega

/-- Taking entries out of one queue. -/
theorem worth_set {streams : List (StreamQueue υ)} {sid : Nat} {stream drained : StreamQueue υ}
    {taken : List (Option υ)} (hstream : streams[sid]? = some stream)
    (hpaths : drained.conversionPaths = stream.conversionPaths)
    (hqueue : stream.outputQueue = taken ++ drained.outputQueue) :
    worth (streams.set sid drained) +
        stream.conversionPaths.length * taken.reduceOption.length = worth streams ∧
      pathsOf (streams.set sid drained) = pathsOf streams := by
  induction streams generalizing sid with
  | nil => cases hstream
  | cons first rest ih =>
      cases sid with
      | zero =>
          cases hstream
          simp only [List.set_cons_zero, worth, pathsOf, List.map_cons, List.sum_cons, hpaths,
            hqueue, List.reduceOption_append, List.length_append, Nat.mul_add]
          exact ⟨by omega, trivial⟩
      | succ sid =>
          obtain ⟨hworth, hpathsOf⟩ := ih hstream
          simp only [worth, pathsOf] at hworth hpathsOf
          simp only [List.set_cons_succ, worth, pathsOf, List.map_cons, List.sum_cons, hpathsOf]
          exact ⟨by omega, trivial⟩

theorem length_pathsOf (streams : List (StreamQueue υ)) :
    (pathsOf streams).length = streams.length :=
  List.length_map _

/-- One visit: the difference it passes on does not wrap, and it adds no more
than what it has left of `nfm` and than what was waiting. -/
theorem FillRun.visit_eq_some {nfm : Nat} {around : Surroundings υ} {run next : FillRun υ}
    (hnfm : nfm < 2 ^ 32) (hle : run.nfc ≤ nfm) (hvisit : run.visit nfm around = some next) :
    ∃ n1, next.sid = wrapCursor run.streams.length (run.sid + 1) ∧
      next.visits = run.visits ++ [⟨run.sid, run.nfc, n1⟩] ∧
      next.nfc = run.nfc + n1 ∧ next.nfc ≤ nfm ∧
      next.work.queue.length = run.work.queue.length + n1 ∧
      pathsOf next.streams = pathsOf run.streams ∧
      worth next.streams + n1 ≤
        worth run.streams + arrivalsWorth (pathsOf run.streams) around.arrivals := by
  unfold FillRun.visit at hvisit
  simp only at hvisit
  split at hvisit
  · cases hvisit
  · rename_i stream hstream
    obtain ⟨filled, hfilled, rfl⟩ := Option.map_eq_some_iff.mp hvisit
    have hmax : uint32Sub nfm run.nfc = nfm - run.nfc := uint32Sub_of_le hnfm hle
    obtain ⟨hlength, hbound, hpaths, taken, htaken, hworth⟩ :=
      fillConversionQueue_counts (uint32Sub_lt _ _) hfilled
    obtain ⟨hset, hsetPaths⟩ := worth_set hstream hpaths htaken
    rw [hmax] at hbound
    have hadd : uint32Add run.nfc filled.numQueued = run.nfc + filled.numQueued :=
      uint32Add_of_lt (by omega)
    refine ⟨filled.numQueued, ?_, rfl, hadd, ?_, hlength, ?_, ?_⟩
    · rw [length_arrive]
    · simp only [hadd]
      omega
    · exact hsetPaths.trans (pathsOf_arrive _ _)
    · rw [← worth_arrive]
      simp only
      omega

theorem wrapCursor_lt {size : Nat} (hsize : 0 < size) (sid : Nat) : wrapCursor size sid < size := by
  unfold wrapCursor
  split <;> omega

/-- The cursor goes around. -/
theorem wrapCursor_mod {size : Nat} (hsize : 0 < size) (sid0 visits : Nat) :
    wrapCursor size ((sid0 + visits) % size + 1) = (sid0 + (visits + 1)) % size := by
  have hlt := Nat.mod_lt (sid0 + visits) hsize
  have hmod : (sid0 + (visits + 1)) % size = ((sid0 + visits) % size + 1) % size := by
    rw [Nat.mod_add_mod, Nat.add_assoc]
  rw [hmod]
  unfold wrapCursor
  split
  · rw [show (sid0 + visits) % size + 1 = size by omega, Nat.mod_self]
  · exact (Nat.mod_eq_of_lt (by omega)).symm

/-- It is back where it started after a whole round and not before. -/
theorem add_mod_eq_self_iff {size sid0 visits : Nat} (hsid : sid0 < size) (hpos : 0 < visits)
    (hle : visits ≤ size) : (sid0 + visits) % size = sid0 ↔ visits = size := by
  constructor
  · intro hback
    by_contra hne
    by_cases hwrap : sid0 + visits < size
    · rw [Nat.mod_eq_of_lt hwrap] at hback
      omega
    · rw [Nat.mod_eq_sub_mod (by omega), Nat.mod_eq_of_lt (by omega)] at hback
      omega
  · rintro rfl
    rw [Nat.add_mod_right, Nat.mod_eq_of_lt hsid]

/-- The packets that the entries of the visits still to come are worth. -/
def pendingWorth (paths : List (List Nat)) (around : Nat → Surroundings υ) (visits : Nat) : Nat :=
  ((List.range' visits (paths.length - visits)).map fun visit =>
    arrivalsWorth paths (around visit).arrivals).sum

theorem pendingWorth_of_lt {paths : List (List Nat)} (around : Nat → Surroundings υ)
    {visits : Nat} (hlt : visits < paths.length) :
    pendingWorth paths around visits =
      arrivalsWorth paths (around visits).arrivals + pendingWorth paths around (visits + 1) := by
  unfold pendingWorth
  rw [show paths.length - visits = (paths.length - (visits + 1)) + 1 by omega,
    List.range'_succ, List.map_cons, List.sum_cons]

/-- The state of a call after some of its visits: `queued` packets were in the
worker's queue before the call, `total` is what all entries are worth. -/
structure InRound (paths : List (List Nat)) (around : Nat → Surroundings υ)
    (nfm sid0 queued total : Nat) (run : FillRun υ) : Prop where
  paths_eq : pathsOf run.streams = paths
  sid : run.sid = (sid0 + run.visits.length) % paths.length
  order : run.visits.map Visit.sid =
    (List.range run.visits.length).map fun visit => (sid0 + visit) % paths.length
  visits_le : run.visits.length ≤ paths.length
  nfc_le : run.nfc ≤ nfm
  noWrap : ∀ visit ∈ run.visits, visit.nfc ≤ nfm
  queue : run.work.queue.length = queued + run.nfc
  worth_le : run.nfc + worth run.streams + pendingWorth paths around run.visits.length ≤ total

section Round

variable {paths : List (List Nat)} {around : Nat → Surroundings υ}
  {nfm sid0 queued total : Nat} {run next : FillRun υ}

/-- The step of the loop. -/
theorem InRound.visit (hround : InRound paths around nfm sid0 queued total run)
    (hnfm : nfm < 2 ^ 32) (hlt : run.visits.length < paths.length)
    (hvisit : run.visit nfm (around run.visits.length) = some next) :
    InRound paths around nfm sid0 queued total next ∧
      next.visits.length = run.visits.length + 1 := by
  obtain ⟨n1, hsid, hvisits, hnfc, hbound, hqueue, hpaths, hworth⟩ :=
    FillRun.visit_eq_some hnfm hround.nfc_le hvisit
  have hlength : next.visits.length = run.visits.length + 1 := by
    rw [hvisits, List.length_append, List.length_singleton]
  refine ⟨⟨hpaths.trans hround.paths_eq, ?_, ?_, ?_, hbound, ?_, ?_, ?_⟩, hlength⟩
  · rw [hsid, hround.sid, hlength, ← length_pathsOf, hround.paths_eq]
    exact wrapCursor_mod (by omega) _ _
  · rw [hlength, hvisits, List.range_succ, List.map_append, List.map_append, hround.order]
    congr 1
    simp only [List.map_cons, List.map_nil, hround.sid]
  · omega
  · intro visit hmem
    rw [hvisits] at hmem
    rcases List.mem_append.mp hmem with hold | hnew
    · exact hround.noWrap visit hold
    · rw [List.mem_singleton.mp hnew]
      exact hround.nfc_le
  · rw [hqueue, hround.queue, hnfc]
    omega
  · have hbefore := hround.worth_le
    rw [pendingWorth_of_lt around hlt] at hbefore
    rw [hround.paths_eq] at hworth
    rw [hlength, hnfc]
    omega

/-- The loop is left after a whole round, or when `nfm` packets are queued. -/
theorem InRound.loop {fuel : Nat} (hround : InRound paths around nfm sid0 queued total run)
    (hnfm : nfm < 2 ^ 32) (hsid0 : sid0 < paths.length) (hlt : run.visits.length < paths.length)
    (hloop : FillRun.loop nfm sid0 around fuel run = some next) :
    InRound paths around nfm sid0 queued total next ∧
      (next.visits.length = paths.length ∨ next.nfc = nfm) := by
  induction fuel generalizing run with
  | zero => cases hloop
  | succ fuel ih =>
      rw [FillRun.loop] at hloop
      split at hloop
      · obtain ⟨after, hvisit, hrest⟩ := Option.bind_eq_some_iff.mp hloop
        obtain ⟨hafter, hlength⟩ := hround.visit hnfm hlt hvisit
        have hback := add_mod_eq_self_iff hsid0 (by omega) hafter.visits_le
        split at hrest
        · rename_i hsid
          cases hrest
          exact ⟨hafter, Or.inl (hback.mp (hafter.sid.symm.trans hsid))⟩
        · rename_i hsid
          refine ih hafter (Nat.lt_of_le_of_ne hafter.visits_le ?_) hrest
          intro hall
          exact hsid (hafter.sid.trans (hback.mpr hall))
      · cases hloop
        exact ⟨hround, Or.inr (Nat.le_antisymm hround.nfc_le (by omega))⟩

/-- A visit is defined if its enqueues succeed. -/
theorem InRound.exists_visit {surroundings : Surroundings υ}
    (hround : InRound paths around nfm sid0 queued total run) (hpos : 0 < paths.length)
    (hsucceeds : surroundings.enqueue = fun _ => true) :
    ∃ after, run.visit nfm surroundings = some after := by
  have hlength : (arrive surroundings.arrivals run.streams).length = paths.length := by
    rw [length_arrive, ← length_pathsOf, hround.paths_eq]
  have hsid : run.sid < (arrive surroundings.arrivals run.streams).length := by
    rw [hlength, hround.sid]
    exact Nat.mod_lt _ hpos
  obtain ⟨filled, hfilled⟩ := fillConversionQueue_defined surroundings.sizeApprox
    ((arrive surroundings.arrivals run.streams).get ⟨run.sid, hsid⟩) run.work
    (uint32Sub_lt nfm run.nfc)
  rw [← Option.isSome_iff_exists]
  simp only [FillRun.visit, List.getElem?_eq_getElem hsid, hsucceeds, Option.isSome_map]
  exact Option.isSome_iff_exists.mpr ⟨filled, hfilled⟩

/-- The loop ends: one unit of fuel for each stream is enough. -/
theorem InRound.exists_loop {fuel : Nat}
    (hround : InRound paths around nfm sid0 queued total run) (hnfm : nfm < 2 ^ 32)
    (hsid0 : sid0 < paths.length) (hlt : run.visits.length < paths.length)
    (hfuel : paths.length ≤ run.visits.length + fuel)
    (hsucceeds : ∀ visit, (around visit).enqueue = fun _ => true) :
    ∃ done, FillRun.loop nfm sid0 around fuel run = some done := by
  induction fuel generalizing run with
  | zero => omega
  | succ fuel ih =>
      rw [FillRun.loop]
      split
      · obtain ⟨after, hvisit⟩ := hround.exists_visit (by omega) (hsucceeds run.visits.length)
        obtain ⟨hafter, hlength⟩ := hround.visit hnfm hlt hvisit
        have hback := add_mod_eq_self_iff hsid0 (by omega) hafter.visits_le
        rw [hvisit, Option.bind_some]
        split
        · exact ⟨after, rfl⟩
        · rename_i hsid
          refine ih hafter (Nat.lt_of_le_of_ne hafter.visits_le ?_) (by omega)
          intro hall
          exact hsid (hafter.sid.trans (hback.mpr hall))
      · exact ⟨run, rfl⟩

end Round

/-- What is remembered of a call: its visits, the packets it has added to the
worker's queue, and its return value. -/
structure FillRecord where
  nfm : Nat
  visits : List Visit
  added : Nat
  returned : Int

/-- The scheduler between two calls.  `start` and `calls` are history: the
cursor before the first call, and the calls so far. -/
structure Scheduler (υ : Type) where
  streams : List (StreamQueue υ)
  sid : Nat
  start : Nat
  calls : List FillRecord

/-- One more call, by whichever worker. -/
def Scheduler.call (scheduler : Scheduler υ) (arguments : FillArguments υ) :
    Option (Scheduler υ) :=
  (fill scheduler.streams scheduler.sid arguments).map fun result =>
    { scheduler with
      streams := result.1.streams
      sid := result.1.sid
      calls := scheduler.calls ++
        [{ nfm := arguments.nfm
           visits := result.1.visits
           added := result.1.work.queue.length - arguments.work.queue.length
           returned := result.2 }] }

/-- Any sequence of calls over any streams, from any cursor. -/
def schedulerSystem (υ : Type) : Transition.System (Scheduler υ) (FillArguments υ) where
  init scheduler := scheduler.streams ≠ [] ∧ scheduler.calls = [] ∧
    scheduler.start = wrapCursor scheduler.streams.length scheduler.sid
  step := Scheduler.call

/-- The packets that everything is worth that waits when a call begins or comes
in before one of its visits. -/
def waitingWorth (streams : List (StreamQueue υ)) (arguments : FillArguments υ) : Nat :=
  worth streams + pendingWorth (pathsOf streams) arguments.around 0

theorem inRound_begin {streams : List (StreamQueue υ)} (hstreams : 0 < streams.length) (sid : Nat)
    (arguments : FillArguments υ) :
    InRound (pathsOf streams) arguments.around arguments.nfm (wrapCursor streams.length sid)
      arguments.work.queue.length (waitingWorth streams arguments)
      ⟨streams, wrapCursor streams.length sid, arguments.work, 0, []⟩ := by
  refine ⟨rfl, ?_, rfl, Nat.zero_le _, Nat.zero_le _, by simp, rfl, ?_⟩
  · rw [length_pathsOf]
    exact (Nat.mod_eq_of_lt (wrapCursor_lt hstreams sid)).symm
  · rw [Nat.zero_add]
    exact Nat.le_refl _

/-- Every call returns. -/
theorem fill_returns (streams : List (StreamQueue υ)) (sid : Nat) (arguments : FillArguments υ)
    (hsucceeds : ∀ visit, (arguments.around visit).enqueue = fun _ => true) :
    ∃ result, fill streams sid arguments = some result := by
  unfold fill
  split
  · exact ⟨_, rfl⟩
  · rename_i hlength
    have hpos : 0 < streams.length := Nat.pos_of_ne_zero hlength
    have hsize := length_pathsOf streams
    obtain ⟨done, hdone⟩ := (inRound_begin hpos sid arguments).exists_loop arguments.nfm_lt
      (hsize ▸ wrapCursor_lt hpos sid) (hsize ▸ hpos)
      (Nat.le_trans (Nat.le_of_eq hsize) (Nat.le_add_left _ _)) hsucceeds
    exact ⟨_, Option.map_eq_some_iff.mpr ⟨done, hdone, rfl⟩⟩

/-- A call of a scheduler with streams, as one record. -/
theorem fill_eq_some {streams : List (StreamQueue υ)} {sid : Nat} {arguments : FillArguments υ}
    {result : FillRun υ × Int} (hstreams : streams ≠ [])
    (hfill : fill streams sid arguments = some result) :
    InRound (pathsOf streams) arguments.around arguments.nfm (wrapCursor streams.length sid)
        arguments.work.queue.length (waitingWorth streams arguments) result.1 ∧
      (result.1.visits.length = streams.length ∨ result.1.nfc = arguments.nfm) ∧
      result.2 = intOfUint32 result.1.nfc := by
  have hlength : 0 < streams.length := List.length_pos_iff.mpr hstreams
  have hsid := wrapCursor_lt hlength sid
  unfold fill at hfill
  rw [if_neg (by omega)] at hfill
  obtain ⟨run, hloop, rfl⟩ := Option.map_eq_some_iff.mp hfill
  have hsize := length_pathsOf streams
  obtain ⟨hround, hexit⟩ := (inRound_begin hlength sid arguments).loop arguments.nfm_lt
    (hsize ▸ hsid) (hsize ▸ hlength) hloop
  exact ⟨hround, hsize ▸ hexit, by dsimp only⟩

/-- A call that keeps the order: no stream twice, all of them unless `nfm`
packets are queued, and a difference that never wraps. -/
structure FillRecord.Fair (size : Nat) (call : FillRecord) : Prop where
  once : (call.visits.map Visit.sid).Nodup
  complete : (∀ index < size, index ∈ call.visits.map Visit.sid) ∨ call.added = call.nfm
  noWrap : ∀ visit ∈ call.visits, visit.nfc ≤ call.nfm ∧
    uint32Sub call.nfm visit.nfc = call.nfm - visit.nfc
  added_le : call.added ≤ call.nfm

/-- A part of a round visits no stream twice. -/
theorem nodup_round (sid0 : Nat) {size visits : Nat} (hle : visits ≤ size) :
    ((List.range visits).map fun visit => (sid0 + visit) % size).Nodup := by
  refine List.Nodup.map_on ?_ List.nodup_range
  intro left hleft right hright heq
  have hmod : left ≡ right [MOD size] := Nat.ModEq.add_left_cancel' sid0 heq
  rw [List.mem_range] at hleft hright
  rw [Nat.ModEq, Nat.mod_eq_of_lt (by omega), Nat.mod_eq_of_lt (by omega)] at hmod
  exact hmod

/-- A whole round visits all of them. -/
theorem mem_round {sid0 size index : Nat} (hsid : sid0 < size) (hindex : index < size) :
    index ∈ (List.range size).map fun visit => (sid0 + visit) % size := by
  refine List.mem_map.mpr ⟨(index + (size - sid0)) % size, ?_, ?_⟩
  · exact List.mem_range.mpr (Nat.mod_lt _ (by omega))
  · rw [Nat.add_mod_mod, show sid0 + (index + (size - sid0)) = index + size by omega,
      Nat.add_mod_right, Nat.mod_eq_of_lt hindex]

namespace Scheduler

/-- All visits of all calls, in order. -/
def visits (scheduler : Scheduler υ) : List Visit :=
  scheduler.calls.flatMap FillRecord.visits

/-- The visits go round and every call is fair. -/
structure InTurn (scheduler : Scheduler υ) : Prop where
  order : scheduler.visits.map Visit.sid = (List.range scheduler.visits.length).map fun visit =>
    (scheduler.start + visit) % scheduler.streams.length
  fair : ∀ call ∈ scheduler.calls, call.Fair scheduler.streams.length

/-- What carries the order from one call to the next. -/
structure Turning (scheduler : Scheduler υ) : Prop extends InTurn scheduler where
  nonempty : scheduler.streams ≠ []
  cursor : wrapCursor scheduler.streams.length scheduler.sid =
    (scheduler.start + scheduler.visits.length) % scheduler.streams.length

/-- The condition under which a call returns what it has added. -/
def FewPackets (scheduler : Scheduler υ) (arguments : FillArguments υ) : Prop :=
  arguments.nfm < 2 ^ 31 ∨ waitingWorth scheduler.streams arguments < 2 ^ 31

/-- The return values of all calls are right. -/
def ReturnsAdded (scheduler : Scheduler υ) : Prop :=
  ∀ call ∈ scheduler.calls, call.returned = call.added

variable {scheduler next : Scheduler υ} {arguments : FillArguments υ}

/-- A call in terms of what it did. -/
theorem call_eq_some (hnonempty : scheduler.streams ≠ [])
    (hcall : scheduler.call arguments = some next) :
    ∃ run, InRound (pathsOf scheduler.streams) arguments.around arguments.nfm
        (wrapCursor scheduler.streams.length scheduler.sid) arguments.work.queue.length
        (waitingWorth scheduler.streams arguments) run ∧
      (run.visits.length = scheduler.streams.length ∨ run.nfc = arguments.nfm) ∧
      next = { scheduler with
        streams := run.streams
        sid := run.sid
        calls := scheduler.calls ++
          [⟨arguments.nfm, run.visits, run.nfc, intOfUint32 run.nfc⟩] } := by
  obtain ⟨result, hfill, rfl⟩ := Option.map_eq_some_iff.mp hcall
  obtain ⟨hround, hexit, hreturned⟩ := fill_eq_some hnonempty hfill
  refine ⟨result.1, hround, hexit, ?_⟩
  rw [hround.queue, Nat.add_sub_cancel_left, hreturned]

theorem call_length {run : FillRun υ} {nfm sid0 queued total : Nat}
    (hround : InRound (pathsOf scheduler.streams) arguments.around nfm sid0 queued total run) :
    run.streams.length = scheduler.streams.length := by
  rw [← length_pathsOf, hround.paths_eq, length_pathsOf]

/-- Every call is fair. -/
theorem fair_of_inRound {run : FillRun υ} {sid0 queued total : Nat}
    (hround : InRound (pathsOf scheduler.streams) arguments.around arguments.nfm sid0 queued total
      run) (hsid : sid0 < scheduler.streams.length)
    (hexit : run.visits.length = scheduler.streams.length ∨ run.nfc = arguments.nfm)
    (returned : Int) :
    FillRecord.Fair scheduler.streams.length ⟨arguments.nfm, run.visits, run.nfc, returned⟩ := by
  have horder := hround.order
  have hle := hround.visits_le
  rw [length_pathsOf] at horder hle
  refine ⟨?_, ?_, ?_, hround.nfc_le⟩
  · simp only [horder]
    exact nodup_round sid0 hle
  · rcases hexit with hall | hfull
    · refine Or.inl fun index hindex => ?_
      simp only [horder, hall]
      exact mem_round hsid hindex
    · exact Or.inr hfull
  · intro visit hvisit
    have hnfc := hround.noWrap visit hvisit
    exact ⟨hnfc, uint32Sub_of_le arguments.nfm_lt hnfc⟩

/-- A call goes on where the one before it stopped. -/
theorem Turning.call (hturning : scheduler.Turning)
    (hcall : scheduler.call arguments = some next) : next.Turning := by
  obtain ⟨run, hround, hexit, rfl⟩ := call_eq_some hturning.nonempty hcall
  have hlength := call_length hround
  have hpos : 0 < scheduler.streams.length := List.length_pos_iff.mpr hturning.nonempty
  have hsid0 := wrapCursor_lt hpos scheduler.sid
  have hsid := hround.sid
  have horder := hround.order
  rw [length_pathsOf] at hsid horder
  have hvisits : Scheduler.visits
      { scheduler with
        streams := run.streams
        sid := run.sid
        calls := scheduler.calls ++
          [⟨arguments.nfm, run.visits, run.nfc, intOfUint32 run.nfc⟩] } =
      scheduler.visits ++ run.visits := by
    simp [Scheduler.visits]
  refine ⟨⟨?_, ?_⟩, ?_, ?_⟩
  · rw [hvisits, List.map_append, hturning.order, horder, List.length_append, List.range_add,
      List.map_append, List.map_map, hlength, hturning.cursor]
    congr 1
    apply List.map_congr_left
    intro visit _
    simp only [Function.comp_apply, Nat.mod_add_mod, Nat.add_assoc]
  · intro call hmem
    rw [hlength]
    rcases List.mem_append.mp hmem with hold | hnew
    · exact hturning.fair call hold
    · rw [List.mem_singleton.mp hnew]
      exact fair_of_inRound hround hsid0 hexit _
  · exact List.length_pos_iff.mp (hlength ▸ hpos)
  · rw [hvisits, hlength, List.length_append]
    simp only
    rw [hsid, hturning.cursor, Nat.mod_add_mod, ← Nat.add_assoc]
    exact if_neg (Nat.not_le.mpr (Nat.mod_lt _ hpos))

theorem Turning.init (hinit : (schedulerSystem υ).init scheduler) : scheduler.Turning := by
  obtain ⟨hnonempty, hcalls, hstart⟩ := hinit
  have hvisits : scheduler.visits = [] := by
    rw [Scheduler.visits, hcalls]
    rfl
  have hpos : 0 < scheduler.streams.length := List.length_pos_iff.mpr hnonempty
  refine ⟨⟨by simp [hvisits], by simp [hcalls]⟩, hnonempty, ?_⟩
  rw [hvisits, hstart]
  exact (Nat.mod_eq_of_lt (wrapCursor_lt hpos _)).symm

/-- Every run keeps the order, whatever its calls return. -/
theorem reachable_turning (hreach : (schedulerSystem υ).Reachable scheduler) :
    scheduler.Turning := by
  refine hreach.invariant (fun _ hinit => Turning.init hinit) ?_
  intro state arguments next _ hturning hstep
  exact hturning.call hstep

theorem intOfUint32_of_lt {value : Nat} (hlt : value < 2 ^ 31) : intOfUint32 value = value := by
  unfold intOfUint32
  rw [Int.bmod_eq_of_le] <;> omega

theorem intOfUint32_eq_iff {value : Nat} (hvalue : value < 2 ^ 32) :
    intOfUint32 value = value ↔ value < 2 ^ 31 := by
  constructor
  · intro heq
    have hlt : Int.bmod value (2 ^ 32) < _ := Int.bmod_lt (by decide)
    unfold intOfUint32 at heq
    omega
  · exact intOfUint32_of_lt

/-- Fewer than 2^31 packets are added if the condition holds. -/
theorem FewPackets.nfc_lt {run : FillRun υ} {sid0 queued : Nat}
    (hfew : scheduler.FewPackets arguments)
    (hround : InRound (pathsOf scheduler.streams) arguments.around arguments.nfm sid0 queued
      (waitingWorth scheduler.streams arguments) run) : run.nfc < 2 ^ 31 := by
  have hnfm := hround.nfc_le
  have hworth := hround.worth_le
  rcases hfew with hsmall | hwaiting <;> omega

theorem reachesVia_returnsAdded
    (hreach : (schedulerSystem υ).ReachesVia FewPackets scheduler) :
    scheduler.ReturnsAdded := by
  refine hreach.invariant ?_ ?_
  · intro state hinit
    simp [ReturnsAdded, hinit.2.1]
  · intro state arguments next hbefore hreturns hfew hstep
    obtain ⟨run, hround, -, rfl⟩ := call_eq_some (reachable_turning hbefore).nonempty hstep
    intro call hmem
    rcases List.mem_append.mp hmem with hold | hnew
    · exact hreturns call hold
    · rw [List.mem_singleton.mp hnew]
      dsimp only
      exact intOfUint32_of_lt (hfew.nfc_lt hround)

/-- In every run whose calls meet the condition the streams take turns, every
call is fair and returns what it has added; and every call returns unless an
enqueue fails. -/
theorem streams_take_turns (scheduler : Scheduler υ)
    (hreach : (schedulerSystem υ).ReachesVia FewPackets scheduler) :
    scheduler.InTurn ∧ scheduler.ReturnsAdded ∧
      ∀ arguments : FillArguments υ,
        (∀ visit, (arguments.around visit).enqueue = fun _ => true) →
          ∃ next, scheduler.call arguments = some next := by
  refine ⟨(reachable_turning hreach.reachable).toInTurn, reachesVia_returnsAdded hreach, ?_⟩
  intro arguments hsucceeds
  obtain ⟨result, hfill⟩ := fill_returns scheduler.streams scheduler.sid arguments hsucceeds
  exact ⟨_, Option.map_eq_some_iff.mpr ⟨result, hfill, rfl⟩⟩

/-- Nothing comes in during a call, and every enqueue succeeds. -/
def quiet (sizeApprox : Nat) : Surroundings υ :=
  ⟨fun _ => [], sizeApprox, fun _ => true⟩

/-- Two streams of one update each, before the first call. -/
def twoStreams : Scheduler String where
  streams := [⟨0, [1], [some "a"], by decide⟩, ⟨1, [2, 3], [some "b"], by decide⟩]
  sid := 1
  start := 1
  calls := []

theorem twoStreams_take_turns :
    ∃ scheduler : Scheduler String, scheduler.calls.length = 1 ∧ scheduler.InTurn ∧
      scheduler.ReturnsAdded := by
  have hinit : (schedulerSystem String).ReachesVia FewPackets twoStreams :=
    .init ⟨by simp [twoStreams], rfl, rfl⟩
  let arguments : FillArguments String :=
    ⟨5, emptyWork, fun _ => quiet 1, by decide, by decide⟩
  obtain ⟨next, hcall⟩ := (streams_take_turns twoStreams hinit).2.2 arguments fun _ => rfl
  have hnext : (schedulerSystem String).ReachesVia FewPackets next :=
    .step hinit (Or.inl (by decide)) hcall
  obtain ⟨hturn, hreturns, -⟩ := streams_take_turns next hnext
  obtain ⟨result, -, rfl⟩ := Option.map_eq_some_iff.mp hcall
  exact ⟨_, rfl, hturn, hreturns⟩

/-- One stream with one path on which `count` updates wait. -/
def manyUpdates (count : Nat) : StreamQueue Unit where
  address := 0
  conversionPaths := [0]
  outputQueue := List.replicate count (some ())
  distinct := by decide

def noWork : WorkQueue Unit :=
  ⟨[], 0, fun _ => 0, by simp⟩

theorem reduceOption_replicate (count : Nat) :
    (List.replicate count (some ())).reduceOption = List.replicate count () := by
  induction count with
  | zero => rfl
  | succ count ih => rw [List.replicate_succ, List.reduceOption_cons_of_some, ih,
      List.replicate_succ]

/-- All of them are queued if there is room. -/
theorem manyUpdates_filled {count : Nat} (hcount : count < 2 ^ 32) :
    ∃ filled, fillConversionQueue (fun _ => true) count count (manyUpdates count) noWork =
      some filled ∧ filled.numQueued = count := by
  obtain ⟨-, filled, taken, appended, hfilled, hspec⟩ :=
    fillConversionQueue_spec count count (manyUpdates count) noWork hcount hcount
  have hlength : (manyUpdates count).outputQueue.length = count := List.length_replicate
  have hfits : Fits 1 count count (manyUpdates count).outputQueue count := by
    refine ⟨Nat.le_of_eq hlength.symm, Nat.le_refl _, ?_⟩
    intro earlier hearlier
    have hreduce := List.reduceOption_length_le ((manyUpdates count).outputQueue.take earlier)
    have htake := List.length_take_le earlier (manyUpdates count).outputQueue
    omega
  have hge : count ≤ taken := hspec.longest.2 hfits
  refine ⟨filled, hfilled, ?_⟩
  rw [hspec.returned, List.take_of_length_le (Nat.le_trans (Nat.le_of_eq hlength) hge)]
  simp only [manyUpdates, reduceOption_replicate, List.length_singleton, List.length_replicate,
    Nat.one_mul]

/-- A call over these updates with room for all of them. -/
def manyArguments (count : Nat) (hpos : 0 < count) (hcount : count < 2 ^ 32) :
    FillArguments Unit :=
  ⟨count, noWork, fun _ => quiet count, hpos, hcount⟩

/-- The only visit of such a call queues everything. -/
theorem manyUpdates_fill {count : Nat} (hpos : 0 < count) (hcount : count < 2 ^ 32) :
    ∃ run, fill [manyUpdates count] 0 (manyArguments count hpos hcount) =
      some (run, intOfUint32 count) ∧ run.work.queue.length = count := by
  obtain ⟨filled, hfilled, hqueued⟩ := manyUpdates_filled hcount
  obtain ⟨hlength, -⟩ := fillConversionQueue_counts hcount hfilled
  have hmax : uint32Sub count 0 = count := by
    rw [uint32Sub_of_le hcount (Nat.zero_le _), Nat.sub_zero]
  have hnfc : uint32Add 0 count = count := by
    rw [uint32Add_of_lt (by omega), Nat.zero_add]
  have harrive : arrive (fun _ => []) [manyUpdates count] = [manyUpdates count] := by
    simp [arrive]
  have hvisit : FillRun.visit count (quiet count) ⟨[manyUpdates count], 0, noWork, 0, []⟩ =
      some ⟨[filled.stream], 0, filled.work, count, [⟨0, 0, count⟩]⟩ := by
    simp only [FillRun.visit, quiet, harrive, hmax, List.getElem?_cons_zero, hfilled,
      Option.map_some, hqueued, hnfc]
    rfl
  refine ⟨⟨[filled.stream], 0, filled.work, count, [⟨0, 0, count⟩]⟩, ?_, ?_⟩
  · have hloop : FillRun.loop count 0 (fun _ => quiet count) 1
        ⟨[manyUpdates count], 0, noWork, 0, []⟩ =
        some ⟨[filled.stream], 0, filled.work, count, [⟨0, 0, count⟩]⟩ := by
      rw [FillRun.loop, if_pos hpos, hvisit]
      rfl
    exact Option.map_eq_some_iff.mpr ⟨_, hloop, rfl⟩
  · rw [hlength, hqueued]
    exact Nat.zero_add _

/-- 2^31 packets are added and the number returned is negative. -/
theorem manyUpdates_negative :
    ¬ ∀ scheduler : Scheduler Unit, (schedulerSystem Unit).Reachable scheduler →
      scheduler.InTurn ∧ scheduler.ReturnsAdded := by
  intro hall
  have hpos : 0 < 2 ^ 31 := by decide
  have hcount : 2 ^ 31 < 2 ^ 32 := by decide
  generalize hN : 2 ^ 31 = count at hpos hcount
  obtain ⟨run, hfill, hadded⟩ := manyUpdates_fill hpos hcount
  have hinit : (schedulerSystem Unit).Reachable ⟨[manyUpdates count], 0, 0, []⟩ :=
    .init ⟨by simp, rfl, rfl⟩
  have hcall : Scheduler.call ⟨[manyUpdates count], 0, 0, []⟩ (manyArguments count hpos hcount) =
      some ⟨run.streams, run.sid, 0,
        [⟨count, run.visits, run.work.queue.length, intOfUint32 count⟩]⟩ := by
    simp only [Scheduler.call, hfill, Option.map_some, List.nil_append]
    simp only [manyArguments, noWork, List.length_nil, Nat.sub_zero]
  have hreturns := (hall _ (hinit.next hcall)).2 _ List.mem_cons_self
  dsimp only at hreturns
  rw [hadded, intOfUint32_eq_iff hcount] at hreturns
  omega

end Scheduler

end EpicsToKafka
