/-
What one call of `ConversionScheduler::fill` takes when there is room for all
of it.  Entries go on coming in between the visits; a stream keeps only what
came after its own visit, and the worker is given a packet for every update and
path, stream after stream.
-/
import EpicsToKafka.RoundRobin

namespace EpicsToKafka

variable {υ : Type}

/-- What a packet asks for, an update on a path. -/
def jobOf (packet : ConversionWorkPacket υ) : υ × Nat :=
  (packet.update, packet.path)

/-- The jobs for the entries of a queue. -/
def jobsFor (paths : List Nat) (entries : List (Option υ)) : List (υ × Nat) :=
  entries.reduceOption.flatMap fun update => paths.map fun path => (update, path)

theorem tagLast_map_jobOf (self : Nat) (cwpLast : List (Option Nat))
    (queue : List (ConversionWorkPacket υ)) :
    (tagLast self cwpLast queue).map jobOf = queue.map jobOf := by
  rw [tagLast, List.map_map]
  apply List.map_congr_left
  intro packet _
  by_cases hlast : some packet.address ∈ cwpLast
  · simp [hlast, jobOf]
  · simp [hlast]

/-- With room for everything and a size that is not too small, a visit takes
the whole queue. -/
theorem fillConversionQueue_takes_all {sizeApprox max : Nat} {stream : StreamQueue υ}
    {work : WorkQueue υ} {filled : Filled υ} (hmax : max < 2 ^ 32)
    (hannounced : stream.outputQueue.length ≤ sizeApprox) (hsize : sizeApprox < 2 ^ 32)
    (hroom : stream.conversionPaths.length * stream.outputQueue.reduceOption.length +
      stream.conversionPaths.length ≤ max)
    (hfilled : fillConversionQueue (fun _ => true) sizeApprox max stream work = some filled) :
    filled.stream = { stream with outputQueue := [] } ∧
      filled.work.queue.map jobOf = work.queue.map jobOf ++
        jobsFor stream.conversionPaths stream.outputQueue := by
  obtain ⟨hstream, -, hqueue, -⟩ := fillConversionQueue_eq_some hfilled
  have hreaches := fillLoop_reaches (fun _ => true) stream.conversionPaths max
    (enterFill sizeApprox stream work)
  have hstops := fillLoop_stops (fun _ => true) stream.conversionPaths max
    (enterFill sizeApprox stream work)
  generalize fillLoop (fun _ => true) stream.conversionPaths max
    (enterFill sizeApprox stream work) = final at hstream hqueue hreaches hstops
  have hstart : Progress stream.conversionPaths max (enterFill sizeApprox stream work)
      (enterFill sizeApprox stream work) 0 :=
    ⟨enterFill_wellFormed sizeApprox stream work hmax, ⟨Nat.zero_le _, Nat.zero_le _, by simp⟩,
      rfl, rfl, rfl, rfl, (List.append_nil _).symm, rfl, rfl⟩
  obtain ⟨count, hprogress⟩ := hreaches.progress hstart hsize
  have hall : Fits stream.conversionPaths.length max sizeApprox stream.outputQueue
      stream.outputQueue.length := by
    refine ⟨Nat.le_refl _, hannounced, fun earlier _ => ?_⟩
    have hle : (stream.outputQueue.take earlier).reduceOption.length ≤
        stream.outputQueue.reduceOption.length :=
      ((List.take_sublist earlier stream.outputQueue).filterMap id).length_le
    have hmul := Nat.mul_le_mul_left stream.conversionPaths.length hle
    omega
  have hcount : count = stream.outputQueue.length :=
    Nat.le_antisymm hprogress.fits.available ((hprogress.isGreatest hstops).2 hall)
  have htake : (enterFill sizeApprox stream work).outputQueue.take count = stream.outputQueue :=
    List.take_of_length_le (Nat.le_of_eq hcount.symm)
  constructor
  · rw [hstream, hprogress.outputQueue, hcount]
    exact congrArg (fun rest => { stream with outputQueue := rest }) List.drop_length
  · have hjobs : final.queue.map jobOf = work.queue.map jobOf ++
        jobsFor stream.conversionPaths stream.outputQueue := by
      rw [hprogress.queue, htake, List.map_append]
      exact congrArg _ (packetRows_map _ _ _)
    rw [hqueue]
    split
    · rw [tagLast_map_jobOf, hjobs]
    · exact hjobs

/-- The index that a visit of a round goes to. -/
def turn (size sid0 visit : Nat) : Nat :=
  (sid0 + visit) % size

theorem turn_injective {size sid0 visit other : Nat} (hvisit : visit < size)
    (hother : other < size) (hsame : turn size sid0 visit = turn size sid0 other) :
    visit = other := by
  have hmod : visit ≡ other [MOD size] := Nat.ModEq.add_left_cancel' sid0 hsame
  rwa [Nat.ModEq, Nat.mod_eq_of_lt hvisit, Nat.mod_eq_of_lt hother] at hmod

/-- What comes in at a stream before the visits from `first` on and before
`last`. -/
def arrived (around : Nat → Surroundings υ) (first last index : Nat) : List (Option υ) :=
  (List.range' first (last - first)).flatMap fun visit => (around visit).arrivals index

theorem arrived_succ (around : Nat → Surroundings υ) {first last : Nat} (hle : first ≤ last)
    (index : Nat) :
    arrived around first (last + 1) index =
      arrived around first last index ++ (around last).arrivals index := by
  unfold arrived
  rw [show last + 1 - first = last - first + 1 by omega, List.range'_concat,
    List.flatMap_append, Nat.one_mul, Nat.add_sub_cancel' hle, List.flatMap_singleton]

theorem arrived_self (around : Nat → Surroundings υ) (visit index : Nat) :
    arrived around visit visit index = [] := by
  simp [arrived]

def queueAt (streams : List (StreamQueue υ)) (index : Nat) : List (Option υ) :=
  (streams.map StreamQueue.outputQueue).getD index []

def pathsAt (streams : List (StreamQueue υ)) (index : Nat) : List Nat :=
  (pathsOf streams).getD index []

theorem queueAt_of_getElem? {streams : List (StreamQueue υ)} {index : Nat}
    {stream : StreamQueue υ} (hstream : streams[index]? = some stream) :
    queueAt streams index = stream.outputQueue := by
  simp [queueAt, hstream]

theorem pathsAt_of_getElem? {streams : List (StreamQueue υ)} {index : Nat}
    {stream : StreamQueue υ} (hstream : streams[index]? = some stream) :
    pathsAt streams index = stream.conversionPaths := by
  simp [pathsAt, pathsOf, hstream]

theorem queueAt_arrive (arrivals : Nat → List (Option υ)) {streams : List (StreamQueue υ)}
    {index : Nat} (hindex : index < streams.length) :
    queueAt (arrive arrivals streams) index = queueAt streams index ++ arrivals index := by
  have hbefore := List.getElem?_eq_getElem hindex
  have hafter : (arrive arrivals streams)[index]? =
      some { streams[index] with outputQueue := streams[index].outputQueue ++ arrivals index } := by
    rw [arrive, List.getElem?_mapIdx, hbefore, Option.map_some]
  rw [queueAt_of_getElem? hbefore, queueAt_of_getElem? hafter]

theorem queueAt_set (streams : List (StreamQueue υ)) {sid : Nat} (stream : StreamQueue υ)
    (hsid : sid < streams.length) (index : Nat) :
    queueAt (streams.set sid stream) index =
      if sid = index then stream.outputQueue else queueAt streams index := by
  by_cases hindex : sid = index
  · subst hindex
    rw [if_pos rfl]
    exact queueAt_of_getElem? (List.getElem?_set_self hsid)
  · rw [if_neg hindex]
    simp [queueAt, List.getElem?_set_ne hindex]

/-- What waits at its stream when a visit comes. -/
def waitingAt (streams : List (StreamQueue υ)) (around : Nat → Surroundings υ)
    (sid0 visit : Nat) : List (Option υ) :=
  queueAt streams (turn streams.length sid0 visit) ++
    arrived around 0 (visit + 1) (turn streams.length sid0 visit)

/-- What a call has done after some of its visits. -/
structure Served (streams : List (StreamQueue υ)) (around : Nat → Surroundings υ) (sid0 : Nat)
    (work : WorkQueue υ) (run : FillRun υ) : Prop where
  visited : ∀ visit < run.visits.length,
    queueAt run.streams (turn streams.length sid0 visit) =
      arrived around (visit + 1) run.visits.length (turn streams.length sid0 visit)
  unvisited : ∀ visit, run.visits.length ≤ visit → visit < streams.length →
    queueAt run.streams (turn streams.length sid0 visit) =
      queueAt streams (turn streams.length sid0 visit) ++
        arrived around 0 run.visits.length (turn streams.length sid0 visit)
  jobs : run.work.queue.map jobOf = work.queue.map jobOf ++
    (List.range run.visits.length).flatMap fun visit =>
      jobsFor (pathsAt streams (turn streams.length sid0 visit))
        (waitingAt streams around sid0 visit)

section Round

variable {streams : List (StreamQueue υ)} {around : Nat → Surroundings υ}
  {nfm sid0 queued total : Nat} {work : WorkQueue υ} {run next : FillRun υ}

/-- There is room for what waits at the stream of a visit. -/
theorem InRound.room (hround : InRound (pathsOf streams) around nfm sid0 queued total run)
    (hnfm : nfm < 2 ^ 32) (hlt : run.visits.length < (pathsOf streams).length)
    {stream : StreamQueue υ}
    (hstream : (arrive (around run.visits.length).arrivals run.streams)[run.sid]? = some stream)
    (hroom : total + stream.conversionPaths.length < nfm) :
    stream.conversionPaths.length * stream.outputQueue.reduceOption.length +
      stream.conversionPaths.length ≤ uint32Sub nfm run.nfc := by
  have hworth := hround.worth_le
  have harrive := worth_arrive (around run.visits.length).arrivals run.streams
  rw [hround.paths_eq] at harrive
  rw [pendingWorth_of_lt around hlt] at hworth
  let drained : StreamQueue υ := { stream with outputQueue := [] }
  have hqueue : stream.outputQueue = stream.outputQueue ++ drained.outputQueue :=
    (List.append_nil _).symm
  have hset := (worth_set hstream (show drained.conversionPaths = _ from rfl) hqueue).1
  rw [uint32Sub_of_le hnfm hround.nfc_le]
  omega

theorem Served.visit (hserved : Served streams around sid0 work run)
    (hround : InRound (pathsOf streams) around nfm sid0 queued total run) (hnfm : nfm < 2 ^ 32)
    (hlt : run.visits.length < streams.length)
    (hsucceeds : (around run.visits.length).enqueue = fun _ => true)
    (hannounced : (waitingAt streams around sid0 run.visits.length).length ≤
      (around run.visits.length).sizeApprox)
    (hsize : (around run.visits.length).sizeApprox < 2 ^ 32)
    (hroom : ∀ stream ∈ streams, total + stream.conversionPaths.length < nfm)
    (hvisit : run.visit nfm (around run.visits.length) = some next) :
    Served streams around sid0 work next := by
  have hlength : run.streams.length = streams.length := by
    rw [← length_pathsOf, hround.paths_eq, length_pathsOf]
  have hsid : run.sid = turn streams.length sid0 run.visits.length := by
    rw [hround.sid, length_pathsOf]
    rfl
  have hturn : ∀ visit, turn streams.length sid0 visit < run.streams.length :=
    fun visit => hlength ▸ Nat.mod_lt _ (by omega)
  unfold FillRun.visit at hvisit
  simp only at hvisit
  split at hvisit
  · cases hvisit
  rename_i stream hstream
  obtain ⟨filled, hfilled, rfl⟩ := Option.map_eq_some_iff.mp hvisit
  have hpaths : stream.conversionPaths =
      pathsAt streams (turn streams.length sid0 run.visits.length) := by
    rw [← pathsAt_of_getElem? hstream, pathsAt, pathsOf_arrive, hround.paths_eq, hsid]
    rfl
  have hmember : ∃ old ∈ streams, old.conversionPaths = stream.conversionPaths := by
    have hmem : stream.conversionPaths ∈ pathsOf streams := by
      rw [← hround.paths_eq, ← pathsOf_arrive (around run.visits.length).arrivals]
      exact List.mem_map_of_mem (List.mem_of_getElem? hstream)
    exact List.mem_map.mp hmem
  obtain ⟨old, hold, hsame⟩ := hmember
  have hwaiting : stream.outputQueue = waitingAt streams around sid0 run.visits.length := by
    rw [← queueAt_of_getElem? hstream, hsid, queueAt_arrive _ (hturn _),
      hserved.unvisited _ (Nat.le_refl _) hlt, waitingAt, arrived_succ _ (Nat.zero_le _),
      List.append_assoc]
  rw [hsucceeds] at hfilled
  obtain ⟨hdrained, hjobs⟩ := fillConversionQueue_takes_all (uint32Sub_lt _ _)
    (by rw [hwaiting]; exact hannounced) hsize
    (hround.room hnfm (by rw [length_pathsOf]; exact hlt) hstream (hsame ▸ hroom old hold)) hfilled
  have hqueue : ∀ visit, visit < streams.length →
      queueAt ((arrive (around run.visits.length).arrivals run.streams).set run.sid filled.stream)
          (turn streams.length sid0 visit) =
        if run.visits.length = visit then []
        else queueAt run.streams (turn streams.length sid0 visit) ++
          (around run.visits.length).arrivals (turn streams.length sid0 visit) := by
    intro visit hvisit
    rw [queueAt_set _ _ (by rw [length_arrive, hsid]; exact hturn _), hdrained, hsid,
      queueAt_arrive _ (hturn _)]
    by_cases heq : run.visits.length = visit
    · rw [if_pos heq, if_pos (by rw [heq])]
    · rw [if_neg heq, if_neg fun hsame => heq (turn_injective hlt hvisit hsame)]
  refine ⟨?_, ?_, ?_⟩
  · intro visit hbefore
    rw [List.length_append, List.length_singleton] at hbefore ⊢
    rw [hqueue visit (by omega)]
    by_cases heq : run.visits.length = visit
    · rw [if_pos heq, heq, arrived_self]
    · rw [if_neg heq, hserved.visited visit (by omega), arrived_succ _ (by omega)]
  · intro visit hafter hvisit
    rw [List.length_append, List.length_singleton] at hafter ⊢
    rw [hqueue visit hvisit, if_neg (by omega), hserved.unvisited visit (by omega) hvisit,
      arrived_succ _ (Nat.zero_le _), List.append_assoc]
  · simp only [List.length_append, List.length_singleton]
    rw [hjobs, hserved.jobs, List.range_succ, List.flatMap_append, List.append_assoc, hpaths,
      hwaiting, List.flatMap_singleton]

/-- The loop makes a whole round. -/
theorem Served.loop {fuel : Nat} (hserved : Served streams around sid0 work run)
    (hround : InRound (pathsOf streams) around nfm sid0 queued total run) (hnfm : nfm < 2 ^ 32)
    (hsid0 : sid0 < streams.length) (hlt : run.visits.length < streams.length)
    (hsucceeds : ∀ visit, (around visit).enqueue = fun _ => true)
    (hsizes : ∀ visit < streams.length,
      (waitingAt streams around sid0 visit).length ≤ (around visit).sizeApprox ∧
        (around visit).sizeApprox < 2 ^ 32)
    (hroom : ∀ stream ∈ streams, total + stream.conversionPaths.length < nfm)
    (hloop : FillRun.loop nfm sid0 around fuel run = some next) :
    Served streams around sid0 work next ∧ next.visits.length = streams.length := by
  have hsize := length_pathsOf streams
  induction fuel generalizing run with
  | zero => cases hloop
  | succ fuel ih =>
      obtain ⟨hannounced, hfits⟩ := hsizes _ hlt
      have hnfc : run.nfc < nfm := by
        have hfirst := hroom _ (List.getElem_mem hsid0)
        have hworth := hround.worth_le
        omega
      rw [FillRun.loop, if_pos hnfc] at hloop
      obtain ⟨after, hvisit, hrest⟩ := Option.bind_eq_some_iff.mp hloop
      have hafter := hserved.visit hround hnfm hlt (hsucceeds _) hannounced hfits hroom hvisit
      obtain ⟨hnext, hlength⟩ := hround.visit hnfm (by rw [hsize]; exact hlt) hvisit
      have hback := add_mod_eq_self_iff (hsize ▸ hsid0) (by omega) hnext.visits_le
      split at hrest
      · rename_i hsid
        cases hrest
        exact ⟨hafter, hsize ▸ hback.mp (hnext.sid.symm.trans hsid)⟩
      · rename_i hsid
        refine ih hafter hnext (Nat.lt_of_le_of_ne (hsize ▸ hnext.visits_le) ?_) hrest
        intro hall
        exact hsid (hnext.sid.trans (hback.mpr (hall.trans hsize.symm)))

end Round

end EpicsToKafka
