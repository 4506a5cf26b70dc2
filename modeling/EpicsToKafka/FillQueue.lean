/-
`Stream::fillConversionQueue` as a whole: the loop around `fillIteration`, the
tags of the last packets and the transit counters.  A tag is written through a
raw pointer, so the function is undefined where that pointer is null or its
packet was destroyed after a failed enqueue.
-/
import EpicsToKafka.Stream
import Mathlib.Data.List.ReduceOption
import Mathlib.Logic.Relation
import Mathlib.Order.Bounds.Defs

namespace EpicsToKafka

variable {υ : Type}

/-- The part of a stream that `fillConversionQueue` uses.  The paths are
objects of their own, so none is there twice. -/
structure StreamQueue (υ : Type) where
  address : Nat
  conversionPaths : List Nat
  outputQueue : List (Option υ)
  distinct : conversionPaths.Nodup

/-- What is written to: the queue of a worker, the allocator that never reuses
an address, and the counters of the paths. -/
structure WorkQueue (υ : Type) where
  queue : List (ConversionWorkPacket υ)
  nextPacket : Nat
  transit : Nat → Nat
  fresh : ∀ packet ∈ queue, packet.address < nextPacket

theorem enqueueForPaths_outputQueue (enqueue : Nat → Bool) (update : υ) (paths : List Nat)
    (conversionPathID : Nat) (state : FillState υ) :
    (enqueueForPaths enqueue update paths conversionPathID state).outputQueue =
      state.outputQueue := by
  induction paths generalizing conversionPathID state with
  | nil => rfl
  | cons path rest ih =>
      simp only [enqueueForPaths]
      split
      · rw [ih]
      · rfl

/-- Every iteration takes one entry out of the `OutputQueue`. -/
theorem fillIteration_outputQueue {enqueue : Nat → Bool} {paths : List Nat} {max : Nat}
    {state next : FillState υ} (hiter : fillIteration enqueue paths max state = some next) :
    ∃ entry, state.outputQueue = entry :: next.outputQueue := by
  unfold fillIteration at hiter
  split at hiter
  · split at hiter
    · cases hiter
    · rename_i rest hqueue
      cases hiter
      exact ⟨none, hqueue⟩
    · rename_i update rest hqueue
      cases hiter
      rw [enqueueForPaths_outputQueue]
      exact ⟨some update, hqueue⟩
  · cases hiter

/-- The `while` loop. -/
def fillLoop (enqueue : Nat → Bool) (paths : List Nat) (max : Nat) (state : FillState υ) :
    FillState υ :=
  match _hiter : fillIteration enqueue paths max state with
  | none => state
  | some next => fillLoop enqueue paths max next
termination_by state.outputQueue.length
decreasing_by
  obtain ⟨entry, hqueue⟩ := fillIteration_outputQueue _hiter
  rw [hqueue]
  exact Nat.lt_succ_self _

/-- The states in which the loop test is made. -/
def LoopReaches (enqueue : Nat → Bool) (paths : List Nat) (max : Nat) :
    FillState υ → FillState υ → Prop :=
  Relation.ReflTransGen fun state next => fillIteration enqueue paths max state = some next

theorem fillLoop_reaches (enqueue : Nat → Bool) (paths : List Nat) (max : Nat)
    (state : FillState υ) :
    LoopReaches enqueue paths max state (fillLoop enqueue paths max state) := by
  fun_induction fillLoop enqueue paths max state with
  | case1 state hstop => exact .refl
  | case2 state next hiter ih => exact .head hiter ih

theorem fillLoop_stops (enqueue : Nat → Bool) (paths : List Nat) (max : Nat)
    (state : FillState υ) :
    fillIteration enqueue paths max (fillLoop enqueue paths max state) = none := by
  fun_induction fillLoop enqueue paths max state with
  | case1 state hstop => exact hstop
  | case2 state next hiter ih => exact ih

/-- No packet in the queue has an address that is still to be given out. -/
def FillState.Fresh (state : FillState υ) : Prop :=
  ∀ packet ∈ state.queue, packet.address < state.nextPacket

theorem enqueueForPaths_fresh (enqueue : Nat → Bool) (update : υ) (paths : List Nat)
    (conversionPathID : Nat) (state : FillState υ) (hfresh : state.Fresh) :
    (enqueueForPaths enqueue update paths conversionPathID state).Fresh := by
  induction paths generalizing conversionPathID state with
  | nil => exact hfresh
  | cons path rest ih =>
      simp only [enqueueForPaths]
      split
      · apply ih
        intro packet hpacket
        rcases List.mem_append.mp hpacket with hold | hnew
        · exact Nat.lt_succ_of_lt (hfresh packet hold)
        · rw [List.mem_singleton.mp hnew]
          exact Nat.lt_succ_self _
      · exact fun packet hpacket => Nat.lt_succ_of_lt (hfresh packet hpacket)

theorem fillIteration_fresh {enqueue : Nat → Bool} {paths : List Nat} {max : Nat}
    {state next : FillState υ} (hfresh : state.Fresh)
    (hiter : fillIteration enqueue paths max state = some next) : next.Fresh := by
  unfold fillIteration at hiter
  split at hiter
  · split at hiter
    · cases hiter
    · cases hiter
      exact hfresh
    · cases hiter
      exact enqueueForPaths_fresh _ _ _ _ _ hfresh
  · cases hiter

theorem fillLoop_fresh (enqueue : Nat → Bool) (paths : List Nat) (max : Nat)
    {state : FillState υ} (hfresh : state.Fresh) :
    (fillLoop enqueue paths max state).Fresh := by
  fun_induction fillLoop enqueue paths max state with
  | case1 state hstop => exact hfresh
  | case2 state next hiter ih => exact ih (fillIteration_fresh hfresh hiter)

theorem mem_tagLast {self : Nat} {cwpLast : List (Option Nat)}
    {queue : List (ConversionWorkPacket υ)} {packet : ConversionWorkPacket υ}
    (hpacket : packet ∈ tagLast self cwpLast queue) :
    ∃ untagged ∈ queue, packet.address = untagged.address := by
  obtain ⟨untagged, huntagged, rfl⟩ := List.mem_map.mp hpacket
  refine ⟨untagged, huntagged, ?_⟩
  split <;> rfl

/-- Packets that one or more rounds of the inner loop have appended. -/
structure Appends (state next : FillState υ) (added : List (ConversionWorkPacket υ)) :
    Prop where
  queue : next.queue = state.queue ++ added
  numQueued : next.locals.numQueued = state.locals.numQueued + added.length
  cwpLast_length : next.locals.cwpLast.length = state.locals.cwpLast.length

/-- Whatever the enqueues answer, the inner loop counts the packets it has
appended, at most one for each path. -/
theorem enqueueForPaths_appends (enqueue : Nat → Bool) (update : υ) (paths : List Nat)
    (conversionPathID : Nat) (state : FillState υ)
    (hroom : state.locals.numQueued + paths.length < 2 ^ 32) :
    ∃ added, added.length ≤ paths.length ∧
      Appends state (enqueueForPaths enqueue update paths conversionPathID state) added := by
  induction paths generalizing conversionPathID state with
  | nil => exact ⟨[], Nat.le_refl _, by simp [enqueueForPaths], rfl, rfl⟩
  | cons path rest ih =>
      rw [List.length_cons] at hroom
      have hadd : uint32Add state.locals.numQueued 1 = state.locals.numQueued + 1 :=
        uint32Add_of_lt (by omega)
      simp only [enqueueForPaths, hadd]
      split
      · obtain ⟨added, hlength, happends⟩ := ih (conversionPathID + 1)
          { state with
            locals := { state.locals with
              cwpLast := state.locals.cwpLast.set conversionPathID (some state.nextPacket)
              numQueued := state.locals.numQueued + 1 }
            queue := state.queue ++ [⟨state.nextPacket, update, path, none⟩]
            nextPacket := state.nextPacket + 1 } (by simp only; omega)
        refine ⟨⟨state.nextPacket, update, path, none⟩ :: added, by simpa using hlength, ?_⟩
        refine ⟨?_, ?_, ?_⟩
        · rw [happends.queue, List.append_assoc, List.singleton_append]
        · rw [happends.numQueued, List.length_cons]
          simp only
          omega
        · rw [happends.cwpLast_length, List.length_set]
      · exact ⟨[], Nat.zero_le _, by simp, rfl, by simp⟩

/-- One iteration, whatever the enqueues answer: the counter stays below `max`,
and no more packets are added than the entry taken out is worth. -/
theorem fillIteration_appends {enqueue : Nat → Bool} {paths : List Nat} {max : Nat}
    {state next : FillState υ} (hwell : state.locals.WellFormed max paths.length)
    (hiter : fillIteration enqueue paths max state = some next) :
    ∃ entry added, state.outputQueue = entry :: next.outputQueue ∧
      added.length ≤ paths.length * [entry].reduceOption.length ∧
      Appends state next added ∧ next.locals.WellFormed max paths.length := by
  unfold fillIteration at hiter
  split at hiter
  · rename_i hcontinues
    have hroom := hwell.room hcontinues
    have hmax := hwell.max_lt
    split at hiter
    · cases hiter
    · rename_i rest hqueue
      cases hiter
      exact ⟨none, [], hqueue, Nat.zero_le _,
        ⟨(List.append_nil _).symm, rfl, rfl⟩,
        hwell.max_lt, hwell.numQueued_le, hwell.cwpLast_length⟩
    · rename_i update rest hqueue
      cases hiter
      obtain ⟨added, hlength, happends⟩ := enqueueForPaths_appends enqueue update paths 0
        { state with
          locals := { state.locals with numDequeued := uint32Add state.locals.numDequeued 1 }
          outputQueue := rest } (by simp only; omega)
      refine ⟨some update, added, ?_, by simpa using hlength,
        ⟨happends.queue, happends.numQueued, happends.cwpLast_length⟩, hmax, ?_, ?_⟩
      · rw [enqueueForPaths_outputQueue]
        exact hqueue
      · rw [happends.numQueued]
        simp only
        omega
      · rw [happends.cwpLast_length]
        exact hwell.cwpLast_length
  · cases hiter

theorem Appends.trans {first second third : FillState υ}
    {added more : List (ConversionWorkPacket υ)} (hfirst : Appends first second added)
    (hsecond : Appends second third more) : Appends first third (added ++ more) := by
  refine ⟨?_, ?_, hsecond.cwpLast_length.trans hfirst.cwpLast_length⟩
  · rw [hsecond.queue, hfirst.queue, List.append_assoc]
  · rw [hsecond.numQueued, hfirst.numQueued, List.length_append, Nat.add_assoc]

/-- The loop up to any of its tests. -/
theorem LoopReaches.appends {enqueue : Nat → Bool} {paths : List Nat} {max : Nat}
    {state later : FillState υ} (hreaches : LoopReaches enqueue paths max state later)
    (hwell : state.locals.WellFormed max paths.length) :
    ∃ taken added, state.outputQueue = taken ++ later.outputQueue ∧
      added.length ≤ paths.length * taken.reduceOption.length ∧
      Appends state later added ∧ later.locals.WellFormed max paths.length := by
  induction hreaches with
  | refl =>
      exact ⟨[], [], rfl, Nat.zero_le _,
        ⟨(List.append_nil _).symm, rfl, rfl⟩, hwell⟩
  | tail _ hiter ih =>
      obtain ⟨taken, added, hqueue, hlength, happends, hlater⟩ := ih
      obtain ⟨entry, more, hentry, hmore, hmoreAppends, hnext⟩ :=
        fillIteration_appends hlater hiter
      refine ⟨taken ++ [entry], added ++ more, ?_, ?_, happends.trans hmoreAppends, hnext⟩
      · rw [hqueue, hentry, List.append_assoc, List.singleton_append]
      · rw [List.length_append, List.reduceOption_append, List.length_append, Nat.mul_add]
        exact Nat.add_le_add hlength hmore

/-- Every pointer in `cwp_last` leads to a packet that still exists. -/
def PointersValid (cwpLast : List (Option Nat)) (queue : List (ConversionWorkPacket υ)) : Prop :=
  ∀ pointer ∈ cwpLast, pointer ∈ queue.map fun packet => some packet.address

instance (cwpLast : List (Option Nat)) (queue : List (ConversionWorkPacket υ)) :
    Decidable (PointersValid cwpLast queue) :=
  inferInstanceAs (Decidable (∀ pointer ∈ cwpLast, _))

/-- The loop is entered with this state. -/
def enterFill (sizeApprox : Nat) (stream : StreamQueue υ) (work : WorkQueue υ) : FillState υ :=
  ⟨.enter sizeApprox stream.conversionPaths.length, stream.outputQueue, work.queue,
    work.nextPacket⟩

theorem enterFill_wellFormed (sizeApprox : Nat) (stream : StreamQueue υ) (work : WorkQueue υ)
    {max : Nat} (hmax : max < 2 ^ 32) :
    (enterFill sizeApprox stream work).locals.WellFormed max stream.conversionPaths.length :=
  FillLocals.enter_wellFormed _ _ hmax

/-- What a call leaves behind, and its return value. -/
structure Filled (υ : Type) where
  stream : StreamQueue υ
  work : WorkQueue υ
  numQueued : Nat

def fillConversionQueue (enqueue : Nat → Bool) (sizeApprox max : Nat) (stream : StreamQueue υ)
    (work : WorkQueue υ) : Option (Filled υ) :=
  let final := fillLoop enqueue stream.conversionPaths max (enterFill sizeApprox stream work)
  have hfresh : final.Fresh := fillLoop_fresh _ _ _ work.fresh
  if 0 < final.locals.numQueued then
    if PointersValid final.locals.cwpLast final.queue then
      some
        { stream := { stream with outputQueue := final.outputQueue }
          work :=
            { queue := tagLast stream.address final.locals.cwpLast final.queue
              nextPacket := final.nextPacket
              transit := raiseTransit stream.conversionPaths work.transit
              fresh := fun packet hpacket => by
                obtain ⟨untagged, huntagged, haddress⟩ := mem_tagLast hpacket
                exact haddress ▸ hfresh untagged huntagged }
          numQueued := final.locals.numQueued }
    else none
  else
    some
      { stream := { stream with outputQueue := final.outputQueue }
        work := ⟨final.queue, final.nextPacket, work.transit, hfresh⟩
        numQueued := final.locals.numQueued }

/-- What a call leaves behind, in terms of the state in which its loop ends. -/
structure FilledFrom (stream : StreamQueue υ) (work : WorkQueue υ) (final : FillState υ)
    (filled : Filled υ) : Prop where
  drained : filled.stream = { stream with outputQueue := final.outputQueue }
  numQueued : filled.numQueued = final.locals.numQueued
  queue : filled.work.queue =
    if 0 < final.locals.numQueued then tagLast stream.address final.locals.cwpLast final.queue
    else final.queue
  transit : filled.work.transit =
    if 0 < final.locals.numQueued then raiseTransit stream.conversionPaths work.transit
    else work.transit

theorem fillConversionQueue_eq_some {enqueue : Nat → Bool} {sizeApprox max : Nat}
    {stream : StreamQueue υ} {work : WorkQueue υ} {filled : Filled υ}
    (hfilled : fillConversionQueue enqueue sizeApprox max stream work = some filled) :
    FilledFrom stream work
      (fillLoop enqueue stream.conversionPaths max (enterFill sizeApprox stream work)) filled := by
  unfold fillConversionQueue at hfilled
  simp only at hfilled
  split at hfilled
  · rename_i hpositive
    split at hfilled
    · cases hfilled
      exact ⟨rfl, rfl, (if_pos hpositive).symm, (if_pos hpositive).symm⟩
    · cases hfilled
  · rename_i hzero
    cases hfilled
    exact ⟨rfl, rfl, (if_neg hzero).symm, (if_neg hzero).symm⟩

/-- The call is defined if every tag can be written. -/
theorem fillConversionQueue_isSome {enqueue : Nat → Bool} {sizeApprox max : Nat}
    {stream : StreamQueue υ} {work : WorkQueue υ} {final : FillState υ}
    (hfinal : fillLoop enqueue stream.conversionPaths max (enterFill sizeApprox stream work) =
      final)
    (hvalid : 0 < final.locals.numQueued → PointersValid final.locals.cwpLast final.queue) :
    ∃ filled, fillConversionQueue enqueue sizeApprox max stream work = some filled := by
  subst hfinal
  unfold fillConversionQueue
  simp only
  split
  · rename_i hpositive
    rw [if_pos (hvalid hpositive)]
    exact ⟨_, rfl⟩
  · exact ⟨_, rfl⟩

/-- Whatever the enqueues answer, a call that is defined returns the number of
packets it has added: at most `max`, and at most what it has taken out is
worth. -/
theorem fillConversionQueue_counts {enqueue : Nat → Bool} {sizeApprox max : Nat}
    {stream : StreamQueue υ} {work : WorkQueue υ} {filled : Filled υ} (hmax : max < 2 ^ 32)
    (hfilled : fillConversionQueue enqueue sizeApprox max stream work = some filled) :
    filled.work.queue.length = work.queue.length + filled.numQueued ∧
      filled.numQueued ≤ max ∧ filled.stream.conversionPaths = stream.conversionPaths ∧
      ∃ taken, stream.outputQueue = taken ++ filled.stream.outputQueue ∧
        filled.numQueued ≤ stream.conversionPaths.length * taken.reduceOption.length := by
  obtain ⟨taken, added, hqueue, hlength, happends, hwell⟩ :=
    (fillLoop_reaches enqueue stream.conversionPaths max (enterFill sizeApprox stream work)).appends
      (enterFill_wellFormed sizeApprox stream work hmax)
  obtain ⟨hstream, hreturned, hwork, -⟩ := fillConversionQueue_eq_some hfilled
  have hadded := happends.numQueued
  have hentered : (enterFill sizeApprox stream work).locals.numQueued = 0 := rfl
  refine ⟨?_, ?_, ?_, taken, ?_, ?_⟩
  · have hcount : filled.work.queue.length = (work.queue ++ added).length := by
      rw [hwork, happends.queue]
      split
      · rw [tagLast, List.length_map]
        rfl
      · rfl
    rw [hcount, List.length_append, hreturned]
    omega
  · rw [hreturned]
    exact hwell.numQueued_le
  · rw [hstream]
  · rw [hstream]
    exact hqueue
  · rw [hreturned]
    omega

theorem packetRow_map_address (base : Nat) (update : υ) (paths : List Nat) :
    (packetRow base update paths).map (fun packet => some packet.address) =
      rowAddresses base paths.length := by
  induction paths generalizing base with
  | nil => rfl
  | cons path rest ih =>
      rw [packetRow, List.map_cons, ih]
      simp [rowAddresses, List.range'_succ]

/-- The tags can be written at every test of the loop if every enqueue
succeeds. -/
theorem LoopReaches.pointersValid {paths : List Nat} {max : Nat} {start state : FillState υ}
    (hreaches : LoopReaches (fun _ => true) paths max start state)
    (hwell : start.locals.WellFormed max paths.length) (hzero : start.locals.numQueued = 0) :
    0 < state.locals.numQueued → PointersValid state.locals.cwpLast state.queue := by
  induction hreaches with
  | refl =>
      intro hpositive
      omega
  | @tail middle next hbefore hiter ih =>
      obtain ⟨-, -, -, -, -, hmiddle⟩ := LoopReaches.appends hbefore hwell
      obtain ⟨-, ⟨rest, -, rfl⟩ | ⟨update, rest, -, rfl⟩⟩ := fillIteration_success hmiddle hiter
      · exact ih
      · intro _ pointer hpointer
        rw [FillState.afterRow, ← packetRow_map_address middle.nextPacket update] at hpointer
        rw [FillState.afterRow, List.map_append]
        exact List.mem_append_right _ hpointer

/-- If every enqueue succeeds the call is defined. -/
theorem fillConversionQueue_defined (sizeApprox : Nat) {max : Nat} (stream : StreamQueue υ)
    (work : WorkQueue υ) (hmax : max < 2 ^ 32) :
    ∃ filled, fillConversionQueue (fun _ => true) sizeApprox max stream work = some filled :=
  fillConversionQueue_isSome rfl
    ((fillLoop_reaches _ _ _ _).pointersValid (enterFill_wellFormed sizeApprox stream work hmax)
      rfl)

/-- A prefix of the queue that may be taken out: not longer than announced,
and before each of its entries there was a free slot for every path. -/
structure Fits (pathCount max sizeApprox : Nat) (outputQueue : List (Option υ)) (count : Nat) :
    Prop where
  available : count ≤ outputQueue.length
  announced : count ≤ sizeApprox
  room : ∀ earlier < count,
    pathCount * (outputQueue.take earlier).reduceOption.length + pathCount ≤ max

/-- The rows of packets for a list of updates. -/
def packetRows (paths : List Nat) (base : Nat) : List υ → List (ConversionWorkPacket υ)
  | [] => []
  | update :: rest =>
      packetRow base update paths ++ packetRows paths (base + paths.length) rest

theorem packetRows_concat (paths : List Nat) (base : Nat) (updates : List υ) (update : υ) :
    packetRows paths base (updates ++ [update]) =
      packetRows paths base updates ++
        packetRow (base + paths.length * updates.length) update paths := by
  induction updates generalizing base with
  | nil => simp [packetRows]
  | cons first rest ih =>
      simp only [List.cons_append, packetRows, ih, List.append_assoc, List.length_cons]
      congr 3
      rw [Nat.mul_succ]
      omega

/-- What `cwp_last` holds when the rows of `count` updates are complete. -/
def lastAddresses (pathCount base : Nat) : (count : Nat) → List (Option Nat)
  | 0 => List.replicate pathCount none
  | count + 1 => rowAddresses (base + pathCount * count) pathCount

section Success

variable {paths : List Nat} {max : Nat}

/-- The loop test is made after `count` entries were taken out, all of whose
packets are in the queue. -/
structure Progress (paths : List Nat) (max : Nat) (start state : FillState υ) (count : Nat) :
    Prop where
  wellFormed : state.locals.WellFormed max paths.length
  fits : Fits paths.length max start.locals.bufferSize start.outputQueue count
  bufferSize : state.locals.bufferSize = start.locals.bufferSize
  numDequeued : state.locals.numDequeued = count
  outputQueue : state.outputQueue = start.outputQueue.drop count
  numQueued : state.locals.numQueued =
    paths.length * (start.outputQueue.take count).reduceOption.length
  queue : state.queue = start.queue ++
    packetRows paths start.nextPacket (start.outputQueue.take count).reduceOption
  nextPacket : state.nextPacket = start.nextPacket +
    paths.length * (start.outputQueue.take count).reduceOption.length
  cwpLast : state.locals.cwpLast = lastAddresses paths.length start.nextPacket
    (start.outputQueue.take count).reduceOption.length

/-- One more entry fits whenever the loop goes on. -/
theorem Progress.fits_succ {start state : FillState υ} {count : Nat} {entry : Option υ}
    {rest : List (Option υ)} (hprogress : Progress paths max start state count)
    (hcontinues : state.locals.continues max paths.length)
    (hqueue : state.outputQueue = entry :: rest) :
    Fits paths.length max start.locals.bufferSize start.outputQueue (count + 1) ∧
      start.outputQueue.take (count + 1) = start.outputQueue.take count ++ [entry] ∧
      rest = start.outputQueue.drop (count + 1) := by
  have hdrop := hprogress.outputQueue.symm.trans hqueue
  have hlt : count < start.outputQueue.length := by
    by_contra hge
    rw [List.drop_eq_nil_of_le (Nat.le_of_not_lt hge)] at hdrop
    cases hdrop
  rw [List.drop_eq_getElem_cons hlt] at hdrop
  cases hdrop
  refine ⟨⟨hlt, ?_, ?_⟩, List.take_succ_eq_append_getElem hlt, rfl⟩
  · have hannounced := hcontinues.1
    rw [hprogress.numDequeued, hprogress.bufferSize] at hannounced
    exact hannounced
  · intro earlier hearlier
    rcases Nat.lt_succ_iff_lt_or_eq.mp hearlier with hbefore | rfl
    · exact hprogress.fits.room earlier hbefore
    · rw [← hprogress.numQueued]
      exact hprogress.wellFormed.room hcontinues

/-- The step of the loop. -/
theorem Progress.next {start state next : FillState υ} {count : Nat}
    (hprogress : Progress paths max start state count)
    (hsize : start.locals.bufferSize < 2 ^ 32)
    (hiter : fillIteration (fun _ => true) paths max state = some next) :
    Progress paths max start next (count + 1) := by
  obtain ⟨hcontinues, hcases⟩ := fillIteration_success hprogress.wellFormed hiter
  have hannounced := hcontinues.1
  rw [hprogress.bufferSize] at hannounced
  have hdequeued : uint32Add state.locals.numDequeued 1 = count + 1 := by
    rw [uint32Add_of_lt (by omega), hprogress.numDequeued]
  rcases hcases with ⟨rest, hqueue, rfl⟩ | ⟨update, rest, hqueue, rfl⟩
  · obtain ⟨hfits, htake, hrest⟩ := hprogress.fits_succ hcontinues hqueue
    have hupdates : (start.outputQueue.take (count + 1)).reduceOption =
        (start.outputQueue.take count).reduceOption := by
      rw [htake, List.reduceOption_append]
      exact List.append_nil _
    refine ⟨FillState.afterNull_wellFormed hprogress.wellFormed, hfits, hprogress.bufferSize,
      hdequeued, hrest, ?_, ?_, ?_, ?_⟩
    · rw [hupdates]
      exact hprogress.numQueued
    · rw [hupdates]
      exact hprogress.queue
    · rw [hupdates]
      exact hprogress.nextPacket
    · rw [hupdates]
      exact hprogress.cwpLast
  · obtain ⟨hfits, htake, hrest⟩ := hprogress.fits_succ hcontinues hqueue
    have hupdates : (start.outputQueue.take (count + 1)).reduceOption =
        (start.outputQueue.take count).reduceOption ++ [update] := by
      rw [htake, List.reduceOption_append]
      rfl
    refine ⟨FillState.afterRow_wellFormed hprogress.wellFormed hcontinues, hfits,
      hprogress.bufferSize, hdequeued, hrest, ?_, ?_, ?_, ?_⟩
    · rw [hupdates, List.length_append, Nat.mul_add, ← hprogress.numQueued]
      simp [FillState.afterRow]
    · rw [hupdates, packetRows_concat, ← List.append_assoc, ← hprogress.queue,
        ← hprogress.nextPacket]
      rfl
    · rw [hupdates, List.length_append, Nat.mul_add, ← Nat.add_assoc, ← hprogress.nextPacket]
      simp [FillState.afterRow]
    · rw [hupdates, List.length_append, List.length_singleton, lastAddresses,
        ← hprogress.nextPacket]
      rfl

/-- What holds at every test of the loop when every enqueue succeeds. -/
theorem LoopReaches.progress {start state : FillState υ}
    (hreaches : LoopReaches (fun _ => true) paths max start state)
    (hstart : Progress paths max start start 0) (hsize : start.locals.bufferSize < 2 ^ 32) :
    ∃ count, Progress paths max start state count := by
  induction hreaches with
  | refl => exact ⟨0, hstart⟩
  | tail _ hiter ih =>
      obtain ⟨count, hprogress⟩ := ih
      exact ⟨count + 1, hprogress.next hsize hiter⟩

/-- The loop is left only when no longer prefix fits. -/
theorem Progress.isGreatest {start state : FillState υ} {count : Nat}
    (hprogress : Progress paths max start state count)
    (hstops : fillIteration (fun _ => true) paths max state = none) :
    IsGreatest { length |
      Fits paths.length max start.locals.bufferSize start.outputQueue length } count := by
  refine ⟨hprogress.fits, ?_⟩
  intro longer hlonger
  by_contra hlt
  have hcount : count < longer := Nat.lt_of_not_le hlt
  have hcontinues : state.locals.continues max paths.length := by
    refine ⟨?_, ?_⟩
    · rw [hprogress.numDequeued, hprogress.bufferSize]
      exact Nat.lt_of_lt_of_le hcount hlonger.announced
    · have hroom := hlonger.room count hcount
      rw [uint32Sub_of_le hprogress.wellFormed.max_lt hprogress.wellFormed.numQueued_le,
        hprogress.numQueued]
      omega
  have hlength : count < start.outputQueue.length :=
    Nat.lt_of_lt_of_le hcount hlonger.available
  rw [fillIteration, if_pos hcontinues, hprogress.outputQueue,
    List.drop_eq_getElem_cons hlength] at hstops
  cases hentry : start.outputQueue[count] <;> simp [hentry] at hstops

end Success

theorem packetRow_map (base : Nat) (update : υ) (paths : List Nat) :
    (packetRow base update paths).map (fun packet => (packet.update, packet.path)) =
      paths.map fun path => (update, path) := by
  induction paths generalizing base with
  | nil => rfl
  | cons path rest ih => simp [packetRow, ih]

theorem packetRows_map (paths : List Nat) (base : Nat) (updates : List υ) :
    (packetRows paths base updates).map (fun packet => (packet.update, packet.path)) =
      updates.flatMap fun update => paths.map fun path => (update, path) := by
  induction updates generalizing base with
  | nil => rfl
  | cons update rest ih =>
      rw [packetRows, List.map_append, packetRow_map, ih, List.flatMap_cons]

theorem mem_packetRows {paths : List Nat} {base : Nat} {updates : List υ}
    {packet : ConversionWorkPacket υ} (hmem : packet ∈ packetRows paths base updates) :
    packet.path ∈ paths ∧ packet.stream = none ∧
      packet.address < base + paths.length * updates.length := by
  induction updates generalizing base with
  | nil => cases hmem
  | cons update rest ih =>
      rw [List.length_cons, Nat.mul_succ]
      rcases List.mem_append.mp hmem with hrow | hrest
      · obtain ⟨-, hpath, hstream, -, haddress⟩ := mem_packetRow hrow
        exact ⟨hpath, hstream, by omega⟩
      · obtain ⟨hpath, hstream, haddress⟩ := ih hrest
        exact ⟨hpath, hstream, by omega⟩

/-- Of the packets appended, exactly the last one of each path has the tag. -/
def LastTagged (self : Nat) (appended : List (ConversionWorkPacket υ)) : Prop :=
  ∀ before packet after, appended = before ++ packet :: after →
    packet.stream =
      if packet.path ∈ after.map ConversionWorkPacket.path then none else some self

/-- Complete rows without tags, then one with tags. -/
theorem lastTagged_append {self : Nat} {paths : List Nat}
    {rows last : List (ConversionWorkPacket υ)} (hdistinct : paths.Nodup)
    (hrows : ∀ packet ∈ rows, packet.path ∈ paths ∧ packet.stream = none)
    (hlast : last.map ConversionWorkPacket.path = paths)
    (htagged : ∀ packet ∈ last, packet.stream = some self) :
    LastTagged self (rows ++ last) := by
  intro before packet after hsplit
  rcases List.append_eq_append_iff.mp hsplit with ⟨middle, hbefore, htail⟩ | ⟨middle, hrow, htail⟩
  · -- the packet is in the last row
    have hpath : packet.path ∉ after.map ConversionWorkPacket.path := by
      rw [← hlast, htail, List.map_append, List.map_cons] at hdistinct
      exact (List.nodup_cons.mp (List.nodup_append.mp hdistinct).2.1).1
    rw [if_neg hpath]
    exact htagged packet (by simp [htail])
  · cases middle with
    | nil =>
        have hpath : packet.path ∉ after.map ConversionWorkPacket.path := by
          rw [← hlast, ← List.nil_append last, ← htail, List.map_cons] at hdistinct
          exact (List.nodup_cons.mp hdistinct).1
        rw [if_neg hpath]
        exact htagged packet (by rw [← List.nil_append last, ← htail]; exact List.mem_cons_self)
    | cons head middle =>
        rw [List.cons_append] at htail
        cases htail
        obtain ⟨hmem, hstream⟩ := hrows packet (by simp [hrow])
        rw [hstream, if_pos]
        rw [List.map_append, hlast]
        exact List.mem_append_right _ hmem

/-- Everything there is to say about a call in which every enqueue succeeds;
`count` entries are taken out and the packets `appended` put in. -/
structure FillSpec (sizeApprox max : Nat) (stream : StreamQueue υ) (work : WorkQueue υ)
    (filled : Filled υ) (count : Nat) (appended : List (ConversionWorkPacket υ)) : Prop where
  longest : IsGreatest { length |
    Fits stream.conversionPaths.length max sizeApprox stream.outputQueue length } count
  drained : filled.stream = { stream with outputQueue := stream.outputQueue.drop count }
  queue : filled.work.queue = work.queue ++ appended
  packets : appended.map (fun packet => (packet.update, packet.path)) =
    (stream.outputQueue.take count).reduceOption.flatMap fun update =>
      stream.conversionPaths.map fun path => (update, path)
  returned : filled.numQueued =
    stream.conversionPaths.length * (stream.outputQueue.take count).reduceOption.length
  bounded : filled.numQueued ≤ max
  raised : 0 < filled.numQueued → LastTagged stream.address appended ∧
    ∀ path, filled.work.transit path =
      work.transit path + if path ∈ stream.conversionPaths then 1 else 0
  unchanged : filled.numQueued = 0 → filled.work.transit = work.transit ∧
    ∀ packet ∈ appended, packet.stream = none

theorem raiseTransit_apply {paths : List Nat} (hdistinct : paths.Nodup) (transit : Nat → Nat)
    (path : Nat) :
    raiseTransit paths transit path = transit path + if path ∈ paths then 1 else 0 := by
  rw [raiseTransit, hdistinct.count]

section Call

variable {sizeApprox max : Nat} {stream : StreamQueue υ} {work : WorkQueue υ}
  {final : FillState υ} {count : Nat}

/-- The state in which the loop ends when nothing was queued. -/
theorem fillSpec_of_zero {filled : Filled υ}
    (hprogress : Progress stream.conversionPaths max (enterFill sizeApprox stream work) final
      count)
    (hstops : fillIteration (fun _ => true) stream.conversionPaths max final = none)
    (hfilled : FilledFrom stream work final filled) (hzero : final.locals.numQueued = 0) :
    FillSpec sizeApprox max stream work filled count
      (packetRows stream.conversionPaths work.nextPacket
        (stream.outputQueue.take count).reduceOption) := by
  have hnot : ¬ 0 < final.locals.numQueued := by omega
  refine ⟨hprogress.isGreatest hstops, ?_, ?_, packetRows_map _ _ _, ?_, ?_, ?_, ?_⟩
  · rw [hfilled.drained, hprogress.outputQueue]
    rfl
  · rw [hfilled.queue, if_neg hnot]
    exact hprogress.queue
  · rw [hfilled.numQueued]
    exact hprogress.numQueued
  · rw [hfilled.numQueued]
    exact hprogress.wellFormed.numQueued_le
  · intro hpositive
    rw [hfilled.numQueued] at hpositive
    exact absurd hpositive hnot
  · intro _
    rw [hfilled.transit, if_neg hnot]
    exact ⟨rfl, fun packet hpacket => (mem_packetRows hpacket).2.1⟩

/-- The queue in which the tags are written: the row of the last update is
its end, and `cwp_last` points to this row. -/
theorem Progress.lastRow
    (hprogress : Progress stream.conversionPaths max (enterFill sizeApprox stream work) final
      count) (hpositive : 0 < final.locals.numQueued) :
    ∃ updates update base,
      (stream.outputQueue.take count).reduceOption = updates ++ [update] ∧
      base = work.nextPacket + stream.conversionPaths.length * updates.length ∧
      final.queue = (work.queue ++ packetRows stream.conversionPaths work.nextPacket updates) ++
        packetRow base update stream.conversionPaths ∧
      final.locals.cwpLast = rowAddresses base stream.conversionPaths.length := by
  rw [hprogress.numQueued] at hpositive
  have hqueue := hprogress.queue
  have hlast := hprogress.cwpLast
  rcases List.eq_nil_or_concat (stream.outputQueue.take count).reduceOption with
    hnil | ⟨updates, update, hupdates⟩
  · have hnone : ((enterFill sizeApprox stream work).outputQueue.take count).reduceOption = [] :=
      hnil
    rw [hnone] at hpositive
    simp at hpositive
  · rw [List.concat_eq_append] at hupdates
    have hsome : ((enterFill sizeApprox stream work).outputQueue.take count).reduceOption =
        updates ++ [update] := hupdates
    refine ⟨updates, update, _, hupdates, rfl, ?_, ?_⟩
    · rw [hqueue, hsome, packetRows_concat, ← List.append_assoc]
      rfl
    · rw [hlast, hsome, List.length_append, List.length_singleton, lastAddresses]
      rfl

/-- The state in which the loop ends when something was queued. -/
theorem fillSpec_of_pos {filled : Filled υ}
    (hprogress : Progress stream.conversionPaths max (enterFill sizeApprox stream work) final
      count)
    (hstops : fillIteration (fun _ => true) stream.conversionPaths max final = none)
    (hfilled : FilledFrom stream work final filled) (hpositive : 0 < final.locals.numQueued) :
    ∃ appended, FillSpec sizeApprox max stream work filled count appended := by
  obtain ⟨updates, update, base, hupdates, hbase, hqueue, hlast⟩ := hprogress.lastRow hpositive
  have hold : ∀ packet ∈ work.queue ++ packetRows stream.conversionPaths work.nextPacket updates,
      packet.address < base := by
    intro packet hpacket
    rcases List.mem_append.mp hpacket with hwork | hrows
    · have hlt := work.fresh packet hwork
      omega
    · rw [hbase]
      exact (mem_packetRows hrows).2.2
  refine ⟨packetRows stream.conversionPaths work.nextPacket updates ++
    (packetRow base update stream.conversionPaths).map
      fun packet => { packet with stream := some stream.address },
    hprogress.isGreatest hstops, ?_, ?_, ?_, ?_, ?_, ?_, ?_⟩
  · rw [hfilled.drained, hprogress.outputQueue]
    rfl
  · rw [hfilled.queue, if_pos hpositive, hlast, hqueue, tagLast_rowAddresses _ hold,
      List.append_assoc]
  · rw [hupdates, List.map_append, packetRows_map, List.map_map, List.flatMap_append]
    congr 1
    rw [List.flatMap_singleton, ← packetRow_map base]
    rfl
  · rw [hfilled.numQueued]
    exact hprogress.numQueued
  · rw [hfilled.numQueued]
    exact hprogress.wellFormed.numQueued_le
  · intro _
    refine ⟨lastTagged_append stream.distinct ?_ ?_ ?_, ?_⟩
    · intro packet hpacket
      exact ⟨(mem_packetRows hpacket).1, (mem_packetRows hpacket).2.1⟩
    · rw [List.map_map]
      exact packetRow_map_path base update stream.conversionPaths
    · intro packet hpacket
      obtain ⟨untagged, -, rfl⟩ := List.mem_map.mp hpacket
      rfl
    · rw [hfilled.transit, if_pos hpositive]
      exact raiseTransit_apply stream.distinct work.transit
  · intro hzero
    rw [hfilled.numQueued] at hzero
    omega

end Call

/-- `fillConversionQueue` with `uint32_t` arguments, every enqueue of which
succeeds: its loop test never wraps, it is defined, and it does what
`FillSpec` says. -/
theorem fillConversionQueue_spec (sizeApprox max : Nat) (stream : StreamQueue υ)
    (work : WorkQueue υ) (hsize : sizeApprox < 2 ^ 32) (hmax : max < 2 ^ 32) :
    (∀ state, LoopReaches (fun _ => true) stream.conversionPaths max
        (enterFill sizeApprox stream work) state →
      state.locals.numQueued ≤ max ∧
        uint32Sub max state.locals.numQueued = max - state.locals.numQueued) ∧
    ∃ filled count appended,
      fillConversionQueue (fun _ => true) sizeApprox max stream work = some filled ∧
        FillSpec sizeApprox max stream work filled count appended := by
  have hwell := enterFill_wellFormed sizeApprox stream work hmax
  have hstart : Progress stream.conversionPaths max (enterFill sizeApprox stream work)
      (enterFill sizeApprox stream work) 0 :=
    ⟨hwell, ⟨Nat.zero_le _, Nat.zero_le _, by simp⟩, rfl, rfl, rfl, rfl,
      (List.append_nil _).symm, rfl, rfl⟩
  refine ⟨?_, ?_⟩
  · intro state hreaches
    obtain ⟨-, -, -, -, -, hlater⟩ := hreaches.appends hwell
    exact ⟨hlater.numQueued_le, uint32Sub_of_le hmax hlater.numQueued_le⟩
  · obtain ⟨count, hprogress⟩ := (fillLoop_reaches (fun _ => true) stream.conversionPaths max
      (enterFill sizeApprox stream work)).progress hstart hsize
    have hstops := fillLoop_stops (fun _ => true) stream.conversionPaths max
      (enterFill sizeApprox stream work)
    obtain ⟨filled, hfilled⟩ := fillConversionQueue_defined sizeApprox stream work hmax
    have hfrom := fillConversionQueue_eq_some hfilled
    rcases Nat.eq_zero_or_pos
      (fillLoop (fun _ => true) stream.conversionPaths max
        (enterFill sizeApprox stream work)).locals.numQueued with hzero | hpositive
    · exact ⟨filled, count, _, hfilled, fillSpec_of_zero hprogress hstops hfrom hzero⟩
    · obtain ⟨appended, hspec⟩ := fillSpec_of_pos hprogress hstops hfrom hpositive
      exact ⟨filled, count, appended, hfilled, hspec⟩

/-- Three updates and a null entry, for two paths. -/
def threeUpdates : StreamQueue String where
  address := 7
  conversionPaths := [1, 2]
  outputQueue := [some "a", none, some "b", some "c"]
  distinct := by decide

def emptyWork : WorkQueue String :=
  ⟨[], 0, fun _ => 0, by simp⟩

/-- Five slots take two of the three updates. -/
theorem threeUpdates_five_slots :
    ∃ filled, fillConversionQueue (fun _ => true) 4 5 threeUpdates emptyWork = some filled ∧
      filled.numQueued = 4 ∧ filled.stream.outputQueue = [some "c"] := by
  obtain ⟨-, filled, count, appended, hfilled, hspec⟩ :=
    fillConversionQueue_spec 4 5 threeUpdates emptyWork (by decide) (by decide)
  have hthree : Fits 2 5 4 threeUpdates.outputQueue 3 := ⟨by decide, by decide, by decide⟩
  have hge : 3 ≤ count := hspec.longest.2 hthree
  have hlt : count < 4 := by
    by_contra hfour
    have hroom := hspec.longest.1.room 3 (by omega)
    revert hroom
    decide
  obtain rfl : count = 3 := by omega
  refine ⟨filled, hfilled, hspec.returned, ?_⟩
  rw [hspec.drained]
  rfl

end EpicsToKafka
