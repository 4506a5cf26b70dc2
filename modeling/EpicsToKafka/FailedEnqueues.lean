/-
`Stream::fillConversionQueue` when the queue of the worker refuses packets.
`cwp_last` is written before the result of an enqueue is known, so a failure
leaves a pointer to a packet that has been destroyed, until a later update is
queued for every path.
-/
import EpicsToKafka.FillQueue

namespace EpicsToKafka

variable {υ : Type}

/-- The results of the enqueues for one update; the first failure is the
last. -/
def rowResults (enqueue : Nat → Bool) : (pathCount address : Nat) → List Bool
  | 0, _ => []
  | pathCount + 1, address =>
      if enqueue address then true :: rowResults enqueue pathCount (address + 1) else [false]

/-- The results of all enqueues of a call, from the content of the
`OutputQueue` and the counters at a test of the loop. -/
def enqueueResults (enqueue : Nat → Bool) (pathCount max bufferSize : Nat) :
    List (Option υ) → (numDequeued numQueued address : Nat) → List Bool
  | [], _, _, _ => []
  | entry :: rest, numDequeued, numQueued, address =>
      if numDequeued < bufferSize ∧ pathCount ≤ uint32Sub max numQueued then
        let row := if entry.isSome then rowResults enqueue pathCount address else []
        row ++ enqueueResults enqueue pathCount max bufferSize rest (uint32Add numDequeued 1)
          (numQueued + row.count true) (address + row.length)
      else []

/-- `ConversionWorkPacket::~ConversionWorkPacket`. -/
def ConversionWorkPacket.destroy (packet : ConversionWorkPacket υ) (transit : Nat → Nat) :
    Nat → Nat :=
  match packet.stream with
  | some _ => fun path => if path = packet.path then transit path - 1 else transit path
  | none => transit

/-- Packets are destroyed one after the other. -/
def destroyPackets (packets : List (ConversionWorkPacket υ)) (transit : Nat → Nat) : Nat → Nat :=
  packets.foldl (fun transit packet => packet.destroy transit) transit

/-- The packets of a path that are tagged with a stream. -/
def taggedCount (self path : Nat) (packets : List (ConversionWorkPacket υ)) : Nat :=
  packets.countP fun packet => packet.stream = some self ∧ packet.path = path

/-- What a call should leave behind whatever the enqueues answer: the packets
`appended`, each counted in transit if it is tagged. -/
structure TransitBalanced (stream : StreamQueue υ) (work : WorkQueue υ) (filled : Filled υ)
    (appended : List (ConversionWorkPacket υ)) : Prop where
  queue : filled.work.queue = work.queue ++ appended
  grows : ∀ path, filled.work.transit path =
    work.transit path + taggedCount stream.address path appended
  restored : destroyPackets appended filled.work.transit = work.transit

section Row

theorem rowAddresses_succ (base count : Nat) :
    rowAddresses base (count + 1) = some base :: rowAddresses (base + 1) count := by
  rw [rowAddresses, List.range'_succ, List.map_cons]
  rfl

/-- The inner loop with the results of its enqueues. -/
structure RowOutcome (update : υ) (paths : List Nat) (done : List (Option Nat))
    (state next : FillState υ) (row : List Bool) : Prop where
  bufferSize : next.locals.bufferSize = state.locals.bufferSize
  numDequeued : next.locals.numDequeued = state.locals.numDequeued
  numQueued : next.locals.numQueued = state.locals.numQueued + row.count true
  nextPacket : next.nextPacket = state.nextPacket + row.length
  queue : next.queue =
    state.queue ++ packetRow state.nextPacket update (paths.take (row.count true))
  last : (row = List.replicate paths.length true ∧
      next.locals.cwpLast = done ++ rowAddresses state.nextPacket paths.length) ∨
    (row.getLast? = some false ∧
      some (state.nextPacket + row.count true) ∈ next.locals.cwpLast)

/-- A packet that is queued comes first in its row. -/
theorem RowOutcome.cons_true {update : υ} {path : Nat} {paths : List Nat}
    {done pointers : List (Option Nat)} {state next : FillState υ} {row : List Bool}
    (hrest : RowOutcome update paths (done ++ [some state.nextPacket])
      { state with
        locals := { state.locals with
          cwpLast := pointers
          numQueued := state.locals.numQueued + 1 }
        queue := state.queue ++ [⟨state.nextPacket, update, path, none⟩]
        nextPacket := state.nextPacket + 1 } next row) :
    RowOutcome update (path :: paths) done state next (true :: row) := by
  refine ⟨hrest.bufferSize, hrest.numDequeued, ?_, ?_, ?_, ?_⟩
  · rw [hrest.numQueued, List.count_cons_self]
    exact Nat.add_right_comm _ _ _
  · rw [hrest.nextPacket, List.length_cons]
    exact Nat.add_right_comm _ _ _
  · rw [hrest.queue, List.count_cons_self, List.take_succ_cons, packetRow, List.append_assoc,
      List.singleton_append]
  · rcases hrest.last with ⟨hcomplete, hpointers⟩ | ⟨hfailed, hpointer⟩
    · refine Or.inl ⟨by rw [hcomplete, List.length_cons, List.replicate_succ], ?_⟩
      rw [hpointers, List.length_cons, rowAddresses_succ, List.append_assoc,
        List.singleton_append]
    · refine Or.inr ⟨by rw [List.getLast?_cons, hfailed]; rfl, ?_⟩
      rw [List.count_cons_self, Nat.add_comm (List.count _ _) 1, ← Nat.add_assoc]
      exact hpointer

/-- The induction is on the paths; `done` are the pointers of the paths before
them. -/
theorem enqueueForPaths_outcome (enqueue : Nat → Bool) (update : υ) (paths : List Nat)
    (done pending : List (Option Nat)) (state : FillState υ)
    (hlast : state.locals.cwpLast = done ++ pending) (hpending : pending.length = paths.length)
    (hroom : state.locals.numQueued + paths.length < 2 ^ 32) :
    RowOutcome update paths done state
      (enqueueForPaths enqueue update paths done.length state)
      (rowResults enqueue paths.length state.nextPacket) := by
  induction paths generalizing done pending state with
  | nil =>
      have hnil : pending = [] := List.length_eq_zero_iff.mp hpending
      refine ⟨rfl, rfl, rfl, rfl, ?_, Or.inl ⟨rfl, ?_⟩⟩
      · simp [enqueueForPaths, rowResults, packetRow]
      · rw [enqueueForPaths, hlast, hnil]
        rfl
  | cons path rest ih =>
      cases pending with
      | nil => cases hpending
      | cons old pending =>
          simp only [List.length_cons] at hroom hpending
          have hset : state.locals.cwpLast.set done.length (some state.nextPacket) =
              (done ++ [some state.nextPacket]) ++ pending := by
            rw [hlast, List.set_append_right _ _ (Nat.le_refl _), Nat.sub_self,
              List.set_cons_zero, List.append_assoc, List.singleton_append]
          have hadd : uint32Add state.locals.numQueued 1 = state.locals.numQueued + 1 :=
            uint32Add_of_lt (by omega)
          simp only [enqueueForPaths, List.length_cons, rowResults, hset, hadd]
          by_cases hfirst : enqueue state.nextPacket = true
          · simp only [hfirst, if_true]
            have hrest := ih (done ++ [some state.nextPacket]) pending
              { state with
                locals := { state.locals with
                  cwpLast := (done ++ [some state.nextPacket]) ++ pending
                  numQueued := state.locals.numQueued + 1 }
                queue := state.queue ++ [⟨state.nextPacket, update, path, none⟩]
                nextPacket := state.nextPacket + 1 } rfl (by omega) (by simp only; omega)
            rw [List.length_append, List.length_singleton] at hrest
            exact hrest.cons_true
          · -- The pointer has been written, the packet is gone.
            simp only [hfirst]
            refine ⟨rfl, rfl, rfl, rfl, ?_, Or.inr ⟨rfl, ?_⟩⟩
            · simp [packetRow]
            · simp

end Row

/-- What holds at a test of the loop after enqueues with these results. -/
structure Enqueued (paths : List Nat) (start state : FillState υ) (results : List Bool) :
    Prop where
  fresh : state.Fresh
  numQueued : state.locals.numQueued = results.count true
  added : ∃ added, state.queue = start.queue ++ added ∧ added.length = results.count true ∧
    ∀ packet ∈ added, packet.stream = none
  complete : results.getLast? = some true → ∃ rows base update,
    state.queue = (start.queue ++ rows) ++ packetRow base update paths ∧
      (∀ packet ∈ start.queue ++ rows, packet.address < base) ∧
      (∀ packet ∈ rows, packet.stream = none) ∧
      state.locals.cwpLast = rowAddresses base paths.length
  failed : results.getLast? = some false → ∃ address,
    some address ∈ state.locals.cwpLast ∧ ∀ packet ∈ state.queue, packet.address ≠ address

section Loop

variable {enqueue : Nat → Bool} {paths : List Nat} {max : Nat} {start state next : FillState υ}
  {results row : List Bool}

/-- Taking an entry out of the `OutputQueue` changes nothing of it. -/
theorem Enqueued.dequeue (henqueued : Enqueued paths start state results) (numDequeued : Nat)
    (rest : List (Option υ)) :
    Enqueued paths start
      { state with
        locals := { state.locals with numDequeued }
        outputQueue := rest } results :=
  ⟨henqueued.fresh, henqueued.numQueued, henqueued.added, henqueued.complete, henqueued.failed⟩

/-- Whether a row is complete or not, its packets are added without tags. -/
theorem Enqueued.added_append {update : υ} (henqueued : Enqueued paths start state results)
    (houtcome : RowOutcome update paths [] state next row)
    (hcount : row.count true ≤ paths.length) :
    ∃ added, next.queue = start.queue ++ added ∧ added.length = (results ++ row).count true ∧
      ∀ packet ∈ added, packet.stream = none := by
  obtain ⟨added, hstart, hadded, hnone⟩ := henqueued.added
  refine ⟨added ++ packetRow state.nextPacket update (paths.take (row.count true)), ?_, ?_, ?_⟩
  · rw [houtcome.queue, hstart, List.append_assoc]
  · rw [List.length_append, hadded, length_packetRow, List.length_take, List.count_append,
      Nat.min_eq_left hcount]
  · intro packet hmem
    rcases List.mem_append.mp hmem with hold | hrow
    · exact hnone packet hold
    · exact (mem_packetRow hrow).2.2.1

/-- After a complete row `cwp_last` points to its packets. -/
theorem Enqueued.append_complete {update : υ} (henqueued : Enqueued paths start state results)
    (hlength : state.locals.cwpLast.length = paths.length) (hfresh : next.Fresh)
    (houtcome : RowOutcome update paths [] state next row)
    (hcomplete : row = List.replicate paths.length true)
    (hlast : next.locals.cwpLast = rowAddresses state.nextPacket paths.length) :
    Enqueued paths start next (results ++ row) := by
  obtain ⟨added, hstart, -, hnone⟩ := henqueued.added
  have htrue : row.count true = paths.length := by rw [hcomplete, List.count_replicate_self]
  refine ⟨hfresh, ?_, henqueued.added_append houtcome (Nat.le_of_eq htrue), ?_, ?_⟩
  · rw [houtcome.numQueued, henqueued.numQueued, List.count_append]
  · intro _
    refine ⟨added, state.nextPacket, update, ?_, ?_, hnone, hlast⟩
    · rw [houtcome.queue, htrue, List.take_length, hstart]
    · rw [← hstart]
      exact henqueued.fresh
  · -- Without paths there are no pointers that could be left by a failure.
    intro hfalse
    cases hpaths : paths.length with
    | zero =>
        rw [hpaths, List.replicate_zero] at hcomplete
        rw [hcomplete, List.append_nil] at hfalse
        obtain ⟨address, hpointer, -⟩ := henqueued.failed hfalse
        rw [hpaths] at hlength
        rw [List.length_eq_zero_iff.mp hlength] at hpointer
        cases hpointer
    | succ count =>
        rw [hcomplete, hpaths, List.replicate_succ', ← List.append_assoc,
          List.getLast?_concat] at hfalse
        cases hfalse

/-- After a row that ends in a failure one of its pointers leads to the packet
that was refused. -/
theorem Enqueued.append_failed {update : υ} (henqueued : Enqueued paths start state results)
    (hfresh : next.Fresh) (houtcome : RowOutcome update paths [] state next row)
    (hcount : row.count true ≤ paths.length) (hfailed : row.getLast? = some false)
    (hpointer : some (state.nextPacket + row.count true) ∈ next.locals.cwpLast) :
    Enqueued paths start next (results ++ row) := by
  have hlast : (results ++ row).getLast? = some false := by
    rw [List.getLast?_append, hfailed]
    rfl
  refine ⟨hfresh, ?_, henqueued.added_append houtcome hcount, ?_, ?_⟩
  · rw [houtcome.numQueued, henqueued.numQueued, List.count_append]
  · intro htrue
    rw [hlast] at htrue
    cases htrue
  · refine fun _ => ⟨_, hpointer, fun packet hpacket => ?_⟩
    rw [houtcome.queue] at hpacket
    rcases List.mem_append.mp hpacket with hold | hrow
    · have hlt := henqueued.fresh packet hold
      omega
    · obtain ⟨-, -, -, -, hlt⟩ := mem_packetRow hrow
      rw [List.length_take, Nat.min_eq_left hcount] at hlt
      omega

theorem count_rowResults_le (enqueue : Nat → Bool) (pathCount address : Nat) :
    (rowResults enqueue pathCount address).count true ≤ pathCount := by
  induction pathCount generalizing address with
  | zero => exact Nat.le_refl 0
  | succ pathCount ih =>
      rw [rowResults]
      split
      · rw [List.count_cons_self]
        exact Nat.succ_le_succ (ih (address + 1))
      · exact Nat.zero_le _

/-- What one iteration does, with the results of its enqueues. -/
structure IterationOutcome (paths : List Nat) (max : Nat) (start state next : FillState υ)
    (results : List Bool) (entry : Option υ) (row : List Bool) : Prop where
  continues : state.locals.continues max paths.length
  outputQueue : state.outputQueue = entry :: next.outputQueue
  bufferSize : next.locals.bufferSize = state.locals.bufferSize
  numDequeued : next.locals.numDequeued = uint32Add state.locals.numDequeued 1
  numQueued : next.locals.numQueued = state.locals.numQueued + row.count true
  nextPacket : next.nextPacket = state.nextPacket + row.length
  enqueued : Enqueued paths start next (results ++ row)

theorem fillIteration_outcome (henqueued : Enqueued paths start state results)
    (hwell : state.locals.WellFormed max paths.length)
    (hiter : fillIteration enqueue paths max state = some next) :
    ∃ entry : Option υ, IterationOutcome paths max start state next results entry
      (if entry.isSome then rowResults enqueue paths.length state.nextPacket else []) := by
  have hfresh := fillIteration_fresh henqueued.fresh hiter
  unfold fillIteration at hiter
  split at hiter
  · rename_i hcontinues
    have hroom := hwell.room hcontinues
    have hmax := hwell.max_lt
    split at hiter
    · cases hiter
    · rename_i rest hqueue
      cases hiter
      refine ⟨none, hcontinues, hqueue, rfl, rfl, rfl, rfl, ?_⟩
      rw [if_neg (by simp), List.append_nil]
      exact henqueued.dequeue _ rest
    · rename_i update rest hqueue
      cases hiter
      have hmiddle := henqueued.dequeue (uint32Add state.locals.numDequeued 1) rest
      have houtcome := enqueueForPaths_outcome enqueue update paths [] state.locals.cwpLast
        { state with
          locals := { state.locals with numDequeued := uint32Add state.locals.numDequeued 1 }
          outputQueue := rest } rfl hwell.cwpLast_length (by simp only; omega)
      refine ⟨some update, hcontinues, ?_, houtcome.bufferSize, houtcome.numDequeued, ?_, ?_, ?_⟩
      · rw [enqueueForPaths_outputQueue]
        exact hqueue
      · exact houtcome.numQueued
      · exact houtcome.nextPacket
      · rcases houtcome.last with ⟨hcomplete, hlast⟩ | ⟨hfailed, hpointer⟩
        · exact hmiddle.append_complete hwell.cwpLast_length hfresh houtcome hcomplete hlast
        · exact hmiddle.append_failed hfresh houtcome (count_rowResults_le _ _ _) hfailed hpointer
  · cases hiter

/-- The loop is left where the results end. -/
theorem enqueueResults_of_stop (hstop : fillIteration enqueue paths max state = none) :
    enqueueResults enqueue paths.length max state.locals.bufferSize state.outputQueue
      state.locals.numDequeued state.locals.numQueued state.nextPacket = [] := by
  unfold fillIteration at hstop
  split at hstop
  · split at hstop
    · rename_i hnil
      rw [hnil, enqueueResults]
    · cases hstop
    · cases hstop
  · rename_i hnot
    cases hqueue : state.outputQueue with
    | nil => rw [enqueueResults]
    | cons entry rest =>
        rw [enqueueResults]
        exact if_neg hnot

/-- What holds at the end of the loop. -/
theorem fillLoop_enqueued (henqueued : Enqueued paths start state results)
    (hwell : state.locals.WellFormed max paths.length) :
    Enqueued paths start (fillLoop enqueue paths max state)
      (results ++ enqueueResults enqueue paths.length max state.locals.bufferSize
        state.outputQueue state.locals.numDequeued state.locals.numQueued state.nextPacket) := by
  fun_induction fillLoop enqueue paths max state generalizing results with
  | case1 state hstop =>
      rw [enqueueResults_of_stop hstop, List.append_nil]
      exact henqueued
  | case2 state next hiter ih =>
      obtain ⟨entry, houtcome⟩ := fillIteration_outcome henqueued hwell hiter
      obtain ⟨-, -, -, -, -, hnext⟩ := fillIteration_appends hwell hiter
      have hrest := ih houtcome.enqueued hnext
      rw [houtcome.bufferSize, houtcome.numDequeued, houtcome.numQueued, houtcome.nextPacket,
        List.append_assoc] at hrest
      obtain ⟨hannounced, hspace⟩ := houtcome.continues
      rw [houtcome.outputQueue, enqueueResults, if_pos ⟨hannounced, hspace⟩]
      exact hrest

end Loop

section Transit

/-- Each packet that is tagged is counted out once. -/
theorem destroyPackets_apply (packets : List (ConversionWorkPacket υ)) (transit : Nat → Nat)
    (path : Nat) :
    destroyPackets packets transit path =
      transit path - packets.countP fun packet => packet.stream.isSome ∧ packet.path = path := by
  induction packets generalizing transit with
  | nil => rfl
  | cons packet packets ih =>
      have hrest : destroyPackets (packet :: packets) transit =
          destroyPackets packets (packet.destroy transit) := rfl
      rw [hrest, ih, List.countP_cons]
      unfold ConversionWorkPacket.destroy
      cases hstream : packet.stream with
      | none => simp
      | some self =>
          by_cases hpath : path = packet.path
          · simp [hpath]
            omega
          · simp [hpath, Ne.symm hpath]

theorem destroyPackets_of_untagged {packets : List (ConversionWorkPacket υ)}
    (hnone : ∀ packet ∈ packets, packet.stream = none) (transit : Nat → Nat) :
    destroyPackets packets transit = transit := by
  funext path
  rw [destroyPackets_apply, List.countP_eq_zero.mpr, Nat.sub_zero]
  intro packet hpacket
  simp [hnone packet hpacket]

theorem taggedCount_of_untagged {packets : List (ConversionWorkPacket υ)} {self path : Nat}
    (hnone : ∀ packet ∈ packets, packet.stream = none) : taggedCount self path packets = 0 := by
  refine List.countP_eq_zero.mpr fun packet hpacket => ?_
  simp [hnone packet hpacket]

/-- A row whose packets are all tagged has one for each path. -/
theorem countP_tagged_row {base self path : Nat} {update : υ} {paths : List Nat}
    {counts : ConversionWorkPacket υ → Bool}
    (hcounts : ∀ packet, packet.stream = some self → counts packet = decide (packet.path = path)) :
    ((packetRow base update paths).map fun packet =>
      { packet with stream := some self }).countP counts = paths.count path := by
  induction paths generalizing base with
  | nil => rfl
  | cons first paths ih =>
      rw [packetRow, List.map_cons, List.countP_cons, ih, List.count_cons, hcounts _ rfl]
      simp

end Transit

/-- The results of the enqueues of a call. -/
def callResults (enqueue : Nat → Bool) (sizeApprox max : Nat) (stream : StreamQueue υ)
    (work : WorkQueue υ) : List Bool :=
  enqueueResults enqueue stream.conversionPaths.length max sizeApprox stream.outputQueue 0 0
    work.nextPacket

section Call

variable {enqueue : Nat → Bool} {sizeApprox max : Nat} {stream : StreamQueue υ}
  {work : WorkQueue υ} {final : FillState υ} {filled : Filled υ} {results : List Bool}

/-- The end of the loop, from its beginning. -/
theorem fillLoop_callResults (sizeApprox : Nat) (stream : StreamQueue υ) (work : WorkQueue υ)
    (hmax : max < 2 ^ 32) :
    Enqueued stream.conversionPaths (enterFill sizeApprox stream work)
      (fillLoop enqueue stream.conversionPaths max (enterFill sizeApprox stream work))
      (callResults enqueue sizeApprox max stream work) := by
  have hstart : Enqueued stream.conversionPaths (enterFill sizeApprox stream work)
      (enterFill sizeApprox stream work) [] := by
    refine ⟨work.fresh, rfl, ⟨[], (List.append_nil _).symm, rfl, by simp⟩, ?_, ?_⟩
    · rintro ⟨⟩
    · rintro ⟨⟩
  exact fillLoop_enqueued hstart (enterFill_wellFormed sizeApprox stream work hmax)

theorem Enqueued.pointersValid {paths : List Nat} {start : FillState υ}
    (henqueued : Enqueued paths start final results) (hlast : results.getLast? = some true) :
    PointersValid final.locals.cwpLast final.queue := by
  obtain ⟨rows, base, update, hqueue, -, -, hpointers⟩ := henqueued.complete hlast
  intro pointer hpointer
  rw [hpointers, ← packetRow_map_address base update] at hpointer
  rw [hqueue, List.map_append]
  exact List.mem_append_right _ hpointer

theorem Enqueued.not_pointersValid {paths : List Nat} {start : FillState υ}
    (henqueued : Enqueued paths start final results) (hlast : results.getLast? = some false) :
    ¬ PointersValid final.locals.cwpLast final.queue := by
  obtain ⟨address, hpointer, hmissing⟩ := henqueued.failed hlast
  intro hvalid
  obtain ⟨packet, hpacket, haddress⟩ := List.mem_map.mp (hvalid _ hpointer)
  exact hmissing packet hpacket (Option.some.inj haddress)

/-- A packet has been queued and the last one was refused: a tag would be
written to a packet that is gone. -/
theorem fillConversionQueue_eq_none (hmax : max < 2 ^ 32)
    (hlast : (callResults enqueue sizeApprox max stream work).getLast? = some false)
    (htrue : true ∈ callResults enqueue sizeApprox max stream work) :
    fillConversionQueue enqueue sizeApprox max stream work = none := by
  have henqueued := @fillLoop_callResults _ enqueue max sizeApprox stream work hmax
  have hpositive : 0 < (fillLoop enqueue stream.conversionPaths max
      (enterFill sizeApprox stream work)).locals.numQueued := by
    rw [henqueued.numQueued]
    exact List.count_pos_iff.mpr htrue
  rw [fillConversionQueue, if_pos hpositive, if_neg (henqueued.not_pointersValid hlast)]

theorem getLast?_eq_some_true (htrue : true ∈ results)
    (hcondition : results.getLast? = some false → true ∉ results) :
    results.getLast? = some true := by
  cases hlast : results.getLast? with
  | none =>
      rw [List.getLast?_eq_none_iff.mp hlast] at htrue
      cases htrue
  | some result =>
      cases result with
      | true => rfl
      | false => exact absurd htrue (hcondition hlast)

/-- Nothing has been queued. -/
theorem balanced_of_zero
    (henqueued : Enqueued stream.conversionPaths (enterFill sizeApprox stream work) final results)
    (hfilled : FilledFrom stream work final filled) (hzero : results.count true = 0) :
    TransitBalanced stream work filled [] := by
  have hnot : ¬ 0 < final.locals.numQueued := by rw [henqueued.numQueued, hzero]; decide
  obtain ⟨added, hqueue, hlength, -⟩ := henqueued.added
  rw [hzero, List.length_eq_zero_iff] at hlength
  refine ⟨?_, ?_, ?_⟩
  · rw [hfilled.queue, if_neg hnot, hqueue, hlength]
    rfl
  · intro path
    rw [hfilled.transit, if_neg hnot]
    rfl
  · rw [hfilled.transit, if_neg hnot]
    rfl

/-- The last enqueue has succeeded: the row it ends is tagged. -/
theorem balanced_of_complete
    (henqueued : Enqueued stream.conversionPaths (enterFill sizeApprox stream work) final results)
    (hfilled : FilledFrom stream work final filled) (hpositive : 0 < results.count true)
    (hlast : results.getLast? = some true) :
    ∃ appended, TransitBalanced stream work filled appended := by
  obtain ⟨rows, base, update, hqueue, hold, hnone, hpointers⟩ := henqueued.complete hlast
  rw [← henqueued.numQueued] at hpositive
  refine ⟨rows ++ (packetRow base update stream.conversionPaths).map
    fun packet => { packet with stream := some stream.address }, ?_, ?_, ?_⟩
  · rw [hfilled.queue, if_pos hpositive, hpointers, hqueue, tagLast_rowAddresses _ hold,
      List.append_assoc]
    rfl
  · intro path
    have hrows := @taggedCount_of_untagged _ rows stream.address path hnone
    rw [hfilled.transit, if_pos hpositive, raiseTransit, taggedCount, List.countP_append,
      countP_tagged_row]
    · rw [taggedCount] at hrows
      rw [hrows, Nat.zero_add]
    · intro packet hstream
      simp [hstream]
  · funext path
    rw [destroyPackets, List.foldl_append]
    change destroyPackets _ (destroyPackets rows filled.work.transit) path = _
    rw [destroyPackets_of_untagged hnone, destroyPackets_apply,
      countP_tagged_row, hfilled.transit, if_pos hpositive, raiseTransit,
      Nat.add_sub_cancel]
    intro packet hstream
    simp [hstream]

end Call

/-- The tags can be written and the counters balance exactly if the last
enqueue of the call succeeds or none does. -/
theorem transitBalanced_iff (enqueue : Nat → Bool) (sizeApprox max : Nat)
    (stream : StreamQueue υ) (work : WorkQueue υ) (hmax : max < 2 ^ 32) :
    (∃ filled appended, fillConversionQueue enqueue sizeApprox max stream work = some filled ∧
      TransitBalanced stream work filled appended) ↔
    ((callResults enqueue sizeApprox max stream work).getLast? = some false →
      true ∉ callResults enqueue sizeApprox max stream work) := by
  have henqueued := @fillLoop_callResults _ enqueue max sizeApprox stream work hmax
  constructor
  · rintro ⟨filled, appended, hfilled, -⟩ hlast htrue
    rw [fillConversionQueue_eq_none hmax hlast htrue] at hfilled
    cases hfilled
  · intro hcondition
    by_cases htrue : true ∈ callResults enqueue sizeApprox max stream work
    · have hlast := getLast?_eq_some_true htrue hcondition
      obtain ⟨filled, hfilled⟩ := @fillConversionQueue_isSome _ enqueue sizeApprox max stream work
        _ rfl fun _ => henqueued.pointersValid hlast
      obtain ⟨appended, hbalanced⟩ := balanced_of_complete henqueued
        (fillConversionQueue_eq_some hfilled) (List.count_pos_iff.mpr htrue) hlast
      exact ⟨filled, appended, hfilled, hbalanced⟩
    · have hzero := List.count_eq_zero.mpr htrue
      obtain ⟨filled, hfilled⟩ := @fillConversionQueue_isSome _ enqueue sizeApprox max stream work
        _ rfl fun hpositive => by
          rw [henqueued.numQueued, hzero] at hpositive
          cases hpositive
      exact ⟨filled, [], hfilled,
        balanced_of_zero henqueued (fillConversionQueue_eq_some hfilled) hzero⟩

/-- Two updates for two paths. -/
def twoUpdates : StreamQueue String :=
  { threeUpdates with outputQueue := [some "a", some "b"] }

/-- The second enqueue fails, and the next update is queued for both paths. -/
theorem failure_made_good :
    ∃ filled appended,
      fillConversionQueue (fun address => address != 1) 2 10 twoUpdates emptyWork = some filled ∧
        TransitBalanced twoUpdates emptyWork filled appended := by
  refine (transitBalanced_iff _ 2 10 twoUpdates emptyWork (by decide)).mpr fun hlast => ?_
  revert hlast
  decide

/-- The second enqueue of the only update announced fails: the call is
undefined. -/
theorem failure_left_dangling :
    fillConversionQueue (fun address => address != 1) 1 10 twoUpdates emptyWork = none ∧
      ¬ ∃ filled appended,
        fillConversionQueue (fun address => address != 1) 1 10 twoUpdates emptyWork =
          some filled ∧ TransitBalanced twoUpdates emptyWork filled appended := by
  have hnone : fillConversionQueue (fun address => address != 1) 1 10 twoUpdates emptyWork =
      none := fillConversionQueue_eq_none (by decide) (by decide) (by decide)
  refine ⟨hnone, ?_⟩
  rintro ⟨filled, appended, hfilled, -⟩
  rw [hnone] at hfilled
  cases hfilled

end EpicsToKafka
