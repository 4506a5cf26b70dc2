/-
The transit counters.  A counter counts batches, not packets: only the last
packet of a path in a `fillConversionQueue` call carries a stream pointer.
Outside a fill every queue is nevertheless covered, each untagged packet by a
tagged one of its path behind it, so a counter at zero means that no packet
of the path is left.
-/
import EpicsToKafka.ConversionLifetimes

namespace EpicsToKafka

open Threads

variable {n m : Nat} {cfg : Config} {s s' : State n m} {w : Fin n} {c : Fin m}

namespace ConversionWorkPacket

variable {υ : Type}

def isFor (path : Nat) (packet : ConversionWorkPacket υ) : Bool :=
  packet.path = path

/-- The packet carries a stream pointer. -/
def tagged (packet : ConversionWorkPacket υ) : Bool :=
  packet.stream.isSome

/-- The packet counts in the transit counter of the path. -/
def counts (path : Nat) (packet : ConversionWorkPacket υ) : Bool :=
  packet.isFor path && packet.tagged

end ConversionWorkPacket

open ConversionWorkPacket

/-- The packet a worker is emitting. -/
def WorkerPc.inHand : WorkerPc → List Packet
  | .emitting packet => [packet]
  | _ => []

/-- The `fillConversionQueue` call a worker is in. -/
def WorkerPc.openBatch : WorkerPc → Option (FillFrame × Nat × FillLocals)
  | .filling frame stream locals => some (frame, stream, locals)
  | _ => none

/-- Packets of worker `w` that are queued or being emitted. -/
def State.outstanding (s : State n m) (w : Fin n) : List Packet :=
  (s.pc w).inHand ++ s.queue w

/-- The queue while a batch for the given paths is open: covered if nothing
has been queued yet, else ending in the row that `cwp_last` points to. -/
structure OpenBatch (queue : List Packet) (paths : List Nat)
    (locals : FillLocals) : Prop where
  untouched : locals.numQueued = 0 →
    ∀ path, Covered (isFor path) tagged queue
  pending : 0 < locals.numQueued → ∃ old base entry,
    queue = old ++ packetRow base entry paths ∧
      locals.cwpLast = rowAddresses base paths.length ∧
      (∀ packet ∈ old, packet.address < base) ∧
      ∀ path, path ∉ paths → Covered (isFor path) tagged old

/-- The invariant of the transit counters. -/
structure TransitOk (cfg : Config) (s : State n m) : Prop where
  locals : ∀ w frame stream locals,
    (s.pc w).openBatch = some (frame, stream, locals) →
      locals.WellFormed (uint32Sub cfg.nfm frame.nfc)
        (s.heap stream).conversionPaths.length
  covered : ∀ w, (s.pc w).openBatch = none →
    ∀ path, Covered (isFor path) tagged (s.outstanding w)
  batch : ∀ w frame stream locals,
    (s.pc w).openBatch = some (frame, stream, locals) →
      OpenBatch (s.queue w) (s.heap stream).conversionPaths locals
  allocated : ∀ w, ∀ packet ∈ s.outstanding w,
    packet.address < s.nextPacket ∧ packet.path < s.nextPath
  count : ∀ path, s.transit path = total s.outstanding (counts path)

theorem packetRow_no_hit {base path : Nat} {entry : Entry} {paths : List Nat}
    (hpath : path ∉ paths) :
    ∀ packet ∈ packetRow base entry paths, packet.isFor path = false := by
  intro packet hpacket
  obtain ⟨-, hmem, -⟩ := mem_packetRow hpacket
  simp only [isFor, decide_eq_false_iff_not]
  exact fun heq => hpath (heq ▸ hmem)

/-- Packets are queued untagged. -/
theorem packetRow_countP_counts (base path : Nat) (entry : Entry)
    (paths : List Nat) : (packetRow base entry paths).countP (counts path) = 0 := by
  rw [List.countP_eq_zero]
  intro packet hpacket
  obtain ⟨-, -, hnone, -⟩ := mem_packetRow hpacket
  simp [counts, tagged, hnone]

namespace OpenBatch

variable {queue : List Packet} {paths : List Nat} {locals : FillLocals}

/-- An open batch does not disturb the paths of other streams. -/
theorem covered_other (hbatch : OpenBatch queue paths locals) {path : Nat}
    (hpath : path ∉ paths) : Covered (isFor path) tagged queue := by
  rcases Nat.eq_zero_or_pos locals.numQueued with hzero | hpos
  · exact hbatch.untouched hzero path
  · obtain ⟨old, base, entry, rfl, -, -, hold⟩ := hbatch.pending hpos
    exact (hold path hpath).append (.of_no_hit (packetRow_no_hit hpath))

theorem enter {sizeApprox : Nat}
    (hcovered : ∀ path, Covered (isFor path) tagged queue) :
    OpenBatch queue paths (.enter sizeApprox paths.length) where
  untouched _ := hcovered
  pending hpos := absurd hpos (Nat.lt_irrefl 0)

/-- One more update on every path: the old batch moves behind the new row. -/
theorem addRow (hbatch : OpenBatch queue paths locals) {base numDequeued : Nat}
    {entry : Entry} (hfresh : ∀ packet ∈ queue, packet.address < base) :
    OpenBatch (queue ++ packetRow base entry paths) paths
      { locals with
        numDequeued := numDequeued
        numQueued := locals.numQueued + paths.length
        cwpLast := rowAddresses base paths.length } where
  untouched hzero path := by
    simp only at hzero
    have hempty : paths = [] := List.length_eq_zero_iff.mp (by omega)
    subst hempty
    simpa [packetRow] using hbatch.untouched (by omega) path
  pending _ :=
    ⟨queue, base, entry, rfl, rfl, hfresh, fun _ hpath => hbatch.covered_other hpath⟩

/-- Tagging the last row closes the batch. -/
theorem close (hbatch : OpenBatch queue paths locals) (stream : Nat)
    (hpos : 0 < locals.numQueued) (path : Nat) :
    Covered (isFor path) tagged (tagLast stream locals.cwpLast queue) ∧
      (tagLast stream locals.cwpLast queue).countP (counts path) =
        queue.countP (counts path) + paths.count path := by
  obtain ⟨old, base, entry, rfl, hlast, hfresh, hold⟩ := hbatch.pending hpos
  rw [hlast, tagLast_rowAddresses stream hfresh]
  constructor
  · by_cases hpath : path ∈ paths
    · apply Covered.append_of_tagged
      · apply Covered.of_all_tagged
        simp [tagged]
      · rw [← packetRow_map_path base entry paths] at hpath
        obtain ⟨packet, hpacket, rfl⟩ := List.mem_map.mp hpath
        refine ⟨_, List.mem_map_of_mem hpacket, ?_, rfl⟩
        simp [isFor]
    · apply (hold path hpath).append
      apply Covered.of_no_hit
      intro packet hpacket
      obtain ⟨row, hrow, rfl⟩ := List.mem_map.mp hpacket
      exact packetRow_no_hit hpath row hrow
  · have htagged : ((packetRow base entry paths).map
        fun packet => { packet with stream := some stream }).countP
          (counts path) = paths.count path := by
      nth_rewrite 2 [← packetRow_map_path base entry paths]
      rw [List.countP_map, List.count, List.countP_map]
      apply List.countP_congr
      intro packet _
      simp [counts, isFor, tagged]
    rw [List.countP_append, List.countP_append, packetRow_countP_counts, htagged]
    omega

end OpenBatch

theorem WorkerFrame.outstanding (hframe : WorkerFrame s w s') :
    s'.outstanding = Function.update s.outstanding w (s'.outstanding w) := by
  funext v
  by_cases hv : v = w
  · subst hv; simp
  · simp [hv, State.outstanding, hframe.pc v hv, hframe.queue v hv]

theorem CallerFrame.outstanding (hframe : CallerFrame s c s') :
    s'.outstanding = s.outstanding := by
  funext v
  simp [State.outstanding, hframe.pc, hframe.queue]

/-- Outside `emit` the outstanding packets are the queued ones. -/
theorem State.outstanding_eq_queue (hhand : (s.pc w).inHand = []) :
    s.outstanding w = s.queue w := by
  rw [State.outstanding, hhand, List.nil_append]

theorem State.outstanding_congr (hhand : (s'.pc w).inHand = (s.pc w).inHand)
    (hqueue : s'.queue w = s.queue w) : s'.outstanding w = s.outstanding w := by
  rw [State.outstanding, State.outstanding, hhand, hqueue]

namespace TransitOk

theorem initial (cursor : Nat) : TransitOk cfg (State.initial n m cursor) where
  locals _ _ _ _ hopen := by cases hopen
  covered _ _ _ := trivial
  batch _ _ _ _ hopen := by cases hopen
  allocated _ _ hpacket := by cases hpacket
  count path := by
    simp [State.initial, State.outstanding, WorkerPc.inHand, total]

/-- A worker's move is judged by what it does to that worker's packets. -/
theorem workerUpdate (htransit : TransitOk cfg s) (hframe : WorkerFrame s w s')
    (hopened : ∀ frame stream locals,
      (s'.pc w).openBatch = some (frame, stream, locals) →
        locals.WellFormed (uint32Sub cfg.nfm frame.nfc)
            (s.heap stream).conversionPaths.length ∧
          OpenBatch (s'.queue w) (s.heap stream).conversionPaths locals)
    (hcovered : (s'.pc w).openBatch = none →
      ∀ path, Covered (isFor path) tagged (s'.outstanding w))
    (hnext : s.nextPacket ≤ s'.nextPacket)
    (hallocated : ∀ packet ∈ s'.outstanding w,
      packet.address < s'.nextPacket ∧ packet.path < s.nextPath)
    (hcount : ∀ path,
      s'.transit path + (s.outstanding w).countP (counts path) =
        s.transit path + (s'.outstanding w).countP (counts path)) :
    TransitOk cfg s' := by
  have hother : ∀ v, v ≠ w → s'.outstanding v = s.outstanding v := by
    intro v hv
    rw [hframe.outstanding, Function.update_of_ne hv]
  refine ⟨?_, ?_, ?_, ?_, ?_⟩
  · intro v frame stream locals hopen
    rw [hframe.conversionPaths]
    by_cases hv : v = w
    · subst hv
      exact (hopened frame stream locals hopen).1
    · rw [hframe.pc v hv] at hopen
      exact htransit.locals v frame stream locals hopen
  · intro v hopen
    by_cases hv : v = w
    · subst hv
      exact hcovered hopen
    · rw [hother v hv]
      exact htransit.covered v (by rwa [hframe.pc v hv] at hopen)
  · intro v frame stream locals hopen
    rw [hframe.conversionPaths]
    by_cases hv : v = w
    · subst hv
      exact (hopened frame stream locals hopen).2
    · rw [hframe.pc v hv] at hopen
      rw [hframe.queue v hv]
      exact htransit.batch v frame stream locals hopen
  · intro v packet hpacket
    rw [hframe.nextPath]
    by_cases hv : v = w
    · subst hv
      exact hallocated packet hpacket
    · rw [hother v hv] at hpacket
      obtain ⟨haddress, hpath⟩ := htransit.allocated v packet hpacket
      exact ⟨Nat.lt_of_lt_of_le haddress hnext, hpath⟩
  · intro path
    have htotal := total_update s.outstanding (counts path) w (s'.outstanding w)
    have hlocal := hcount path
    rw [← hframe.outstanding] at htotal
    rw [htransit.count path] at hlocal
    omega

/-- A worker's move that touches no packet, between program counters outside
`fillConversionQueue`. -/
theorem workerKeeps (htransit : TransitOk cfg s) (hframe : WorkerFrame s w s')
    (hbefore : (s.pc w).openBatch = none) (hafter : (s'.pc w).openBatch = none)
    (hout : s'.outstanding w = s.outstanding w) (hmoved : s'.transit = s.transit)
    (hnext : s'.nextPacket = s.nextPacket) : TransitOk cfg s' := by
  apply htransit.workerUpdate hframe
  · intro frame stream locals hopen
    rw [hafter] at hopen
    cases hopen
  · intro _
    rw [hout]
    exact htransit.covered w hbefore
  · rw [hnext]
  · rw [hout, hnext]
    exact htransit.allocated w
  · intro path
    rw [hout, hmoved]

theorem visit (htransit : TransitOk cfg s) {frame next : FillFrame}
    {stream sizeApprox : Nat} (hpc : s.pc w = .index frame) :
    TransitOk cfg (s.setPc w (.filling next stream
      (.enter sizeApprox (s.heap stream).conversionPaths.length))) := by
  have hbefore : s.outstanding w = s.queue w :=
    State.outstanding_eq_queue (by rw [hpc]; rfl)
  have hafter : (s.setPc w (.filling next stream
      (.enter sizeApprox (s.heap stream).conversionPaths.length))).outstanding w =
      s.queue w :=
    State.outstanding_eq_queue (by rw [State.setPc_pc_self]; rfl)
  apply htransit.workerUpdate (.setPc s w _)
  · intro opened held locals hopen
    simp only [State.setPc_pc_self, WorkerPc.openBatch, Option.some.injEq,
      Prod.mk.injEq] at hopen
    obtain ⟨rfl, rfl, rfl⟩ := hopen
    refine ⟨FillLocals.enter_wellFormed _ _ (uint32Sub_lt _ _), .enter ?_⟩
    intro path
    have hcovered := htransit.covered w (by rw [hpc]; rfl) path
    rwa [hbefore] at hcovered
  · intro hopen
    rw [State.setPc_pc_self] at hopen
    cases hopen
  · exact Nat.le_refl _
  · rw [hafter, ← hbefore]
    exact htransit.allocated w
  · intro path
    rw [hafter, hbefore]
    rfl

theorem iterate (htransit : TransitOk cfg s) (halloc : AllocOk s)
    {frame : FillFrame} {stream : Nat} {locals : FillLocals}
    {next : FillState Entry} (hpc : s.pc w = .filling frame stream locals)
    (hiter : fillIteration (fun _ => true) (s.heap stream).conversionPaths
      (uint32Sub cfg.nfm frame.nfc) (s.fillState w stream locals) = some next) :
    TransitOk cfg (s.afterIteration w frame stream next) := by
  have hopen : (s.pc w).openBatch = some (frame, stream, locals) := by
    rw [hpc]; rfl
  have hwell := htransit.locals w frame stream locals hopen
  have hbatch := htransit.batch w frame stream locals hopen
  have hbefore : s.outstanding w = s.queue w :=
    State.outstanding_eq_queue (by rw [hpc]; rfl)
  have hallocated := htransit.allocated w
  rw [hbefore] at hallocated
  have hafter : (s.afterIteration w frame stream next).outstanding w = next.queue := by
    rw [State.outstanding_eq_queue (by simp [WorkerPc.inHand])]
    simp [State.afterIteration]
  -- what the iteration did to the queue, whichever way it went
  have hdone : next.locals.WellFormed (uint32Sub cfg.nfm frame.nfc)
        (s.heap stream).conversionPaths.length ∧
      OpenBatch next.queue (s.heap stream).conversionPaths next.locals ∧
      s.nextPacket ≤ next.nextPacket ∧
      (∀ packet ∈ next.queue,
        packet.address < next.nextPacket ∧ packet.path < s.nextPath) ∧
      ∀ path, next.queue.countP (counts path) = (s.queue w).countP (counts path) := by
    obtain ⟨hcontinues, hnull | hrow⟩ := fillIteration_success hwell hiter
    · obtain ⟨rest, -, rfl⟩ := hnull
      exact ⟨FillState.afterNull_wellFormed hwell,
        ⟨hbatch.untouched, hbatch.pending⟩, Nat.le_refl _, hallocated, fun _ => rfl⟩
    · obtain ⟨entry, rest, -, rfl⟩ := hrow
      refine ⟨FillState.afterRow_wellFormed hwell hcontinues,
        hbatch.addRow fun packet hpacket => (hallocated packet hpacket).1,
        Nat.le_add_right _ _, ?_, ?_⟩
      · intro packet hpacket
        rcases List.mem_append.mp hpacket with hold | hnew
        · obtain ⟨haddress, hpath⟩ := hallocated packet hold
          exact ⟨Nat.lt_of_lt_of_le haddress (Nat.le_add_right _ _), hpath⟩
        · obtain ⟨-, hpath, -, -, haddress⟩ := mem_packetRow hnew
          exact ⟨haddress, halloc.paths_lt stream _ hpath⟩
      · intro path
        change (s.queue w ++ packetRow s.nextPacket entry _).countP (counts path) = _
        rw [List.countP_append, packetRow_countP_counts, Nat.add_zero]
  obtain ⟨hwell', hbatch', hnext, hallocated', hcount⟩ := hdone
  apply htransit.workerUpdate (.afterIteration s w frame stream next)
  · intro opened held changed hopened
    simp only [State.afterIteration_pc, State.setPc_pc_self, WorkerPc.openBatch,
      Option.some.injEq, Prod.mk.injEq] at hopened
    obtain ⟨rfl, rfl, rfl⟩ := hopened
    refine ⟨hwell', ?_⟩
    simpa [State.afterIteration] using hbatch'
  · intro hclosed
    simp [WorkerPc.openBatch] at hclosed
  · exact hnext
  · rw [hafter]
    exact hallocated'
  · intro path
    rw [hafter, hbefore, hcount]
    rfl

theorem closeBatch (htransit : TransitOk cfg s) {frame : FillFrame}
    {stream : Nat} {locals : FillLocals}
    (hpc : s.pc w = .filling frame stream locals) :
    TransitOk cfg (s.closeBatch w frame stream locals) := by
  have hopen : (s.pc w).openBatch = some (frame, stream, locals) := by
    rw [hpc]; rfl
  have hbatch := htransit.batch w frame stream locals hopen
  have hbefore : s.outstanding w = s.queue w :=
    State.outstanding_eq_queue (by rw [hpc]; rfl)
  have hallocated := htransit.allocated w
  have hmove : WorkerMove cfg s w (s.closeBatch w frame stream locals) :=
    .closeBatch hpc
  have hclosed : ∀ opened held changed,
      ((s.closeBatch w frame stream locals).pc w).openBatch ≠
        some (opened, held, changed) := by
    simp [WorkerPc.openBatch]
  have hafter : (s.closeBatch w frame stream locals).outstanding w =
      (s.closeBatch w frame stream locals).queue w :=
    State.outstanding_eq_queue (by simp [WorkerPc.inHand])
  rw [hbefore] at hallocated
  by_cases hpos : 0 < locals.numQueued
  · have hqueue : (s.closeBatch w frame stream locals).queue w =
        tagLast stream locals.cwpLast (s.queue w) := by
      simp [State.closeBatch, hpos]
    have hraised : (s.closeBatch w frame stream locals).transit =
        raiseTransit (s.heap stream).conversionPaths s.transit := by
      simp [State.closeBatch, hpos]
    have hnext : (s.closeBatch w frame stream locals).nextPacket = s.nextPacket := by
      simp [State.closeBatch, hpos, State.setPc]
    apply htransit.workerUpdate hmove.frame
    · intro opened held changed hopened
      exact absurd hopened (hclosed opened held changed)
    · intro _ path
      rw [hafter, hqueue]
      exact (hbatch.close stream hpos path).1
    · exact Nat.le_of_eq hnext.symm
    · rw [hafter, hqueue, hnext]
      intro packet hpacket
      obtain ⟨old, hold, rfl⟩ := List.mem_map.mp hpacket
      have hold' := hallocated old hold
      split
      · exact hold'
      · exact hold'
    · intro path
      rw [hafter, hqueue, hbefore, hraised, (hbatch.close stream hpos path).2,
        raiseTransit]
      omega
  · have hsame : s.closeBatch w frame stream locals =
        s.setPc w (.release frame stream locals.numQueued) := by
      simp [State.closeBatch, hpos]
    rw [hsame] at hafter ⊢
    apply htransit.workerUpdate (.setPc s w _)
    · intro opened held changed hopened
      exact absurd (hsame ▸ hopened) (hclosed opened held changed)
    · intro _ path
      rw [hafter]
      exact hbatch.untouched (by omega) path
    · exact Nat.le_refl _
    · rw [hafter]
      exact hallocated
    · intro path
      rw [hafter, hbefore]
      rfl

theorem emit (htransit : TransitOk cfg s) {packet : Packet} {rest : List Packet}
    (hpc : s.pc w = .drain) (hqueue : s.queue w = packet :: rest)
    (hframe : WorkerFrame s w s') (hafterPc : s'.pc w = .emitting packet)
    (hafterQueue : s'.queue w = rest) (hmoved : s'.transit = s.transit)
    (hnext : s'.nextPacket = s.nextPacket) : TransitOk cfg s' := by
  apply htransit.workerKeeps hframe
  · rw [hpc]; rfl
  · rw [hafterPc]; rfl
  · rw [State.outstanding, State.outstanding, hafterPc, hafterQueue, hpc, hqueue]
    rfl
  · exact hmoved
  · exact hnext

theorem destroyPacket (htransit : TransitOk cfg s) {packet : Packet}
    (hpc : s.pc w = .emitting packet) :
    TransitOk cfg ((s.setPc w .drain).destroyPacket packet) := by
  have hmove : WorkerMove cfg s w ((s.setPc w .drain).destroyPacket packet) :=
    .destroyPacket hpc
  have hbefore : s.outstanding w = packet :: s.queue w := by
    rw [State.outstanding, hpc]; rfl
  have hafter : ((s.setPc w .drain).destroyPacket packet).outstanding w =
      s.queue w := by
    rw [State.outstanding_eq_queue (by simp [WorkerPc.inHand])]
    unfold State.destroyPacket
    split <;> rfl
  have hnext : ((s.setPc w .drain).destroyPacket packet).nextPacket =
      s.nextPacket := by
    unfold State.destroyPacket
    split <;> rfl
  have hcovered := htransit.covered w (by rw [hpc]; rfl)
  have hallocated := htransit.allocated w
  rw [hbefore] at hcovered hallocated
  apply htransit.workerUpdate hmove.frame
  · intro opened held changed hopened
    simp [WorkerPc.openBatch] at hopened
  · intro _ path
    rw [hafter]
    exact (hcovered path).2
  · exact Nat.le_of_eq hnext.symm
  · rw [hafter, hnext]
    exact fun other hother => hallocated other (List.mem_cons_of_mem packet hother)
  · intro path
    rw [hafter, hbefore, List.countP_cons]
    cases htag : packet.stream with
    | none =>
        simp [State.destroyPacket, htag, counts, tagged, State.setPc]
    | some stream =>
        simp only [State.destroyPacket, htag, counts, tagged, isFor,
          Option.isSome_some, Bool.and_true, decide_eq_true_eq]
        by_cases hpath : packet.path = path
        · subst hpath
          -- the packet itself is counted, so the decrement does not truncate
          have hpositive : 0 < s.transit packet.path := by
            rw [htransit.count packet.path]
            apply Nat.lt_of_lt_of_le _ (countP_le_total s.outstanding _ w)
            rw [hbefore, List.countP_cons]
            simp [counts, isFor, tagged, htag]
          simp [State.setPc]
          omega
        · simp [hpath, Ne.symm hpath, State.setPc]

theorem workerMove (htransit : TransitOk cfg s) (halloc : AllocOk s)
    (hmove : WorkerMove cfg s w s') : TransitOk cfg s' := by
  have hframe := hmove.frame
  cases hmove with
  | visit hpc _ _ => exact htransit.visit hpc
  | iterate hpc hiter => exact htransit.iterate halloc hpc hiter
  | closeBatch hpc => exact htransit.closeBatch hpc
  | emit hpc hqueue =>
      exact htransit.emit hpc hqueue hframe (by simp) (by simp) rfl rfl
  | destroyPacket hpc => exact htransit.destroyPacket hpc
  | outOfRange hpc _ _ =>
      have hopen : (s.pc w).openBatch = none := by rw [hpc]; rfl
      exact htransit.workerKeeps hframe hopen hopen rfl rfl rfl
  | exit hpc _ | callFill hpc _ _ | skipFill hpc _ | lockMx hpc _
  | noStreams hpc _ _ | someStreams hpc _ _ | lockStreams hpc _
  | enterLoop hpc _ _ | lastOwner hpc _ | notLastOwner hpc
  | pathDestroyed hpc _ | streamDestroyed hpc | again hpc _ _ _
  | drained hpc _ =>
      exact htransit.workerKeeps hframe (by rw [hpc]; rfl)
        (by rw [State.setPc_pc_self]; rfl)
        (State.outstanding_congr (by rw [hpc, State.setPc_pc_self]; rfl) rfl) rfl rfl
  | enterFull hpc _ _ | finish hpc _ _ =>
      exact htransit.workerKeeps hframe (by rw [hpc]; rfl)
        (by simp [State.fillReturns, WorkerPc.openBatch])
        (State.outstanding_congr
          (by simp [hpc, State.fillReturns, WorkerPc.inHand]) rfl) rfl rfl

end TransitOk

theorem WorkerPc.locksStreams_of_held {pc : WorkerPc} {stream : Nat}
    (hheld : pc.held = some stream) : pc.locksStreams = true := by
  cases pc with
  | filling _ _ _ => rfl
  | release _ _ _ => rfl
  | notStarted | loop | lockMx | checkEmpty | lockStreams | checkSid | index _
  | destroying _ _ _ | advance _ _ | drain | emitting _ | exited =>
      simp [WorkerPc.held] at hheld

theorem WorkerPc.held_of_openBatch {pc : WorkerPc} {frame : FillFrame}
    {stream : Nat} {locals : FillLocals}
    (hopen : pc.openBatch = some (frame, stream, locals)) :
    pc.held = some stream := by
  cases pc with
  | filling opened held changed =>
      simp only [WorkerPc.openBatch, Option.some.injEq, Prod.mk.injEq] at hopen
      obtain ⟨-, rfl, -⟩ := hopen
      rfl
  | notStarted | loop | lockMx | checkEmpty | lockStreams | checkSid | index _
  | release _ _ _ | destroying _ _ _ | advance _ _ | drain | emitting _
  | exited => cases hopen

/-- `addConverter` cannot run on a stream that a worker is filling, because
both hold `streams_mutex`. -/
theorem CallerMove.conversionPaths_of_held (hlocks : LocksOk s)
    (halloc : AllocOk s) (hmove : CallerMove s c s') {stream : Nat}
    (hheld : (s.pc w).held = some stream) :
    (s'.heap stream).conversionPaths = (s.heap stream).conversionPaths := by
  apply hmove.conversionPaths (halloc.worker_lt w stream hheld)
  intro hcaller
  have hexcluded : (s.caller c).locksStreams = false :=
    hlocks.worker_excludes_caller (WorkerPc.locksStreams_of_held hheld)
  rw [(CallerPc.locksStreams_of_held hcaller).1] at hexcluded
  cases hexcluded

/-- A caller only initialises the counter of a path it allocates. -/
theorem CallerMove.transit (hmove : CallerMove s c s') (path : Nat) :
    s'.transit path = s.transit path ∨ (path = s.nextPath ∧ s'.transit path = 0) := by
  cases hmove with
  | addConverter _ =>
      by_cases hpath : path = s.nextPath
      · subst hpath
        exact Or.inr ⟨rfl, by simp⟩
      · exact Or.inl (by simp [hpath])
  | addMapping _ _ | found _ _ _ | notFound _ _ _ | add _ _ | throwEarly _
  | keepStream _ | dropStream _ _ | eraseIf _ _ | erased _ | erasePath _ _
  | returned _ | returnPath _ _ => exact Or.inl rfl

theorem CallerMove.nextPath_le (hmove : CallerMove s c s') :
    s.nextPath ≤ s'.nextPath := by
  cases hmove with
  | addConverter _ => exact Nat.le_succ _
  | addMapping _ _ | found _ _ _ | notFound _ _ _ | add _ _ | throwEarly _
  | keepStream _ | dropStream _ _ | eraseIf _ _ | erased _ | erasePath _ _
  | returned _ | returnPath _ _ => exact Nat.le_refl _

/-- Streams and paths are numbered as they come. -/
theorem step_next_le {action : Action n m} (hstep : s.step cfg action = some s') :
    s.nextStream ≤ s'.nextStream ∧ s.nextPath ≤ s'.nextPath := by
  rcases step_move hstep with ⟨w, hmove⟩ | ⟨c, hmove⟩ | hmove
  · exact ⟨Nat.le_of_eq hmove.frame.nextStream.symm, Nat.le_of_eq hmove.frame.nextPath.symm⟩
  · exact ⟨hmove.nextStream_le, hmove.nextPath_le⟩
  · cases hmove with
    | start _ _ | stop | join _ | enqueueUpdate _ | errorInEpics _ =>
        exact ⟨Nat.le_refl _, Nat.le_refl _⟩

namespace TransitOk

/-- A fresh path has no packets. -/
theorem total_fresh (htransit : TransitOk cfg s) {path : Nat}
    (hpath : s.nextPath ≤ path) : total s.outstanding (counts path) = 0 := by
  rw [total_eq_zero_iff]
  intro w packet hpacket
  have hlt := (htransit.allocated w packet hpacket).2
  have hne : packet.path ≠ path := by omega
  simp [counts, isFor, hne]

theorem callerMove (htransit : TransitOk cfg s) (hlocks : LocksOk s)
    (halloc : AllocOk s) (hmove : CallerMove s c s') : TransitOk cfg s' := by
  have hframe := hmove.frame
  have hpaths : ∀ w frame stream locals,
      (s.pc w).openBatch = some (frame, stream, locals) →
      (s'.heap stream).conversionPaths = (s.heap stream).conversionPaths := by
    intro w frame stream locals hopen
    exact hmove.conversionPaths_of_held hlocks halloc
      (WorkerPc.held_of_openBatch hopen)
  constructor
  case locals =>
    intro w frame stream locals hopen
    rw [hframe.pc] at hopen
    rw [hpaths w frame stream locals hopen]
    exact htransit.locals w frame stream locals hopen
  case covered =>
    rw [hframe.pc, hframe.outstanding]
    exact htransit.covered
  case batch =>
    intro w frame stream locals hopen
    rw [hframe.pc] at hopen
    rw [hpaths w frame stream locals hopen, hframe.queue]
    exact htransit.batch w frame stream locals hopen
  case allocated =>
    intro w packet hpacket
    rw [hframe.outstanding] at hpacket
    obtain ⟨haddress, hpath⟩ := htransit.allocated w packet hpacket
    rw [hframe.nextPacket]
    exact ⟨haddress, Nat.lt_of_lt_of_le hpath hmove.nextPath_le⟩
  case count =>
    intro path
    rw [hframe.outstanding]
    rcases hmove.transit path with hsame | ⟨hfresh, hzero⟩
    · rw [hsame]
      exact htransit.count path
    · rw [hzero, htransit.total_fresh (Nat.le_of_eq hfresh.symm)]

theorem outsideMove (htransit : TransitOk cfg s) (hmove : OutsideMove s s') :
    TransitOk cfg s' := by
  cases hmove with
  | @start w hpc _ =>
      have hkept : TransitOk cfg (s.setPc w .loop) :=
        htransit.workerKeeps (.setPc s w _) (by rw [hpc]; rfl)
          (by rw [State.setPc_pc_self]; rfl)
          (State.outstanding_congr (by rw [hpc, State.setPc_pc_self]; rfl) rfl) rfl rfl
      exact ⟨hkept.locals, hkept.covered, hkept.batch, hkept.allocated, hkept.count⟩
  | stop | join _ =>
      exact ⟨htransit.locals, htransit.covered, htransit.batch,
        htransit.allocated, htransit.count⟩
  | @enqueueUpdate changed _ _ | @errorInEpics changed _ =>
      refine ⟨?_, htransit.covered, ?_, htransit.allocated, htransit.count⟩
      · intro w frame stream locals hopen
        have hwell := htransit.locals w frame stream locals hopen
        by_cases hx : stream = changed
        · subst hx; simpa using hwell
        · simpa [hx] using hwell
      · intro w frame stream locals hopen
        have hbatch := htransit.batch w frame stream locals hopen
        by_cases hx : stream = changed
        · subst hx; simpa using hbatch
        · simpa [hx] using hbatch

end TransitOk

theorem reachable_transitOk (hreach : (conversionSystem cfg n m).Reachable s) :
    TransitOk cfg s := by
  refine hreach.invariant (fun s ⟨cursor, hinit⟩ => hinit ▸ .initial cursor) ?_
  intro s action s' hbefore htransit hstep
  have halloc := reachable_allocOk hbefore
  rcases step_move hstep with ⟨w, hmove⟩ | ⟨c, hmove⟩ | hmove
  · exact htransit.workerMove halloc hmove
  · exact htransit.callerMove (reachable_locksOk hbefore) halloc hmove
  · exact htransit.outsideMove hmove

/-- Some thread is in the wait loop of the path's destructor. -/
def State.InDestructor (s : State n m) (path : Nat) : Prop :=
  (∃ w, (s.pc w).dying.head? = some path) ∨
    ∃ c, (s.caller c).dying.head? = some path

theorem State.InDestructor.dying {path : Nat} (hin : s.InDestructor path) :
    s.Dying path := by
  rcases hin with ⟨w, hhead⟩ | ⟨c, hhead⟩
  · exact Or.inl ⟨w, List.mem_of_head? hhead⟩
  · exact Or.inr ⟨c, List.mem_of_head? hhead⟩

/-- One worker forwards one update and drains its queue, then the channel is
stopped. -/
def stopAfterDrain (w : Fin n) (c : Fin m) : List (Action n m) :=
  Action.mapChannel c "pv" ++ [.enqueueUpdate 0 (some 7), .start w] ++
    List.replicate 12 (.work w 1) ++ [.stopChannel c "pv"]

end EpicsToKafka
