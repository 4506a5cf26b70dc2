/-
`Stream::fillConversionQueue` and the packets it produces.  The loop body is
one definition, so that the sequential function and the interleaved worker of
the conversion system run the same code.  `Stream`, `ConversionPath` and
`ConversionWorkPacket` objects are named by their addresses, natural numbers
from an allocator that never reuses one.
-/
import Mathlib.Algebra.Group.Nat.Defs
import Mathlib.Data.List.Basic

namespace EpicsToKafka

/-- Difference of two `uint32_t` values. -/
def uint32Sub (a b : Nat) : Nat :=
  (a + 2 ^ 32 - b) % 2 ^ 32

/-- Sum of two `uint32_t` values. -/
def uint32Add (a b : Nat) : Nat :=
  (a + b) % 2 ^ 32

theorem uint32Sub_of_le {a b : Nat} (ha : a < 2 ^ 32) (hle : b ≤ a) :
    uint32Sub a b = a - b := by
  unfold uint32Sub
  omega

theorem uint32Add_of_lt {a b : Nat} (hlt : a + b < 2 ^ 32) :
    uint32Add a b = a + b :=
  Nat.mod_eq_of_lt hlt

theorem uint32Sub_lt (a b : Nat) : uint32Sub a b < 2 ^ 32 :=
  Nat.mod_lt _ (Nat.two_pow_pos 32)

/-- A unit of conversion work.  `stream` is null unless the packet is the
last one of its path in a `fillConversionQueue` call. -/
structure ConversionWorkPacket (υ : Type) where
  address : Nat
  update : υ
  path : Nat
  stream : Option Nat
deriving Repr, DecidableEq

/-- Local variables of `fillConversionQueue`; `cwpLast` holds raw pointers. -/
structure FillLocals where
  bufferSize : Nat
  numDequeued : Nat
  numQueued : Nat
  cwpLast : List (Option Nat)
deriving Repr, DecidableEq

/-- What the loop of `fillConversionQueue` works on: its locals, the stream's
`OutputQueue`, the worker's queue and the allocator. -/
structure FillState (υ : Type) where
  locals : FillLocals
  outputQueue : List (Option υ)
  queue : List (ConversionWorkPacket υ)
  nextPacket : Nat
deriving Repr

variable {υ : Type}

/-- Locals on entry: `size_approx` has been read, `cwp_last` is all null. -/
def FillLocals.enter (sizeApprox pathCount : Nat) : FillLocals :=
  ⟨sizeApprox, 0, 0, List.replicate pathCount none⟩

/-- The inner `for` over the conversion paths.  `enqueue` is the outcome of
`Queue.enqueue` for the packet at an address; a failed enqueue leaves the
packet with the caller, which destroys it, and leaves the loop. -/
def enqueueForPaths (enqueue : Nat → Bool) (update : υ) :
    List Nat → Nat → FillState υ → FillState υ
  | [], _, state => state
  | path :: rest, conversionPathID, state =>
      let packet : ConversionWorkPacket υ := ⟨state.nextPacket, update, path, none⟩
      let last := state.locals.cwpLast.set conversionPathID (some packet.address)
      if enqueue packet.address then
        enqueueForPaths enqueue update rest (conversionPathID + 1)
          { state with
            locals := { state.locals with
              cwpLast := last
              numQueued := uint32Add state.locals.numQueued 1 }
            queue := state.queue ++ [packet]
            nextPacket := state.nextPacket + 1 }
      else
        { state with
          locals := { state.locals with cwpLast := last }
          nextPacket := state.nextPacket + 1 }

/-- The loop test: data still announced, and space for one update on every
path. -/
def FillLocals.continues (locals : FillLocals) (max pathCount : Nat) : Prop :=
  locals.numDequeued < locals.bufferSize ∧
    pathCount ≤ uint32Sub max locals.numQueued

instance (locals : FillLocals) (max pathCount : Nat) :
    Decidable (locals.continues max pathCount) :=
  inferInstanceAs (Decidable (_ ∧ _))

/-- One iteration of the `while` loop; `none` when the loop is left. -/
def fillIteration (enqueue : Nat → Bool) (paths : List Nat)
    (max : Nat) (state : FillState υ) : Option (FillState υ) :=
  if state.locals.continues max paths.length then
    match state.outputQueue with
    | [] => none
    | none :: rest =>
        some { state with
          locals := { state.locals with
            numDequeued := uint32Add state.locals.numDequeued 1 }
          outputQueue := rest }
    | some update :: rest =>
        some (enqueueForPaths enqueue update paths 0
          { state with
            locals := { state.locals with
              numDequeued := uint32Add state.locals.numDequeued 1 }
            outputQueue := rest })
  else none

/-- `cwp_last[i]->stream = this` for every path. -/
def tagLast (self : Nat) (cwpLast : List (Option Nat))
    (queue : List (ConversionWorkPacket υ)) : List (ConversionWorkPacket υ) :=
  queue.map fun packet =>
    if some packet.address ∈ cwpLast then { packet with stream := some self }
    else packet

/-- `ConversionPaths[i]->transit++` for every path. -/
def raiseTransit (paths : List Nat) (transit : Nat → Nat) : Nat → Nat :=
  fun path => transit path + paths.count path

/-- The packets of one update: one for each path, at consecutive addresses. -/
def packetRow (base : Nat) (update : υ) :
    List Nat → List (ConversionWorkPacket υ)
  | [] => []
  | path :: rest => ⟨base, update, path, none⟩ :: packetRow (base + 1) update rest

@[simp] theorem length_packetRow (base : Nat) (update : υ)
    (paths : List Nat) : (packetRow base update paths).length = paths.length := by
  induction paths generalizing base with
  | nil => rfl
  | cons path rest ih => simp [packetRow, ih]

theorem mem_packetRow {base : Nat} {update : υ} {paths : List Nat}
    {packet : ConversionWorkPacket υ}
    (hmem : packet ∈ packetRow base update paths) :
    packet.update = update ∧ packet.path ∈ paths ∧ packet.stream = none ∧
      base ≤ packet.address ∧ packet.address < base + paths.length := by
  induction paths generalizing base with
  | nil => simp [packetRow] at hmem
  | cons path rest ih =>
      simp only [packetRow, List.mem_cons] at hmem
      rcases hmem with rfl | hmem
      · simp
      · obtain ⟨hupdate, hpath, hstream, hlow, hhigh⟩ := ih hmem
        rw [List.length_cons]
        exact ⟨hupdate, List.mem_cons_of_mem path hpath, hstream, by omega, by omega⟩

theorem packetRow_map_path (base : Nat) (update : υ)
    (paths : List Nat) :
    (packetRow base update paths).map ConversionWorkPacket.path = paths := by
  induction paths generalizing base with
  | nil => rfl
  | cons path rest ih => simp [packetRow, ih]

/-- The addresses `cwp_last` holds after a complete row. -/
def rowAddresses (base : Nat) (count : Nat) : List (Option Nat) :=
  (List.range' base count).map some

theorem mem_rowAddresses {base address : Nat} {count : Nat} :
    some address ∈ rowAddresses base count ↔
      base ≤ address ∧ address < base + count := by
  simp [rowAddresses, List.mem_range'_1]

/-- After a complete row, tagging reaches the packets of that row and no
older one. -/
theorem tagLast_rowAddresses (self : Nat) {base : Nat} {update : υ}
    {paths : List Nat} {old : List (ConversionWorkPacket υ)}
    (hold : ∀ packet ∈ old, packet.address < base) :
    tagLast self (rowAddresses base paths.length)
        (old ++ packetRow base update paths) =
      old ++ (packetRow base update paths).map
        fun packet => { packet with stream := some self } := by
  unfold tagLast
  rw [List.map_append]
  congr 1
  · nth_rewrite 2 [← List.map_id old]
    apply List.map_congr_left
    intro packet hpacket
    have hlt := hold packet hpacket
    rw [if_neg, id]
    rw [mem_rowAddresses]
    omega
  · apply List.map_congr_left
    intro packet hpacket
    obtain ⟨-, -, -, hlow, hhigh⟩ := mem_packetRow hpacket
    rw [if_pos]
    exact mem_rowAddresses.mpr ⟨hlow, hhigh⟩

/-- The inner loop over a suffix of the paths, when every enqueue succeeds. -/
theorem enqueueForPaths_success (update : υ) (paths : List Nat)
    (done : List (Option Nat)) (pending : List (Option Nat))
    (state : FillState υ)
    (hlast : state.locals.cwpLast = done ++ pending)
    (hpending : pending.length = paths.length)
    (hroom : state.locals.numQueued + paths.length < 2 ^ 32) :
    enqueueForPaths (fun _ => true) update paths done.length state =
      { locals := { state.locals with
          numQueued := state.locals.numQueued + paths.length
          cwpLast := done ++ rowAddresses state.nextPacket paths.length }
        outputQueue := state.outputQueue
        queue := state.queue ++ packetRow state.nextPacket update paths
        nextPacket := state.nextPacket + paths.length } := by
  induction paths generalizing done pending state with
  | nil =>
      have hnil : pending = [] := List.length_eq_zero_iff.mp hpending
      subst hnil
      simp only [List.append_nil] at hlast
      simp [enqueueForPaths, rowAddresses, packetRow, ← hlast]
  | cons path rest ih =>
      match pending, hpending with
      | old :: pending, hpending =>
          simp only [List.length_cons] at hpending hroom
          have hadd : uint32Add state.locals.numQueued 1 =
              state.locals.numQueued + 1 := uint32Add_of_lt (by omega)
          have hset : state.locals.cwpLast.set done.length
              (some state.nextPacket) =
              (done ++ [some state.nextPacket]) ++ pending := by
            simp [hlast]
          simp only [enqueueForPaths, ↓reduceIte, hset, hadd]
          have hstep := ih (done ++ [some state.nextPacket]) pending
            { state with
              locals := { state.locals with
                cwpLast := (done ++ [some state.nextPacket]) ++ pending
                numQueued := state.locals.numQueued + 1 }
              queue := state.queue ++ [⟨state.nextPacket, update, path, none⟩]
              nextPacket := state.nextPacket + 1 }
            rfl (by omega) (by simp only; omega)
          simp only [List.length_append, List.length_singleton] at hstep
          rw [hstep]
          simp [rowAddresses, packetRow, List.range'_succ, Nat.add_assoc,
            Nat.add_comm 1]

/-- The result of an iteration that moves a non-null update. -/
def FillState.afterRow (paths : List Nat) (update : υ) (rest : List (Option υ))
    (state : FillState υ) : FillState υ where
  locals := { state.locals with
    numDequeued := uint32Add state.locals.numDequeued 1
    numQueued := state.locals.numQueued + paths.length
    cwpLast := rowAddresses state.nextPacket paths.length }
  outputQueue := rest
  queue := state.queue ++ packetRow state.nextPacket update paths
  nextPacket := state.nextPacket + paths.length

/-- The result of an iteration that drops a null update. -/
def FillState.afterNull (rest : List (Option υ)) (state : FillState υ) :
    FillState υ where
  locals := { state.locals with
    numDequeued := uint32Add state.locals.numDequeued 1 }
  outputQueue := rest
  queue := state.queue
  nextPacket := state.nextPacket

/-- The loop invariant that keeps the 32-bit counters from wrapping. -/
structure FillLocals.WellFormed (locals : FillLocals) (max pathCount : Nat) :
    Prop where
  max_lt : max < 2 ^ 32
  numQueued_le : locals.numQueued ≤ max
  cwpLast_length : locals.cwpLast.length = pathCount

theorem FillLocals.enter_wellFormed (sizeApprox pathCount : Nat) {max : Nat}
    (hmax : max < 2 ^ 32) :
    (FillLocals.enter sizeApprox pathCount).WellFormed max pathCount :=
  ⟨hmax, Nat.zero_le _, by simp [FillLocals.enter]⟩

theorem FillLocals.WellFormed.room {locals : FillLocals} {max pathCount : Nat}
    (hwell : locals.WellFormed max pathCount)
    (hcontinues : locals.continues max pathCount) :
    locals.numQueued + pathCount ≤ max := by
  have hspace := hcontinues.2
  rw [uint32Sub_of_le hwell.max_lt hwell.numQueued_le] at hspace
  have := hwell.numQueued_le
  omega

/-- What one iteration can do when every enqueue succeeds. -/
theorem fillIteration_success {paths : List Nat} {max : Nat}
    {state next : FillState υ}
    (hwell : state.locals.WellFormed max paths.length)
    (hiter : fillIteration (fun _ => true) paths max state = some next) :
    state.locals.continues max paths.length ∧
      ((∃ rest, state.outputQueue = none :: rest ∧ next = state.afterNull rest) ∨
        ∃ update rest, state.outputQueue = some update :: rest ∧
          next = state.afterRow paths update rest) := by
  unfold fillIteration at hiter
  split at hiter
  · rename_i hcontinues
    refine ⟨hcontinues, ?_⟩
    have hroom := hwell.room hcontinues
    have hmax := hwell.max_lt
    split at hiter
    · cases hiter
    · rename_i rest hqueue
      cases hiter
      exact Or.inl ⟨rest, hqueue, rfl⟩
    · rename_i update rest hqueue
      cases hiter
      refine Or.inr ⟨update, rest, hqueue, ?_⟩
      have hinner := enqueueForPaths_success update paths []
        state.locals.cwpLast
        { state with
          locals := { state.locals with
            numDequeued := uint32Add state.locals.numDequeued 1 }
          outputQueue := rest }
        rfl hwell.cwpLast_length (by simp only; omega)
      simpa [FillState.afterRow] using hinner
  · cases hiter

theorem FillState.afterRow_wellFormed {paths : List Nat} {max : Nat}
    {state : FillState υ} {update : υ} {rest : List (Option υ)}
    (hwell : state.locals.WellFormed max paths.length)
    (hcontinues : state.locals.continues max paths.length) :
    (state.afterRow paths update rest).locals.WellFormed max paths.length :=
  ⟨hwell.max_lt, hwell.room hcontinues,
    by simp [FillState.afterRow, rowAddresses]⟩

theorem FillState.afterNull_wellFormed {pathCount max : Nat}
    {state : FillState υ} {rest : List (Option υ)}
    (hwell : state.locals.WellFormed max pathCount) :
    (state.afterNull rest).locals.WellFormed max pathCount :=
  ⟨hwell.max_lt, hwell.numQueued_le, hwell.cwpLast_length⟩

end EpicsToKafka
