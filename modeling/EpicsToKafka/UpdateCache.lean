/-
The cache and the queue of one `EpicsClientMonitor`.  Updates are shared
objects: the cache, the queue and a caller of `emitWithoutCaching` may hold the
same one, and marking it shows wherever it is held.
-/
import EpicsToKafka.SchemaConverters
import EpicsToKafka.Transition

namespace EpicsToKafka.PVData

/-- The function that enqueued an entry. -/
inductive Origin where
  | emit
  | cached
  | direct
deriving Repr, DecidableEq

structure Enqueued where
  origin : Origin
  update : Option Nat
deriving Repr, DecidableEq

/-- The update objects by address, the cache and the queue.  The last three
fields are history: the addresses given to `emit`, everything enqueued so far,
and the mark each conversion saw. -/
structure EpicsClientMonitor where
  updates : List EpicsPVUpdate
  cachedUpdate : Option Nat := none
  emitQueue : List (Option Nat) := []
  emitted : List Nat := []
  enqueued : List Enqueued := []
  converted : List (Nat × Bool) := []

namespace EpicsClientMonitor

/-- The structure of the cached update; null before the first `emit`. -/
def cachedStructure (s : EpicsClientMonitor) : Option PVStructure :=
  s.cachedUpdate.bind fun address => s.updates[address]?.map (·.pvStructure)

/-- `AlarmStatusChanged = true` on the object. -/
def mark (s : EpicsClientMonitor) (address : Nat) : EpicsClientMonitor :=
  { s with
    updates := s.updates.modify address fun update =>
      { update with alarmStatusChanged := true } }

/-- The assertion excludes a null update. -/
def emitWithoutCaching (s : EpicsClientMonitor) (origin : Origin)
    (update : Option Nat) : Except NullPointer EpicsClientMonitor :=
  if update.isNone then .error .update
  else .ok { s with
    emitQueue := s.emitQueue ++ [update]
    enqueued := s.enqueued ++ [⟨origin, update⟩] }

/-- Whether an update is marked when it is emitted: the first one always is. -/
def changedFrom (cached : Option PVStructure) (update : PVStructure) :
    Except NullPointer Bool :=
  match cached with
  | none => .ok true
  | some cached => alarmMessageChanged update cached

def emit (s : EpicsClientMonitor) (address : Nat) :
    Except NullPointer EpicsClientMonitor := do
  let update ← deref .update s.updates[address]?
  let changed ← changedFrom s.cachedStructure update.pvStructure
  let marked := if changed then s.mark address else s
  emitWithoutCaching
    { marked with
      cachedUpdate := some address
      emitted := s.emitted ++ [address] } .emit (some address)

def emitCachedValue (s : EpicsClientMonitor) : Except NullPointer EpicsClientMonitor :=
  match s.cachedUpdate with
  | none => .ok s
  | some cached => (s.mark cached).emitWithoutCaching .cached s.cachedUpdate

/-- A worker takes the front entry and reads the mark of its update; a null
entry is dropped. -/
def convert (s : EpicsClientMonitor) : Option EpicsClientMonitor :=
  match s.emitQueue with
  | [] => none
  | none :: rest => some { s with emitQueue := rest }
  | some address :: rest =>
      s.updates[address]?.map fun update =>
        { s with
          emitQueue := rest
          converted := s.converted ++ [(address, update.alarmStatusChanged)] }

end EpicsClientMonitor

inductive CacheAction where
  | emit (address : Nat)
  | emitCachedValue
  | emitWithoutCaching (update : Option Nat)
  | convert
deriving Repr, DecidableEq

/-- Calls that dereference null or fail the assertion have no next state.  A
pointer given to `emitWithoutCaching` is null or points to an update. -/
def EpicsClientMonitor.step (s : EpicsClientMonitor) :
    CacheAction → Option EpicsClientMonitor
  | .emit address => (s.emit address).toOption
  | .emitCachedValue => s.emitCachedValue.toOption
  | .emitWithoutCaching update =>
      if update.all (· < s.updates.length) then
        (s.emitWithoutCaching .direct update).toOption
      else none
  | .convert => s.convert

section Steps

variable {s s' : EpicsClientMonitor}

theorem emitWithoutCaching_some (s : EpicsClientMonitor) (origin : Origin) (address : Nat) :
    s.emitWithoutCaching origin (some address) = .ok { s with
      emitQueue := s.emitQueue ++ [some address]
      enqueued := s.enqueued ++ [⟨origin, some address⟩] } := rfl

/-- What `emit` does when it does not fail. -/
theorem emit_eq_ok {address : Nat} :
    s.emit address = .ok s' ↔
      ∃ update changed, s.updates[address]? = some update ∧
        EpicsClientMonitor.changedFrom s.cachedStructure update.pvStructure = .ok changed ∧
        s' = { if changed then s.mark address else s with
          cachedUpdate := some address
          emitted := s.emitted ++ [address]
          emitQueue := s.emitQueue ++ [some address]
          enqueued := s.enqueued ++ [⟨.emit, some address⟩] } := by
  simp only [EpicsClientMonitor.emit, bind_eq_ok, deref_eq_ok, emitWithoutCaching_some,
    Except.ok.injEq]
  constructor
  · rintro ⟨update, hupdate, changed, hchanged, rfl⟩
    refine ⟨update, changed, hupdate, hchanged, ?_⟩
    cases changed <;> rfl
  · rintro ⟨update, changed, hupdate, hchanged, rfl⟩
    refine ⟨update, hupdate, changed, hchanged, ?_⟩
    cases changed <;> rfl

/-- What each call does when it does not fail. -/
inductive CacheMove (s : EpicsClientMonitor) : CacheAction → EpicsClientMonitor → Prop
  | emit {address : Nat} {update : EpicsPVUpdate} {changed : Bool}
      (hupdate : s.updates[address]? = some update)
      (hchanged : EpicsClientMonitor.changedFrom s.cachedStructure update.pvStructure =
        .ok changed) :
      CacheMove s (.emit address)
        { if changed then s.mark address else s with
          cachedUpdate := some address
          emitted := s.emitted ++ [address]
          emitQueue := s.emitQueue ++ [some address]
          enqueued := s.enqueued ++ [⟨.emit, some address⟩] }
  | nothingCached (hcached : s.cachedUpdate = none) : CacheMove s .emitCachedValue s
  | reemit {cached : Nat} (hcached : s.cachedUpdate = some cached) :
      CacheMove s .emitCachedValue
        { s.mark cached with
          emitQueue := s.emitQueue ++ [some cached]
          enqueued := s.enqueued ++ [⟨.cached, some cached⟩] }
  | direct {address : Nat} :
      CacheMove s (.emitWithoutCaching (some address))
        { s with
          emitQueue := s.emitQueue ++ [some address]
          enqueued := s.enqueued ++ [⟨.direct, some address⟩] }
  | dropNull {rest : List (Option Nat)} (hqueue : s.emitQueue = none :: rest) :
      CacheMove s .convert { s with emitQueue := rest }
  | convert {address : Nat} {rest : List (Option Nat)} {update : EpicsPVUpdate}
      (hqueue : s.emitQueue = some address :: rest)
      (hupdate : s.updates[address]? = some update) :
      CacheMove s .convert
        { s with
          emitQueue := rest
          converted := s.converted ++ [(address, update.alarmStatusChanged)] }

theorem toOption_eq_some {result : Except NullPointer EpicsClientMonitor} :
    result.toOption = some s' ↔ result = .ok s' := by
  cases result <;> simp [Except.toOption]

theorem convert_move (hstep : s.convert = some s') : CacheMove s .convert s' := by
  unfold EpicsClientMonitor.convert at hstep
  split at hstep
  · cases hstep
  · cases hstep
    exact .dropNull ‹_›
  · obtain ⟨update, hupdate, rfl⟩ := Option.map_eq_some_iff.mp hstep
    exact .convert ‹_› hupdate

theorem cache_step_move {action : CacheAction} (hstep : s.step action = some s') :
    CacheMove s action s' := by
  cases action with
  | emit address =>
      obtain ⟨update, changed, hupdate, hchanged, rfl⟩ :=
        emit_eq_ok.mp (toOption_eq_some.mp hstep)
      exact .emit hupdate hchanged
  | emitCachedValue =>
      have hcall := toOption_eq_some.mp hstep
      unfold EpicsClientMonitor.emitCachedValue at hcall
      split at hcall
      · cases hcall
        exact .nothingCached ‹_›
      · rename_i cached hcached
        rw [hcached] at hcall
        cases hcall
        exact .reemit hcached
  | emitWithoutCaching update =>
      simp only [EpicsClientMonitor.step] at hstep
      split at hstep
      · cases update with
        | none => cases hstep
        | some address =>
            cases hstep
            exact .direct
      · cases hstep
  | convert => exact convert_move hstep

end Steps

/-- Indices of the updates that were enqueued by `emit` and `emitCachedValue`:
they follow one another and end at the latest `emit`. -/
structure Indexed (s : EpicsClientMonitor) (indices : List Nat) : Prop where
  successive : Successive none indices
  last : latest none indices = (List.range s.emitted.length).getLast?
  updates : (s.enqueued.filter fun entry => entry.origin ≠ .direct).map Enqueued.update =
    indices.map fun index => s.emitted[index]?

/-- The object at an address has `AlarmStatusChanged` set. -/
def IsMarked (updates : List EpicsPVUpdate) (address : Nat) : Prop :=
  updates[address]?.map EpicsPVUpdate.alarmStatusChanged = some true

structure CacheOk (structures : List PVStructure) (s : EpicsClientMonitor) : Prop where
  structures : s.updates.map (·.pvStructure) = structures
  emitted_lt : ∀ address ∈ s.emitted, address < s.updates.length
  cached : s.cachedUpdate = s.emitted.getLast?
  marked : ∀ address, ⟨.cached, some address⟩ ∈ s.enqueued →
    IsMarked s.updates address
  nonnull : ∀ entry ∈ s.enqueued, entry.update ≠ none
  indexed : ∃ indices, Indexed s indices

variable {structures : List PVStructure} {s s' : EpicsClientMonitor}

theorem mark_structures (s : EpicsClientMonitor) (address : Nat) :
    (s.mark address).updates.map (·.pvStructure) = s.updates.map (·.pvStructure) := by
  apply List.ext_getElem?
  intro i
  simp only [EpicsClientMonitor.mark, List.getElem?_map, List.getElem?_modify]
  cases s.updates[i]? with
  | none => rfl
  | some update =>
      simp only [Option.map_some]
      split <;> rfl

/-- Marking an object never takes a mark away. -/
theorem mark_marked {address other : Nat}
    (hmarked : IsMarked s.updates other) : IsMarked (s.mark address).updates other := by
  simp only [IsMarked, EpicsClientMonitor.mark, List.getElem?_modify]
  cases hupdate : s.updates[other]? with
  | none => simp [IsMarked, hupdate] at hmarked
  | some update =>
      rw [IsMarked, hupdate] at hmarked
      simp only [Option.map_some, Option.some.injEq] at hmarked ⊢
      split <;> simp [hmarked]

theorem mark_self {address : Nat} (hlt : address < s.updates.length) :
    IsMarked (s.mark address).updates address := by
  simp [IsMarked, EpicsClientMonitor.mark, List.getElem?_eq_getElem hlt]

theorem range_getLast? (n : Nat) : (List.range (n + 1)).getLast? = some n := by
  rw [List.range_succ, List.getLast?_append]
  rfl

/-- Every index is that of an `emit`. -/
theorem Indexed.lt {indices : List Nat} (hindexed : Indexed s indices)
    (hnonnull : ∀ entry ∈ s.enqueued, entry.update ≠ none) {index : Nat}
    (hindex : index ∈ indices) : index < s.emitted.length := by
  have hmem : s.emitted[index]? ∈ indices.map fun index => s.emitted[index]? :=
    List.mem_map_of_mem hindex
  rw [← hindexed.updates] at hmem
  obtain ⟨entry, hentry, heq⟩ := List.mem_map.mp hmem
  have hsome := hnonnull entry (List.mem_of_mem_filter hentry)
  rw [heq] at hsome
  by_contra hge
  exact hsome (List.getElem?_eq_none (Nat.le_of_not_lt hge))

theorem Indexed.emit {indices : List Nat} (hindexed : Indexed s indices)
    (hnonnull : ∀ entry ∈ s.enqueued, entry.update ≠ none) {address : Nat}
    (hemitted : s'.emitted = s.emitted ++ [address])
    (henqueued : s'.enqueued = s.enqueued ++ [⟨.emit, some address⟩]) :
    Indexed s' (indices ++ [s.emitted.length]) where
  successive := by
    apply hindexed.successive.append
    rw [hindexed.last]
    cases hlength : s.emitted.length with
    | zero => rfl
    | succ last =>
        rw [range_getLast?]
        exact Or.inr rfl
  last := by
    rw [latest_append, hemitted, List.length_append, List.length_singleton, range_getLast?]
  updates := by
    have hold : (indices.map fun index => s'.emitted[index]?) =
        indices.map fun index => s.emitted[index]? := by
      apply List.map_congr_left
      intro index hindex
      rw [hemitted, List.getElem?_append_left (hindexed.lt hnonnull hindex)]
    rw [henqueued, List.filter_append, List.map_append, List.map_append, hold,
      hindexed.updates]
    simp [hemitted]

theorem Indexed.reemit {indices : List Nat} (hindexed : Indexed s indices) {cached : Nat}
    (hcached : s.emitted.getLast? = some cached) (hemitted : s'.emitted = s.emitted)
    (henqueued : s'.enqueued = s.enqueued ++ [⟨.cached, some cached⟩]) :
    Indexed s' (indices ++ [s.emitted.length - 1]) := by
  have hlength : s.emitted.length = s.emitted.length - 1 + 1 := by
    cases hlist : s.emitted with
    | nil => simp [hlist] at hcached
    | cons first rest => simp
  have hlast : latest none indices = some (s.emitted.length - 1) := by
    rw [hindexed.last, hlength, range_getLast?]
    rfl
  constructor
  · apply hindexed.successive.append
    rw [hlast]
    exact Or.inl rfl
  · rw [latest_append, hemitted]
    nth_rewrite 2 [hlength]
    rw [range_getLast?]
  · rw [henqueued, List.filter_append, List.map_append, List.map_append, hemitted,
      hindexed.updates]
    rw [List.getLast?_eq_getElem?] at hcached
    simp [hcached]

theorem Indexed.direct {indices : List Nat} (hindexed : Indexed s indices) {address : Nat}
    (hemitted : s'.emitted = s.emitted)
    (henqueued : s'.enqueued = s.enqueued ++ [⟨.direct, some address⟩]) :
    Indexed s' indices where
  successive := hindexed.successive
  last := hemitted ▸ hindexed.last
  updates := by
    rw [henqueued, List.filter_append, hemitted]
    simpa using hindexed.updates

theorem CacheOk.initial (channel : String) (structures : List PVStructure) :
    CacheOk structures
      { updates := structures.map fun pvStructure => ⟨pvStructure, channel, false⟩ } where
  structures := by
    rw [List.map_map]
    exact List.map_id structures
  emitted_lt := by simp
  cached := rfl
  marked := by simp
  nonnull := by simp
  indexed := ⟨[], trivial, rfl, rfl⟩

/-- An entry is appended to the queue and its history. -/
theorem CacheOk.marked_append (hok : CacheOk structures s) {updates : List EpicsPVUpdate}
    {entry : Enqueued}
    (hkept : ∀ address, IsMarked s.updates address → IsMarked updates address)
    (hentry : ∀ address, entry = ⟨.cached, some address⟩ → IsMarked updates address)
    (address : Nat) (hmem : ⟨.cached, some address⟩ ∈ s.enqueued ++ [entry]) :
    IsMarked updates address := by
  rcases List.mem_append.mp hmem with hmem | hmem
  · exact hkept address (hok.marked address hmem)
  · exact hentry address (List.mem_singleton.mp hmem).symm

theorem CacheOk.nonnull_append (hok : CacheOk structures s) {origin : Origin}
    {address : Nat} :
    ∀ entry ∈ s.enqueued ++ [⟨origin, some address⟩], entry.update ≠ none := by
  intro entry hentry
  rcases List.mem_append.mp hentry with hentry | hentry
  · exact hok.nonnull entry hentry
  · rw [List.mem_singleton.mp hentry]
    exact Option.some_ne_none address

theorem CacheOk.emit (hok : CacheOk structures s) {address : Nat}
    {update : EpicsPVUpdate} (hupdate : s.updates[address]? = some update)
    (changed : Bool) :
    CacheOk structures
      { if changed then s.mark address else s with
        cachedUpdate := some address
        emitted := s.emitted ++ [address]
        emitQueue := s.emitQueue ++ [some address]
        enqueued := s.enqueued ++ [⟨.emit, some address⟩] } := by
  have hlt : address < s.updates.length := (List.getElem?_eq_some_iff.mp hupdate).1
  obtain ⟨indices, hindexed⟩ := hok.indexed
  have hstructures : (if changed then s.mark address else s).updates.map
      (·.pvStructure) = structures := by
    cases changed with
    | false => exact hok.structures
    | true => exact (mark_structures s address).trans hok.structures
  have hlength : (if changed then s.mark address else s).updates.length =
      s.updates.length := by
    cases changed with
    | false => rfl
    | true => simp [EpicsClientMonitor.mark]
  refine ⟨hstructures, ?_, ?_, ?_, hok.nonnull_append, ?_⟩
  · intro other hother
    simp only [hlength]
    rcases List.mem_append.mp hother with hother | hother
    · exact hok.emitted_lt other hother
    · exact List.mem_singleton.mp hother ▸ hlt
  · simp
  · apply hok.marked_append
    · intro other hmarked
      cases changed with
      | false => exact hmarked
      | true => exact mark_marked hmarked
    · intro other hentry
      cases hentry
  · exact ⟨_, hindexed.emit hok.nonnull rfl rfl⟩

theorem CacheOk.reemit (hok : CacheOk structures s) {cached : Nat}
    (hcached : s.cachedUpdate = some cached) :
    CacheOk structures
      { s.mark cached with
        emitQueue := s.emitQueue ++ [some cached]
        enqueued := s.enqueued ++ [⟨.cached, some cached⟩] } := by
  have hlast : s.emitted.getLast? = some cached := hok.cached.symm.trans hcached
  have hlt : cached < s.updates.length :=
    hok.emitted_lt cached (List.mem_of_getLast? hlast)
  obtain ⟨indices, hindexed⟩ := hok.indexed
  refine ⟨(mark_structures s cached).trans hok.structures, ?_, hok.cached, ?_,
    hok.nonnull_append, ⟨_, hindexed.reemit hlast rfl rfl⟩⟩
  · simpa [EpicsClientMonitor.mark] using hok.emitted_lt
  · apply hok.marked_append
    · exact fun other hmarked => mark_marked hmarked
    · intro other hentry
      cases hentry
      exact mark_self hlt

theorem CacheOk.step {action : CacheAction} (hok : CacheOk structures s)
    (hstep : s.step action = some s') : CacheOk structures s' := by
  cases cache_step_move hstep with
  | emit hupdate _ => exact hok.emit hupdate _
  | nothingCached _ => exact hok
  | reemit hcached => exact hok.reemit hcached
  | direct =>
      obtain ⟨indices, hindexed⟩ := hok.indexed
      refine ⟨hok.structures, hok.emitted_lt, hok.cached, ?_, hok.nonnull_append,
        ⟨indices, hindexed.direct rfl rfl⟩⟩
      apply hok.marked_append
      · exact fun _ => id
      · intro other hentry
        cases hentry
  | dropNull _ | convert _ _ =>
      obtain ⟨indices, hindexed⟩ := hok.indexed
      exact ⟨hok.structures, hok.emitted_lt, hok.cached, hok.marked, hok.nonnull, indices,
        hindexed.successive, hindexed.last, hindexed.updates⟩

/-- An update with an alarm. -/
def PVStructure.alarmed (message : String) (severity : Int32) : PVStructure :=
  ⟨"epics:nt/NTScalar:1.0", [("alarm", .structured "alarm_t"
    [("message", .scalar (.string message)), ("severity", .scalar (.int severity))])]⟩

end EpicsToKafka.PVData
