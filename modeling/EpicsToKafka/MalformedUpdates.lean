/-
Updates of any shape, one after the other: each is emitted, which compares its
alarm with the cached update, and then converted by both converters.  The
result is exact: it says for which sequences no null pointer is dereferenced.
-/
import EpicsToKafka.UpdateCache

namespace EpicsToKafka.PVData

/-- `FwdMonitorRequester::monitorEvent` makes a new update object. -/
def EpicsClientMonitor.receive (s : EpicsClientMonitor) (channel : String)
    (pvStructure : PVStructure) : EpicsClientMonitor :=
  { s with updates := s.updates ++ [⟨pvStructure, channel, false⟩] }

/-- One update is emitted and then converted with both schemas. -/
def handleUpdate (nt : NormativeTypes) (channel : String) (s : EpicsClientMonitor)
    (pvStructure : PVStructure) :
    Except NullPointer (EpicsClientMonitor × F142.Message × Option TdcTime.Message) := do
  let emitted ← (s.receive channel pvStructure).emit s.updates.length
  let update ← deref .update emitted.updates[s.updates.length]?
  let message ← F142.Converter.create nt update
  let timestamps ← TdcTime.Converter.create nt update
  return (emitted, message, timestamps)

/-- The messages of a whole sequence of updates. -/
def handleUpdates (nt : NormativeTypes) (channel : String) :
    EpicsClientMonitor → List PVStructure →
      Except NullPointer (List (F142.Message × Option TdcTime.Message))
  | _, [] => .ok []
  | s, pvStructure :: rest => do
      let (s, messages) ← handleUpdate nt channel s pvStructure
      let others ← handleUpdates nt channel s rest
      return messages :: others

/-- The alarm of an update that follows another: if it has one, both have a
message, and a message that is new comes with a severity. -/
def AlarmFollows (previous next : PVStructure) : Prop :=
  next.getSubField "alarm" = none ∨
    ∃ current before, next.alarmMessage = some current ∧
      previous.alarmMessage = some before ∧
      (current ≠ before → next.alarmSeverity.isSome = true)

/-- The alarm of an update, given the one in the cache. -/
def AlarmReadable (cached : Option PVStructure) (pvStructure : PVStructure) : Prop :=
  match cached with
  | none => pvStructure.AlarmOk
  | some previous => AlarmFollows previous pvStructure

/-- The parts of an update that only the converters look at. -/
structure PVStructure.Convertible (nt : NormativeTypes) (pvStructure : PVStructure) :
    Prop where
  timeStamp : pvStructure.TimeStampOk
  scalarArray : pvStructure.id = TdcTime.expectedStructType →
    nt.wrapsScalarArray pvStructure = true

/-- The cache holds an object that exists. -/
def EpicsClientMonitor.Valid (s : EpicsClientMonitor) : Prop :=
  ∀ address, s.cachedUpdate = some address → address < s.updates.length

variable {nt : NormativeTypes} {channel : String} {s s' : EpicsClientMonitor}
  {pvStructure : PVStructure}

theorem cachedStructure_receive (hvalid : s.Valid) (channel : String)
    (pvStructure : PVStructure) :
    (s.receive channel pvStructure).cachedStructure = s.cachedStructure := by
  unfold EpicsClientMonitor.cachedStructure
  cases hcached : s.cachedUpdate with
  | none => simp [EpicsClientMonitor.receive, hcached]
  | some address =>
      have hlt := hvalid address hcached
      simp [EpicsClientMonitor.receive, hcached, List.getElem?_append_left hlt]

/-- A received update was emitted: it is marked as the comparison with the
cache says, and cached. -/
structure Emitted (s : EpicsClientMonitor) (update : EpicsPVUpdate)
    (s' : EpicsClientMonitor) : Prop where
  changed : EpicsClientMonitor.changedFrom s.cachedStructure update.pvStructure =
    .ok update.alarmStatusChanged
  stored : s'.updates[s.updates.length]? = some update
  cached : s'.cachedStructure = some update.pvStructure
  valid : s'.Valid

theorem receive_getElem? (s : EpicsClientMonitor) (channel : String)
    (pvStructure : PVStructure) :
    (s.receive channel pvStructure).updates[s.updates.length]? =
      some ⟨pvStructure, channel, false⟩ := by
  simp [EpicsClientMonitor.receive]

/-- The object of the received update after it was marked, or not. -/
theorem marked_getElem? (s : EpicsClientMonitor) (channel : String)
    (pvStructure : PVStructure) (changed : Bool) :
    (if changed then (s.receive channel pvStructure).mark s.updates.length
      else s.receive channel pvStructure).updates[s.updates.length]? =
      some ⟨pvStructure, channel, changed⟩ := by
  cases changed with
  | false => exact receive_getElem? s channel pvStructure
  | true => simp [EpicsClientMonitor.mark, receive_getElem?]

theorem emit_receive (hvalid : s.Valid)
    (hemit : (s.receive channel pvStructure).emit s.updates.length = .ok s') :
    ∃ changed, Emitted s ⟨pvStructure, channel, changed⟩ s' := by
  obtain ⟨update, changed, hupdate, hchanged, rfl⟩ := emit_eq_ok.mp hemit
  rw [receive_getElem?] at hupdate
  cases hupdate
  rw [cachedStructure_receive hvalid] at hchanged
  have hstored := marked_getElem? s channel pvStructure changed
  refine ⟨changed, hchanged, hstored, ?_, ?_⟩
  · simp only [EpicsClientMonitor.cachedStructure, Option.bind_some, hstored,
      Option.map_some]
  · intro address haddress
    cases haddress
    exact (List.getElem?_eq_some_iff.mp hstored).1

theorem emit_receive_ok (hvalid : s.Valid) (channel : String) {changed : Bool}
    (hchanged : EpicsClientMonitor.changedFrom s.cachedStructure pvStructure =
      .ok changed) :
    ∃ s', (s.receive channel pvStructure).emit s.updates.length = .ok s' := by
  rw [← cachedStructure_receive hvalid channel pvStructure] at hchanged
  exact ⟨_, emit_eq_ok.mpr
    ⟨_, changed, receive_getElem? s channel pvStructure, hchanged, rfl⟩⟩

/-- The alarm can be read if the comparison succeeds and an update that gets
marked has all its alarm fields. -/
theorem alarmReadable_iff {cached : Option PVStructure} :
    AlarmReadable cached pvStructure ↔
      ∃ changed, EpicsClientMonitor.changedFrom cached pvStructure = .ok changed ∧
        (changed = true → pvStructure.AlarmOk) := by
  cases cached with
  | none => simp [AlarmReadable, EpicsClientMonitor.changedFrom]
  | some previous =>
      simp only [AlarmReadable, EpicsClientMonitor.changedFrom, AlarmFollows,
        alarmMessageChanged_eq_ok, PVStructure.AlarmOk]
      constructor
      · rintro (hnone | ⟨current, before, hcurrent, hbefore, hseverity⟩)
        · exact ⟨false, Or.inl ⟨hnone, rfl⟩, nofun⟩
        · by_cases hnone : pvStructure.getSubField "alarm" = none
          · exact ⟨false, Or.inl ⟨hnone, rfl⟩, nofun⟩
          · refine ⟨_, Or.inr ⟨hnone, current, before, hcurrent, hbefore, rfl⟩, ?_⟩
            intro hchanged
            exact Or.inr ⟨by simp [hcurrent], hseverity (by simpa using hchanged)⟩
      · rintro ⟨changed, ⟨hnone, -⟩ | ⟨hsome, current, before, hcurrent, hbefore, rfl⟩, hok⟩
        · exact Or.inl hnone
        · refine Or.inr ⟨current, before, hcurrent, hbefore, fun hne => ?_⟩
          exact ((hok (by simpa using hne)).resolve_left hsome).2

theorem handleUpdate_defined (hvalid : s.Valid) (channel : String) :
    Defined (handleUpdate nt channel s pvStructure) ↔
      pvStructure.Convertible nt ∧ AlarmReadable s.cachedStructure pvStructure := by
  rw [alarmReadable_iff]
  simp only [handleUpdate, defined_bind, deref_eq_ok, defined_pure, and_true]
  constructor
  · rintro ⟨emitted, hemit, update, hupdate, message, hmessage, timestamps, htimestamps⟩
    obtain ⟨changed, hemitted⟩ := emit_receive hvalid hemit
    rw [hemitted.stored] at hupdate
    cases hupdate
    obtain ⟨halarm, htimeStamp⟩ := (f142_create_defined nt _).mp ⟨message, hmessage⟩
    have harray := (tdcTime_create_defined nt _).mp ⟨timestamps, htimestamps⟩
    exact ⟨⟨htimeStamp, harray⟩, changed, hemitted.changed, halarm⟩
  · rintro ⟨⟨htimeStamp, harray⟩, changed, hchanged, halarm⟩
    obtain ⟨s', hemit⟩ := emit_receive_ok hvalid channel hchanged
    obtain ⟨other, hemitted⟩ := emit_receive hvalid hemit
    have hsame : other = changed := by
      have hother := hemitted.changed
      rw [hchanged] at hother
      exact (Except.ok.inj hother).symm
    subst hsame
    obtain ⟨message, hmessage⟩ :=
      (f142_create_defined nt ⟨pvStructure, channel, other⟩).mpr ⟨halarm, htimeStamp⟩
    obtain ⟨timestamps, htimestamps⟩ :=
      (tdcTime_create_defined nt ⟨pvStructure, channel, other⟩).mpr harray
    exact ⟨s', hemit, _, hemitted.stored, message, hmessage, timestamps, htimestamps⟩

theorem handleUpdate_eq_ok (hvalid : s.Valid)
    {messages : F142.Message × Option TdcTime.Message}
    (hhandle : handleUpdate nt channel s pvStructure = .ok (s', messages)) :
    s'.cachedStructure = some pvStructure ∧ s'.Valid := by
  simp only [handleUpdate, bind_eq_ok] at hhandle
  obtain ⟨emitted, hemit, update, -, message, -, timestamps, -, hresult⟩ := hhandle
  obtain ⟨changed, hemitted⟩ := emit_receive hvalid hemit
  cases hresult
  exact ⟨hemitted.cached, hemitted.valid⟩

/-- The condition on a sequence, given the update in the cache. -/
def SequenceOk (nt : NormativeTypes) : Option PVStructure → List PVStructure → Prop
  | _, [] => True
  | cached, pvStructure :: rest =>
      (pvStructure.Convertible nt ∧ AlarmReadable cached pvStructure) ∧
        SequenceOk nt (some pvStructure) rest

/-- The induction is on the updates; the cache is the update before. -/
theorem handleUpdates_defined_from (hvalid : s.Valid) (updates : List PVStructure) :
    Defined (handleUpdates nt channel s updates) ↔
      SequenceOk nt s.cachedStructure updates := by
  induction updates generalizing s with
  | nil => simp [handleUpdates, SequenceOk]
  | cons pvStructure rest ih =>
      simp only [handleUpdates, SequenceOk, defined_bind, defined_pure, and_true]
      rw [← handleUpdate_defined hvalid channel]
      constructor
      · rintro ⟨⟨s', messages⟩, hhandle, hrest⟩
        obtain ⟨hcached, hvalid'⟩ := handleUpdate_eq_ok hvalid hhandle
        exact ⟨⟨_, hhandle⟩, hcached ▸ (ih hvalid').mp hrest⟩
      · rintro ⟨⟨⟨s', messages⟩, hhandle⟩, hrest⟩
        obtain ⟨hcached, hvalid'⟩ := handleUpdate_eq_ok hvalid hhandle
        exact ⟨_, hhandle, (ih hvalid').mpr (hcached ▸ hrest)⟩

theorem sequenceOk_some (previous : PVStructure) (updates : List PVStructure) :
    SequenceOk nt (some previous) updates ↔
      (∀ pvStructure ∈ updates, pvStructure.Convertible nt) ∧
        (previous :: updates).IsChain AlarmFollows := by
  induction updates generalizing previous with
  | nil => simp [SequenceOk]
  | cons pvStructure rest ih =>
      simp only [SequenceOk, ih, AlarmReadable, List.forall_mem_cons,
        List.isChain_cons_cons]
      tauto

/-- A sequence of updates is emitted and converted without dereferencing null
if and only if every time stamp that is a structure has its two fields, every
structure with the type id of `NTScalarArray` can be wrapped as one, an alarm
on the first update is complete, and an alarm on a later one finds a message
on both sides and, where the message is new, a severity. -/
theorem handleUpdates_defined_iff (nt : NormativeTypes) (channel : String)
    (updates : List PVStructure) :
    Defined (handleUpdates nt channel { updates := [] } updates) ↔
      (∀ pvStructure ∈ updates, pvStructure.Convertible nt) ∧
        (∀ first, updates.head? = some first → first.AlarmOk) ∧
        updates.IsChain AlarmFollows := by
  have hvalid : EpicsClientMonitor.Valid { updates := [] } := nofun
  rw [handleUpdates_defined_from hvalid]
  cases updates with
  | nil => simp [SequenceOk]
  | cons first rest =>
      have hcached : EpicsClientMonitor.cachedStructure { updates := [] } = none := rfl
      rw [hcached, SequenceOk, sequenceOk_some]
      simp only [AlarmReadable, List.forall_mem_cons, List.head?_cons, Option.some.injEq,
        forall_eq']
      tauto

/-- Normative types that look at the `value` field only. -/
def NormativeTypes.ofValue : NormativeTypes where
  isEnum pvStructure :=
    match pvStructure.getSubField "value" with
    | some (.structured id fields) =>
        ((PVStructure.getSubField ⟨id, fields⟩ "index").bind PVField.asScalar).isSome
    | _ => false
  wrapsScalarArray pvStructure :=
    ((pvStructure.getSubField "value").bind PVField.asScalarArray).isSome
  enum_index pvStructure henum := by
    split at henum
    · rename_i id fields hvalue
      obtain ⟨index, hindex⟩ := Option.isSome_iff_exists.mp henum
      obtain ⟨field, hfield, hscalar⟩ := Option.bind_eq_some_iff.mp hindex
      refine ⟨id, fields, index, hvalue, ?_⟩
      cases field with
      | scalar value => cases hscalar; exact hfield
      | scalarArray | structured | structureArray | union | unionArray => cases hscalar
    · cases henum
  array_value pvStructure hwraps := by
    obtain ⟨values, hvalues⟩ := Option.isSome_iff_exists.mp hwraps
    obtain ⟨field, hfield, harray⟩ := Option.bind_eq_some_iff.mp hvalues
    refine ⟨values, ?_⟩
    cases field with
    | scalarArray elements => cases harray; exact hfield
    | scalar | structured | structureArray | union | unionArray => cases harray

/-- The first update has no alarm, the second has one: the alarm of the cached
update is null. -/
theorem alarmAppears_not_defined :
    ¬ ∀ (nt : NormativeTypes) (channel : String) (updates : List PVStructure),
      Defined (handleUpdates nt channel { updates := [] } updates) := by
  intro hall
  obtain ⟨messages, hmessages⟩ := hall .ofValue "pv"
    [⟨"epics:nt/NTScalar:1.0", [("value", .scalar (.int 1))]⟩,
      .alarmed "HIGH_ALARM" 1]
  have hfails : (handleUpdates .ofValue "pv" { updates := [] }
      [⟨"epics:nt/NTScalar:1.0", [("value", .scalar (.int 1))]⟩,
        .alarmed "HIGH_ALARM" 1]).isOk = false := by
    decide +kernel
  rw [hmessages] at hfails
  cases hfails

end EpicsToKafka.PVData
