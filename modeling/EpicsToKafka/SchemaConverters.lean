/-
The f142 and TdcTime converters on PV structures of any shape.  The checks of
normative types live in a library of EPICS and enter as parameters, with the
shape they promise.
-/
import EpicsToKafka.PVData

namespace EpicsToKafka.PVData

/-- The two checks that normative types make for the converters.  A structure
that passes as `NTEnum` has a scalar `value.index`; one that `NTScalarArray`
wraps has an array as its `value`. -/
structure NormativeTypes where
  isEnum : PVStructure → Bool
  wrapsScalarArray : PVStructure → Bool
  enum_index : ∀ pvStructure, isEnum pvStructure = true →
    ∃ id fields index,
      pvStructure.getSubField "value" = some (.structured id fields) ∧
        PVStructure.getSubField ⟨id, fields⟩ "index" = some (.scalar index)
  array_value : ∀ pvStructure, wrapsScalarArray pvStructure = true →
    ∃ values, pvStructure.getSubField "value" = some (.scalarArray values)

structure EpicsPVUpdate where
  pvStructure : PVStructure
  channel : String
  alarmStatusChanged : Bool := false
deriving Repr

namespace F142

/-- The `Value` union of the f142 schema. -/
inductive Value where
  | none
  | byte (value : Int8)
  | ubyte (value : UInt8)
  | short (value : Int16)
  | ushort (value : UInt16)
  | int (value : Int32)
  | uint (value : UInt32)
  | long (value : Int64)
  | ulong (value : UInt64)
  | float (bits : UInt32)
  | double (bits : UInt64)
  | string (value : String)
  | arrayByte (values : List Int8)
  | arrayUByte (values : List UInt8)
  | arrayShort (values : List Int16)
  | arrayUShort (values : List UInt16)
  | arrayInt (values : List Int32)
  | arrayUInt (values : List UInt32)
  | arrayLong (values : List Int64)
  | arrayULong (values : List UInt64)
  | arrayFloat (bits : List UInt32)
  | arrayDouble (bits : List UInt64)
deriving Repr, DecidableEq

/-- A boolean is one byte. -/
def byteOfBool (value : Bool) : Int8 :=
  if value then 1 else 0

def makeValueScalar : PVScalar → Value
  | .boolean value => .byte (byteOfBool value)
  | .byte value => .byte value
  | .short value => .short value
  | .int value => .int value
  | .long value => .long value
  | .ubyte value => .ubyte value
  | .ushort value => .ushort value
  | .uint value => .uint value
  | .ulong value => .ulong value
  | .float bits => .float bits
  | .double bits => .double bits
  | .string value => .string value

/-- Arrays of strings are not implemented. -/
def makeValueArray : PVScalarArray → Value
  | .boolean values => .arrayByte (values.map byteOfBool)
  | .byte values => .arrayByte values
  | .short values => .arrayShort values
  | .int values => .arrayInt values
  | .long values => .arrayLong values
  | .ubyte values => .arrayUByte values
  | .ushort values => .arrayUShort values
  | .uint values => .arrayUInt values
  | .ulong values => .arrayULong values
  | .float bits => .arrayFloat bits
  | .double bits => .arrayDouble bits
  | .string _ => .none

/-- A structure is only understood as an enumeration, of which the index is
sent. -/
def makeValue (nt : NormativeTypes) (pvStructure : PVStructure) :
    Except NullPointer Value :=
  match pvStructure.getSubField "value" with
  | none => .ok .none
  | some (.scalar value) => .ok (makeValueScalar value)
  | some (.scalarArray values) => .ok (makeValueArray values)
  | some (.structured id fields) =>
      if nt.isEnum pvStructure then do
        let index ← deref .enumIndex
          ((PVStructure.getSubField ⟨id, fields⟩ "index").bind PVField.asScalar)
        return makeValueScalar index
      else .ok .none
  | some .structureArray | some .union | some .unionArray => .ok .none

/-- The alarm fields are written only if the update is marked. -/
def makeAlarm (update : EpicsPVUpdate) : Except NullPointer LogData :=
  if update.alarmStatusChanged then do
    let status ← getAlarmStatus update.pvStructure
    let severity ← getAlarmSeverity update.pvStructure
    return { status := addElement status .noChange
             severity := addElement severity .noChange }
  else .ok {}

/-- `getSubField<PVStructure>("timeStamp")`. -/
def timeStampStructure (pvStructure : PVStructure) : Option PVStructure :=
  (pvStructure.getSubField "timeStamp").bind PVField.asStructure

def secondsPastEpoch (timeStamp : PVStructure) : Option Int64 :=
  (timeStamp.getSubField "secondsPastEpoch").bind PVField.asInt64

def nanoseconds (timeStamp : PVStructure) : Option Int32 :=
  (timeStamp.getSubField "nanoseconds").bind PVField.asInt32

/-- A time stamp that is not a structure counts as missing; the fields of one
that is are not checked. -/
def makeTimestamp (pvStructure : PVStructure) : Except NullPointer (Option UInt64) :=
  match timeStampStructure pvStructure with
  | none => .ok none
  | some timeStamp => do
      let seconds ← deref .secondsPastEpoch (secondsPastEpoch timeStamp)
      let nanoseconds ← deref .nanoseconds (nanoseconds timeStamp)
      return some (seconds.toUInt64 * 1000000000 + nanoseconds.toInt64.toUInt64)

structure Message where
  sourceName : String
  key : String
  value : Value
  alarm : LogData
  timestamp : Option UInt64
deriving Repr, DecidableEq

def Converter.create (nt : NormativeTypes) (update : EpicsPVUpdate) :
    Except NullPointer Message := do
  let value ← makeValue nt update.pvStructure
  let alarm ← makeAlarm update
  let timestamp ← makeTimestamp update.pvStructure
  return ⟨update.channel, update.channel, value, alarm, timestamp⟩

end F142

namespace TdcTime

def expectedStructType : String :=
  "epics:nt/NTScalarArray:1.0"

structure Message where
  name : String
  timestamps : List UInt64
deriving Repr, DecidableEq

/-- Pairs of seconds and nanoseconds, computed in a 64-bit `long`. -/
def pairTimestamps : List Int32 → List UInt64
  | seconds :: nanoseconds :: rest =>
      UInt64.ofInt (seconds.toInt * 1000000000 + nanoseconds.toInt) ::
        pairTimestamps rest
  | _ => []

/-- An array of odd length throws. -/
def calcTimestamps (values : List Int32) : Option (List UInt64) :=
  if values.length % 2 ≠ 0 then none else some (pairTimestamps values)

/-- There is no message for other element types, for an odd length and for an
empty array. -/
def makeMessage (channel : String) : PVScalarArray → Option Message
  | .int elements =>
      match calcTimestamps elements with
      | none | some [] => none
      | some timestamps => some ⟨channel, timestamps⟩
  | _ => none

def Converter.create (nt : NormativeTypes) (update : EpicsPVUpdate) :
    Except NullPointer (Option Message) :=
  if update.pvStructure.id ≠ expectedStructType then .ok none
  else do
    -- `wrap` gives null if the structure does not fit its type id
    let value ← deref .ntScalarArray
      (if nt.wrapsScalarArray update.pvStructure then
        some (update.pvStructure.getSubField "value")
      else none)
    let values ← deref .scalarArray (value.bind PVField.asScalarArray)
    return makeMessage update.channel values

end TdcTime

variable (nt : NormativeTypes) (update : EpicsPVUpdate) (pvStructure : PVStructure)

/-- A time stamp that is a structure has 64-bit seconds and 32-bit
nanoseconds. -/
def PVStructure.TimeStampOk (pvStructure : PVStructure) : Prop :=
  ∀ timeStamp, F142.timeStampStructure pvStructure = some timeStamp →
    (F142.secondsPastEpoch timeStamp).isSome = true ∧
      (F142.nanoseconds timeStamp).isSome = true

/-- An alarm that is there has a message and a severity. -/
def PVStructure.AlarmOk (pvStructure : PVStructure) : Prop :=
  pvStructure.getSubField "alarm" = none ∨
    pvStructure.alarmMessage.isSome = true ∧ pvStructure.alarmSeverity.isSome = true

theorem makeValue_defined : Defined (F142.makeValue nt pvStructure) := by
  unfold F142.makeValue
  cases hvalue : pvStructure.getSubField "value" with
  | none => exact defined_ok _
  | some field =>
      cases field with
      | structured id fields =>
          by_cases henum : nt.isEnum pvStructure = true
          · obtain ⟨id', fields', index, hstructured, hindex⟩ :=
              nt.enum_index pvStructure henum
            rw [hvalue] at hstructured
            cases hstructured
            simp [henum, hindex, deref, PVField.asScalar]
          · simp [henum]
      | scalar _ | scalarArray _ | structureArray | union | unionArray =>
          exact defined_ok _

theorem makeTimestamp_defined :
    Defined (F142.makeTimestamp pvStructure) ↔ pvStructure.TimeStampOk := by
  unfold F142.makeTimestamp PVStructure.TimeStampOk
  cases F142.timeStampStructure pvStructure with
  | none => simp
  | some timeStamp =>
      simp only [defined_bind, deref_eq_ok, defined_pure, and_true, Option.some.injEq,
        forall_eq', Option.isSome_iff_exists, exists_and_right]

theorem makeAlarm_defined :
    Defined (F142.makeAlarm update) ↔
      (update.alarmStatusChanged = true → update.pvStructure.AlarmOk) := by
  have hstatus := getAlarmStatus_defined update.pvStructure
  have hseverity := getAlarmSeverity_defined update.pvStructure
  unfold F142.makeAlarm
  cases hchanged : update.alarmStatusChanged with
  | false => simp
  | true =>
      simp only [if_true, defined_bind, defined_pure, and_true, true_implies]
      rw [PVStructure.AlarmOk, or_and_left, ← hstatus, ← hseverity]
      exact exists_and_right

theorem f142_create_defined :
    Defined (F142.Converter.create nt update) ↔
      (update.alarmStatusChanged = true → update.pvStructure.AlarmOk) ∧
        update.pvStructure.TimeStampOk := by
  obtain ⟨value, hvalue⟩ := makeValue_defined nt update.pvStructure
  rw [← makeAlarm_defined, ← makeTimestamp_defined]
  unfold F142.Converter.create
  rw [defined_bind]
  simp only [hvalue, Except.ok.injEq, exists_eq_left']
  simp only [defined_bind, defined_pure, and_true]
  exact exists_and_right

theorem tdcTime_create_defined :
    Defined (TdcTime.Converter.create nt update) ↔
      (update.pvStructure.id = TdcTime.expectedStructType →
        nt.wrapsScalarArray update.pvStructure = true) := by
  unfold TdcTime.Converter.create
  by_cases hid : update.pvStructure.id = TdcTime.expectedStructType
  · rw [if_neg (not_not_intro hid), defined_deref_deref]
    by_cases hwraps : nt.wrapsScalarArray update.pvStructure = true
    · obtain ⟨values, hvalues⟩ := nt.array_value update.pvStructure hwraps
      simp [hwraps, hvalues, PVField.asScalarArray]
    · simp [hwraps, hid]
  · simp [hid]

/-- An update as the alarm model sees it. -/
def EpicsPVUpdate.alarmUpdate (update : EpicsPVUpdate) : EpicsToKafka.EpicsPVUpdate where
  alarm :=
    update.pvStructure.alarmMessage.bind fun message =>
      update.pvStructure.alarmSeverity.map fun severity =>
        ⟨message.toList, severity.toInt⟩
  alarmStatusChanged := update.alarmStatusChanged

/-- An alarm that can be read is not missing. -/
theorem getSubField_alarm_of_message {message : String}
    (hmessage : pvStructure.alarmMessage = some message) :
    ∃ alarmField, pvStructure.getSubField "alarm" = some alarmField := by
  obtain ⟨alarm, halarm, -⟩ := Option.bind_eq_some_iff.mp hmessage
  obtain ⟨alarmField, hfield, -⟩ := Option.bind_eq_some_iff.mp halarm
  exact ⟨alarmField, hfield⟩

theorem getAlarmStatus_eq {message : String}
    (hmessage : pvStructure.alarmMessage = some message) :
    getAlarmStatus pvStructure = .ok (alarmStatusOf message.toList) := by
  obtain ⟨alarmField, hfield⟩ := getSubField_alarm_of_message pvStructure hmessage
  obtain ⟨alarm, halarm, hstring⟩ := Option.bind_eq_some_iff.mp hmessage
  rw [alarmStructure_of_some hfield] at halarm
  simp only [getAlarmStatus, hfield]
  exact bind_eq_ok.mpr ⟨alarm, (deref_eq_ok _ _ _).mpr halarm,
    bind_eq_ok.mpr ⟨message, (deref_eq_ok _ _ _).mpr hstring, rfl⟩⟩

theorem getAlarmSeverity_eq {alarmField : PVField} {severity : Int32}
    (hfield : pvStructure.getSubField "alarm" = some alarmField)
    (hseverity : pvStructure.alarmSeverity = some severity) :
    getAlarmSeverity pvStructure =
      .ok (epicsSeverityToFlatbufferSeverity severity.toInt) := by
  obtain ⟨alarm, halarm, hint⟩ := Option.bind_eq_some_iff.mp hseverity
  rw [alarmStructure_of_some hfield] at halarm
  simp only [getAlarmSeverity, hfield]
  exact bind_eq_ok.mpr ⟨alarm, (deref_eq_ok _ _ _).mpr halarm,
    bind_eq_ok.mpr ⟨severity, (deref_eq_ok _ _ _).mpr hint, rfl⟩⟩

/-- A missing alarm is missing for the alarm model, a complete one is there. -/
theorem alarmUpdate_cases (halarm : update.pvStructure.AlarmOk) :
    (update.pvStructure.getSubField "alarm" = none ∧ update.alarmUpdate.alarm = none) ∨
      ∃ alarmField message severity,
        update.pvStructure.getSubField "alarm" = some alarmField ∧
        update.pvStructure.alarmMessage = some message ∧
        update.pvStructure.alarmSeverity = some severity ∧
        update.alarmUpdate.alarm = some ⟨message.toList, severity.toInt⟩ := by
  rcases halarm with hnone | ⟨hmessage, hseverity⟩
  · refine Or.inl ⟨hnone, ?_⟩
    simp [EpicsPVUpdate.alarmUpdate, PVStructure.alarmMessage, PVStructure.alarmStructure,
      hnone]
  · obtain ⟨message, hmessage⟩ := Option.isSome_iff_exists.mp hmessage
    obtain ⟨severity, hseverity⟩ := Option.isSome_iff_exists.mp hseverity
    obtain ⟨alarmField, hfield⟩ := getSubField_alarm_of_message _ hmessage
    refine Or.inr ⟨alarmField, message, severity, hfield, hmessage, hseverity, ?_⟩
    simp [EpicsPVUpdate.alarmUpdate, hmessage, hseverity]

/-- On complete alarms the converter writes what the alarm model writes. -/
theorem makeAlarm_eq_create (halarm : update.pvStructure.AlarmOk) :
    F142.makeAlarm update =
      .ok (EpicsToKafka.F142.Converter.create update.alarmUpdate) := by
  cases hchanged : update.alarmStatusChanged with
  | false =>
      simp [F142.makeAlarm, EpicsToKafka.F142.Converter.create, hchanged,
        EpicsPVUpdate.alarmUpdate]
  | true =>
      have hmarked : update.alarmUpdate.alarmStatusChanged = true := hchanged
      simp only [F142.makeAlarm, EpicsToKafka.F142.Converter.create, hchanged, hmarked,
        if_true, EpicsToKafka.getAlarmStatus, EpicsToKafka.getAlarmSeverity]
      rcases alarmUpdate_cases update halarm with
        ⟨hnone, hmissing⟩ | ⟨alarmField, message, severity, hfield, hmessage, hseverity, hsome⟩
      · simp only [getAlarmStatus, getAlarmSeverity, hnone, hmissing]
        rfl
      · rw [getAlarmStatus_eq _ hmessage, getAlarmSeverity_eq _ hfield hseverity, hsome]
        rfl

/-- On complete alarms the comparison is that of the alarm model, which fails
exactly where only the cached update has no alarm. -/
theorem alarmMessageChanged_eq (cached : EpicsPVUpdate)
    (halarm : update.pvStructure.AlarmOk) (hcached : cached.pvStructure.AlarmOk)
    (changed : Bool) :
    alarmMessageChanged update.pvStructure cached.pvStructure = .ok changed ↔
      EpicsToKafka.alarmMessageChanged update.alarmUpdate cached.alarmUpdate =
        some changed := by
  rw [alarmMessageChanged_eq_ok, EpicsToKafka.alarmMessageChanged]
  rcases alarmUpdate_cases update halarm with
    ⟨hnone, hmissing⟩ | ⟨alarmField, message, severity, hfield, hmessage, -, hsome⟩
  · simp [hnone, hmissing, eq_comm]
  · rcases alarmUpdate_cases cached hcached with
      ⟨hnone, hmissing⟩ | ⟨cachedField, before, severity', -, hbefore, -, hsome'⟩
    · have hno : cached.pvStructure.alarmMessage = none := by
        simp [PVStructure.alarmMessage, PVStructure.alarmStructure, hnone]
      simp [hfield, hsome, hmissing, hno]
    · simp [hfield, hsome, hsome', hmessage, hbefore, String.toList_inj, eq_comm]

end EpicsToKafka.PVData
