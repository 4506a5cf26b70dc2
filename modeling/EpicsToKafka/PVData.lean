/-
PV structures of any shape and the accesses the forwarder makes to them.  A
field may be missing or of another type, so every `getSubField` and
`dynamic_cast` can give null; dereferencing null is an error of its own here.
-/
import EpicsToKafka.Alarms

namespace EpicsToKafka.PVData

/-- A scalar with its value.  Floating point values are kept as their bits. -/
inductive PVScalar where
  | boolean (value : Bool)
  | byte (value : Int8)
  | short (value : Int16)
  | int (value : Int32)
  | long (value : Int64)
  | ubyte (value : UInt8)
  | ushort (value : UInt16)
  | uint (value : UInt32)
  | ulong (value : UInt64)
  | float (bits : UInt32)
  | double (bits : UInt64)
  | string (value : String)
deriving Repr, DecidableEq

inductive PVScalarArray where
  | boolean (values : List Bool)
  | byte (values : List Int8)
  | short (values : List Int16)
  | int (values : List Int32)
  | long (values : List Int64)
  | ubyte (values : List UInt8)
  | ushort (values : List UInt16)
  | uint (values : List UInt32)
  | ulong (values : List UInt64)
  | float (bits : List UInt32)
  | double (bits : List UInt64)
  | string (values : List String)
deriving Repr, DecidableEq

/-- A field of any type.  Nothing looks into the elements of the last three. -/
inductive PVField where
  | scalar (value : PVScalar)
  | scalarArray (values : PVScalarArray)
  | structured (id : String) (fields : List (String × PVField))
  | structureArray
  | union
  | unionArray
deriving Repr

/-- What an update carries: a type id and named fields. -/
structure PVStructure where
  id : String
  fields : List (String × PVField)
deriving Repr

/-- The pointers that are dereferenced without a check. -/
inductive NullPointer where
  | update
  | alarmStructure
  | alarmMessage
  | alarmSeverity
  | secondsPastEpoch
  | nanoseconds
  | enumIndex
  | ntScalarArray
  | scalarArray
deriving Repr, DecidableEq

namespace PVField

/-- `dynamic_cast<PVStructure *>`. -/
def asStructure : PVField → Option PVStructure
  | .structured id fields => some ⟨id, fields⟩
  | _ => none

/-- `dynamic_cast<PVScalar *>`. -/
def asScalar : PVField → Option PVScalar
  | .scalar value => some value
  | _ => none

/-- `dynamic_cast<PVScalarArray *>`. -/
def asScalarArray : PVField → Option PVScalarArray
  | .scalarArray values => some values
  | _ => none

/-- `dynamic_cast<PVScalarValue<std::string> *>`. -/
def asString : PVField → Option String
  | .scalar (.string value) => some value
  | _ => none

/-- `dynamic_cast<PVScalarValue<int32_t> *>`. -/
def asInt32 : PVField → Option Int32
  | .scalar (.int value) => some value
  | _ => none

/-- `dynamic_cast<PVScalarValue<int64_t> *>`. -/
def asInt64 : PVField → Option Int64
  | .scalar (.long value) => some value
  | _ => none

end PVField

/-- `getSubField(name)`; none of the names used here has a dot in it. -/
def PVStructure.getSubField (pvStructure : PVStructure) (name : String) :
    Option PVField :=
  (pvStructure.fields.find? fun field => field.1 = name).map Prod.snd

/-- `->` on a pointer that may be null. -/
def deref {α : Type} (pointer : NullPointer) : Option α → Except NullPointer α
  | some value => .ok value
  | none => .error pointer

/-- The alarm field as a structure, if it is one. -/
def PVStructure.alarmStructure (pvStructure : PVStructure) : Option PVStructure :=
  (pvStructure.getSubField "alarm").bind PVField.asStructure

/-- The string in `alarm.message`, if there is one. -/
def PVStructure.alarmMessage (pvStructure : PVStructure) : Option String :=
  pvStructure.alarmStructure.bind fun alarm =>
    (alarm.getSubField "message").bind PVField.asString

/-- The value in `alarm.severity`, if there is one. -/
def PVStructure.alarmSeverity (pvStructure : PVStructure) : Option Int32 :=
  pvStructure.alarmStructure.bind fun alarm =>
    (alarm.getSubField "severity").bind PVField.asInt32

def getAlarmStringFromUpdate (pvStructure : PVStructure) :
    Except NullPointer String := do
  let alarm ← deref .alarmStructure pvStructure.alarmStructure
  deref .alarmMessage ((alarm.getSubField "message").bind PVField.asString)

/-- The alarm of the new update is checked for null, that of the cached one is
not. -/
def alarmMessageChanged (update cached : PVStructure) : Except NullPointer Bool :=
  if (update.getSubField "alarm").isNone then .ok false
  else do
    let currentAlarmString ← getAlarmStringFromUpdate update
    let cachedAlarmString ← getAlarmStringFromUpdate cached
    return currentAlarmString ≠ cachedAlarmString

def getAlarmStatus (pvStructure : PVStructure) : Except NullPointer AlarmStatus :=
  match pvStructure.getSubField "alarm" with
  | none => .ok .noAlarm
  | some alarmField => do
      let alarm ← deref .alarmStructure alarmField.asStructure
      let message ← deref .alarmMessage
        ((alarm.getSubField "message").bind PVField.asString)
      return alarmStatusOf message.toList

def getAlarmSeverity (pvStructure : PVStructure) :
    Except NullPointer AlarmSeverity :=
  match pvStructure.getSubField "alarm" with
  | none => .ok .noAlarm
  | some alarmField => do
      let alarm ← deref .alarmStructure alarmField.asStructure
      let severity ← deref .alarmSeverity
        ((alarm.getSubField "severity").bind PVField.asInt32)
      return epicsSeverityToFlatbufferSeverity severity.toInt

/-- The computation does not dereference null. -/
def Defined {α : Type} (result : Except NullPointer α) : Prop :=
  ∃ value, result = .ok value

@[simp] theorem defined_ok {α : Type} (value : α) :
    Defined (.ok value : Except NullPointer α) :=
  ⟨value, rfl⟩

@[simp] theorem not_defined_error {α : Type} (pointer : NullPointer) :
    ¬ Defined (.error pointer : Except NullPointer α) :=
  nofun

@[simp] theorem defined_pure {α : Type} (value : α) :
    Defined (pure value : Except NullPointer α) :=
  ⟨value, rfl⟩

@[simp] theorem defined_deref {α : Type} (pointer : NullPointer) (value : Option α) :
    Defined (deref pointer value) ↔ value.isSome = true := by
  cases value <;> simp [deref]

theorem bind_eq_ok {α β : Type} {first : Except NullPointer α}
    {rest : α → Except NullPointer β} {result : β} :
    first >>= rest = .ok result ↔ ∃ value, first = .ok value ∧ rest value = .ok result := by
  cases first with
  | error pointer => exact iff_of_false nofun nofun
  | ok value =>
      constructor
      · exact fun hrest => ⟨value, rfl, hrest⟩
      · rintro ⟨other, hother, hrest⟩
        cases hother
        exact hrest

theorem defined_bind {α β : Type} (first : Except NullPointer α)
    (rest : α → Except NullPointer β) :
    Defined (first >>= rest) ↔ ∃ value, first = .ok value ∧ Defined (rest value) := by
  simp only [Defined, bind_eq_ok]
  constructor
  · rintro ⟨result, value, hvalue, hrest⟩
    exact ⟨value, hvalue, result, hrest⟩
  · rintro ⟨value, hvalue, result, hrest⟩
    exact ⟨result, value, hvalue, hrest⟩

@[simp] theorem deref_eq_ok {α : Type} (pointer : NullPointer) (value : Option α)
    (result : α) : deref pointer value = .ok result ↔ value = some result := by
  cases value <;> simp [deref]

/-- Reading the alarm message of an update that has none goes wrong. -/
theorem getAlarmStringFromUpdate_eq_ok {pvStructure : PVStructure} {message : String} :
    getAlarmStringFromUpdate pvStructure = .ok message ↔
      pvStructure.alarmMessage = some message := by
  unfold getAlarmStringFromUpdate PVStructure.alarmMessage
  cases pvStructure.alarmStructure with
  | none => exact iff_of_false nofun nofun
  | some alarm => exact deref_eq_ok _ _ _

theorem alarmMessageChanged_eq_ok {update cached : PVStructure} {changed : Bool} :
    alarmMessageChanged update cached = .ok changed ↔
      (update.getSubField "alarm" = none ∧ changed = false) ∨
        (update.getSubField "alarm" ≠ none ∧ ∃ current previous,
          update.alarmMessage = some current ∧ cached.alarmMessage = some previous ∧
          changed = decide (current ≠ previous)) := by
  unfold alarmMessageChanged
  cases halarm : update.getSubField "alarm" with
  | none => simp [eq_comm]
  | some alarm =>
      simp only [Option.isNone_some, Bool.false_eq_true, if_false, reduceCtorEq, false_and,
        ne_eq, not_false_eq_true, true_and, false_or, ← getAlarmStringFromUpdate_eq_ok]
      cases getAlarmStringFromUpdate update with
      | error pointer => exact iff_of_false nofun nofun
      | ok current =>
          cases getAlarmStringFromUpdate cached with
          | error pointer =>
              refine iff_of_false nofun ?_
              rintro ⟨_, _, _, hcached, _⟩
              cases hcached
          | ok previous =>
              constructor
              · intro hchanged
                cases hchanged
                exact ⟨current, previous, rfl, rfl, rfl⟩
              · rintro ⟨_, _, hcurrent, hprevious, rfl⟩
                cases hcurrent
                cases hprevious
                rfl

/-- Two pointers are followed one after the other. -/
theorem defined_deref_deref {α β γ : Type} (outer inner : NullPointer)
    (first : Option α) (second : α → Option β) (result : β → γ) :
    Defined (do
      let value ← deref outer first
      let value ← deref inner (second value)
      return result value) ↔ (first.bind second).isSome = true := by
  simp only [defined_bind, deref_eq_ok, defined_pure, and_true]
  constructor
  · rintro ⟨value, rfl, other, hsecond⟩
    simp [hsecond]
  · intro hsome
    obtain ⟨other, hother⟩ := Option.isSome_iff_exists.mp hsome
    obtain ⟨value, hfirst, hsecond⟩ := Option.bind_eq_some_iff.mp hother
    exact ⟨value, hfirst, other, hsecond⟩

/-- An alarm field that is there is the one the checks look at. -/
theorem alarmStructure_of_some {pvStructure : PVStructure} {alarmField : PVField}
    (halarm : pvStructure.getSubField "alarm" = some alarmField) :
    pvStructure.alarmStructure = alarmField.asStructure := by
  rw [PVStructure.alarmStructure, halarm]
  rfl

theorem getAlarmStatus_defined (pvStructure : PVStructure) :
    Defined (getAlarmStatus pvStructure) ↔
      pvStructure.getSubField "alarm" = none ∨ pvStructure.alarmMessage.isSome = true := by
  unfold getAlarmStatus
  cases halarm : pvStructure.getSubField "alarm" with
  | none => simp
  | some alarmField =>
      rw [PVStructure.alarmMessage, alarmStructure_of_some halarm]
      simpa using defined_deref_deref _ _ alarmField.asStructure _ _

theorem getAlarmSeverity_defined (pvStructure : PVStructure) :
    Defined (getAlarmSeverity pvStructure) ↔
      pvStructure.getSubField "alarm" = none ∨ pvStructure.alarmSeverity.isSome = true := by
  unfold getAlarmSeverity
  cases halarm : pvStructure.getSubField "alarm" with
  | none => simp
  | some alarmField =>
      rw [PVStructure.alarmSeverity, alarmStructure_of_some halarm]
      simpa using defined_deref_deref _ _ alarmField.asStructure _ _

end EpicsToKafka.PVData
