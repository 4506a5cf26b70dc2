/-
How the f142 converter writes the value of a PV.  The C++ type, the builder,
the member of the `Value` union and the width of an element come from tables
of their own; a reader of the message only has the union member to go by.
-/
import EpicsToKafka.FlatBuffers
import EpicsToKafka.SchemaConverters

namespace EpicsToKafka.PVData.F142.Buffer

open LittleEndian (Layout encode)
open FlatBuffers (Slot)

/-- The scalar types of pvData. -/
inductive ScalarType where
  | pvBoolean | pvByte | pvShort | pvInt | pvLong | pvUByte | pvUShort | pvUInt
  | pvULong | pvFloat | pvDouble | pvString
deriving Repr, DecidableEq

/-- The types `T0` with which `Make_Scalar` and `Make_ScalarArray` are used. -/
inductive CppType where
  | boolean | int8 | int16 | int32 | int64 | uint8 | uint16 | uint32 | uint64
  | float | double
deriving Repr, DecidableEq

def CppType.sizeof : CppType → Nat
  | .boolean | .int8 | .uint8 => 1
  | .int16 | .uint16 => 2
  | .int32 | .uint32 | .float => 4
  | .int64 | .uint64 | .double => 8

def CppType.isFloat : CppType → Bool
  | .float | .double => true
  | _ => false

def CppType.isSigned : CppType → Bool
  | .int8 | .int16 | .int32 | .int64 => true
  | _ => false

/-- The builders of tables with one number. -/
inductive ScalarBuilder where
  | byte | ubyte | short | ushort | int | uint | long | ulong | float | double
deriving Repr, DecidableEq

/-- The builders of tables with one vector. -/
inductive ArrayBuilder where
  | arrayByte | arrayUByte | arrayShort | arrayUShort | arrayInt | arrayUInt
  | arrayLong | arrayULong | arrayFloat | arrayDouble
deriving Repr, DecidableEq

/-- The members of the `Value` union. -/
inductive ValueType where
  | none
  | byte | ubyte | short | ushort | int | uint | long | ulong | float | double | string
  | arrayByte | arrayUByte | arrayShort | arrayUShort | arrayInt | arrayUInt
  | arrayLong | arrayULong | arrayFloat | arrayDouble
deriving Repr, DecidableEq

/-- `BuilderType_to_Enum_Value` of the scalar builders. -/
def ScalarBuilder.enumValue : ScalarBuilder → ValueType
  | .byte => .byte
  | .ubyte => .ubyte
  | .short => .short
  | .ushort => .ushort
  | .int => .int
  | .uint => .uint
  | .long => .long
  | .ulong => .ulong
  | .float => .float
  | .double => .double

/-- `BuilderType_to_Enum_Value` of the array builders. -/
def ArrayBuilder.enumValue : ArrayBuilder → ValueType
  | .arrayByte => .arrayByte
  | .arrayUByte => .arrayUByte
  | .arrayShort => .arrayShort
  | .arrayUShort => .arrayUShort
  | .arrayInt => .arrayInt
  | .arrayUInt => .arrayUInt
  | .arrayLong => .arrayLong
  | .arrayULong => .arrayULong
  | .arrayFloat => .arrayFloat
  | .arrayDouble => .arrayDouble

/-- The type of the field that `add_value` of a scalar builder fills. -/
def ScalarBuilder.element : ScalarBuilder → CppType
  | .byte => .int8
  | .ubyte => .uint8
  | .short => .int16
  | .ushort => .uint16
  | .int => .int32
  | .uint => .uint32
  | .long => .int64
  | .ulong => .uint64
  | .float => .float
  | .double => .double

/-- `Make_Scalar<T0>::ScalarType`. -/
def scalarBuilder : CppType → ScalarBuilder
  | .boolean => .byte
  | .int8 => .byte
  | .int16 => .short
  | .int32 => .int
  | .int64 => .long
  | .uint8 => .ubyte
  | .uint16 => .ushort
  | .uint32 => .uint
  | .uint64 => .ulong
  | .float => .float
  | .double => .double

/-- `Make_ScalarArray<T0>::ArrayType`. -/
def arrayBuilder : CppType → ArrayBuilder
  | .boolean => .arrayByte
  | .int8 => .arrayByte
  | .int16 => .arrayShort
  | .int32 => .arrayInt
  | .int64 => .arrayLong
  | .uint8 => .arrayUByte
  | .uint16 => .arrayUShort
  | .uint32 => .arrayUInt
  | .uint64 => .arrayULong
  | .float => .arrayFloat
  | .double => .arrayDouble

/-- `Make_ScalarArray<T0>::BooleanType`. -/
def booleanType : CppType → CppType
  | .boolean => .int8
  | other => other

/-- The implicit conversion of a number from one integer type to another, in
bytes.  Floating point numbers are only ever given to their own type. -/
def convertBytes (source target : CppType) (bytes : List UInt8) : List UInt8 :=
  if source.isFloat || target.isFloat then bytes
  else
    let negative := source.isSigned && bytes.getLast?.any (128 ≤ ·.toNat)
    (bytes ++ List.replicate 8 (if negative then 255 else 0)).take target.sizeof

/-- `getScalar()->getScalarType()`. -/
def scalarType : PVScalar → ScalarType
  | .boolean _ => .pvBoolean
  | .byte _ => .pvByte
  | .short _ => .pvShort
  | .int _ => .pvInt
  | .long _ => .pvLong
  | .ubyte _ => .pvUByte
  | .ushort _ => .pvUShort
  | .uint _ => .pvUInt
  | .ulong _ => .pvULong
  | .float _ => .pvFloat
  | .double _ => .pvDouble
  | .string _ => .pvString

/-- The bytes of a number in memory; a string is an object. -/
def scalarMemory : PVScalar → List UInt8
  | .boolean value => encode (byteOfBool value)
  | .byte value => encode value
  | .short value => encode value
  | .int value => encode value
  | .long value => encode value
  | .ubyte value => encode value
  | .ushort value => encode value
  | .uint value => encode value
  | .ulong value => encode value
  | .float bits => encode bits
  | .double bits => encode bits
  | .string _ => []

/-- `PVScalarValue<std::string>::get`. -/
def scalarText : PVScalar → String
  | .string value => value
  | _ => ""

/-- `getScalarArray()->getElementType()`. -/
def elementType : PVScalarArray → ScalarType
  | .boolean _ => .pvBoolean
  | .byte _ => .pvByte
  | .short _ => .pvShort
  | .int _ => .pvInt
  | .long _ => .pvLong
  | .ubyte _ => .pvUByte
  | .ushort _ => .pvUShort
  | .uint _ => .pvUInt
  | .ulong _ => .pvULong
  | .float _ => .pvFloat
  | .double _ => .pvDouble
  | .string _ => .pvString

/-- What `view().data()` points to. -/
def arrayMemory : PVScalarArray → List UInt8
  | .boolean values => values.flatMap fun value => encode (byteOfBool value)
  | .byte values => values.flatMap encode
  | .short values => values.flatMap encode
  | .int values => values.flatMap encode
  | .long values => values.flatMap encode
  | .ubyte values => values.flatMap encode
  | .ushort values => values.flatMap encode
  | .uint values => values.flatMap encode
  | .ulong values => values.flatMap encode
  | .float bits => bits.flatMap encode
  | .double bits => bits.flatMap encode
  | .string _ => []

/-- `view().size()`. -/
def arraySize : PVScalarArray → Nat
  | .boolean values => values.length
  | .byte values => values.length
  | .short values => values.length
  | .int values => values.length
  | .long values => values.length
  | .ubyte values => values.length
  | .ushort values => values.length
  | .uint values => values.length
  | .ulong values => values.length
  | .float bits => bits.length
  | .double bits => bits.length
  | .string values => values.length

/-- `Value_t`. -/
structure ValueT (Offset : Type) where
  type : ValueType
  offset : Option Offset

variable (fb : FlatBuffers)

/-- `Make_Scalar<T0>::convert`. -/
def makeScalar (t0 : CppType) (valueSubField : PVScalar) : ValueT fb.Offset :=
  let builder := scalarBuilder t0
  let value := (scalarMemory valueSubField).take t0.sizeof
  { type := builder.enumValue
    offset := some (fb.table [("value",
      .element (List.replicate builder.element.sizeof 0)
        (convertBytes t0 builder.element value))]) }

/-- `Make_ScalarArray<T0>::convert`. -/
def makeScalarArray (t0 : CppType) (valueSubField : PVScalarArray) (useMemCpy : Bool) :
    ValueT fb.Offset :=
  let value := arrayMemory valueSubField
  let valueSize := arraySize valueSubField
  let vectorValue :=
    if useMemCpy then
      fb.createVector t0.sizeof valueSize (value.take (t0.sizeof * valueSize))
    else
      fb.createVector (booleanType t0).sizeof valueSize
        (value.take ((booleanType t0).sizeof * valueSize))
  { type := (arrayBuilder t0).enumValue
    offset := some (fb.table [("value", .offset (some vectorValue))]) }

/-- `MakeScalarString::convert`. -/
def makeScalarString (pvScalarValue : PVScalar) : ValueT fb.Offset where
  type := .string
  offset := some (fb.table [("value",
    .offset (some (fb.createString (scalarText pvScalarValue))))])

def makeValueScalar (field : PVScalar) : ValueT fb.Offset :=
  match scalarType field with
  | .pvBoolean => makeScalar fb .boolean field
  | .pvByte => makeScalar fb .int8 field
  | .pvShort => makeScalar fb .int16 field
  | .pvInt => makeScalar fb .int32 field
  | .pvLong => makeScalar fb .int64 field
  | .pvUByte => makeScalar fb .uint8 field
  | .pvUShort => makeScalar fb .uint16 field
  | .pvUInt => makeScalar fb .uint32 field
  | .pvULong => makeScalar fb .uint64 field
  | .pvFloat => makeScalar fb .float field
  | .pvDouble => makeScalar fb .double field
  | .pvString => makeScalarString fb field

def makeValueArray (scalarArrayField : PVScalarArray) (opts : Bool) : ValueT fb.Offset :=
  match elementType scalarArrayField with
  | .pvBoolean => makeScalarArray fb .boolean scalarArrayField opts
  | .pvByte => makeScalarArray fb .int8 scalarArrayField opts
  | .pvShort => makeScalarArray fb .int16 scalarArrayField opts
  | .pvInt => makeScalarArray fb .int32 scalarArrayField opts
  | .pvLong => makeScalarArray fb .int64 scalarArrayField opts
  | .pvUByte => makeScalarArray fb .uint8 scalarArrayField opts
  | .pvUShort => makeScalarArray fb .uint16 scalarArrayField opts
  | .pvUInt => makeScalarArray fb .uint32 scalarArrayField opts
  | .pvULong => makeScalarArray fb .uint64 scalarArrayField opts
  | .pvFloat => makeScalarArray fb .float scalarArrayField opts
  | .pvDouble => makeScalarArray fb .double scalarArrayField opts
  | .pvString => ⟨.none, none⟩

def makeValue (nt : NormativeTypes) (pvStructureField : PVStructure) (opts : Bool) :
    Except NullPointer (ValueT fb.Offset) :=
  match pvStructureField.getSubField "value" with
  | none => .ok ⟨.none, none⟩
  | some (.scalar value) => .ok (makeValueScalar fb value)
  | some (.scalarArray values) => .ok (makeValueArray fb values opts)
  | some (.structured id fields) =>
      if nt.isEnum pvStructureField then do
        let indexField ← deref .enumIndex
          ((PVStructure.getSubField ⟨id, fields⟩ "index").bind PVField.asScalar)
        return makeValueScalar fb indexField
      else .ok ⟨.none, none⟩
  | some .structureArray | some .union | some .unionArray => .ok ⟨.none, none⟩

/-- The generated enumeration `Value`; only that `NONE` is zero matters. -/
def valueTypes : List ValueType :=
  [.none, .byte, .ubyte, .short, .ushort, .int, .uint, .long, .ulong, .float, .double,
    .string, .arrayByte, .arrayUByte, .arrayShort, .arrayUShort, .arrayInt, .arrayUInt,
    .arrayLong, .arrayULong, .arrayFloat, .arrayDouble]

/-- The generated enumeration `AlarmStatus`. -/
def alarmStatuses : List AlarmStatus :=
  enumNamesAlarmStatus.map Prod.snd

/-- The generated enumeration `AlarmSeverity`. -/
def alarmSeverities : List AlarmSeverity :=
  [.minor, .major, .noAlarm, .invalid, .noChange]

/-- The calls of `add_status` and `add_severity`. -/
def addAlarm (update : EpicsPVUpdate) :
    Except NullPointer (List (String × Slot fb.Offset)) :=
  if update.alarmStatusChanged then do
    let alarmStatusInfo ← getAlarmStatus update.pvStructure
    let alarmSeverityInfo ← getAlarmSeverity update.pvStructure
    return [("status", .enumerator (alarmStatuses.idxOf .noChange)
        (alarmStatuses.idxOf alarmStatusInfo)),
      ("severity", .enumerator (alarmSeverities.idxOf .noChange)
        (alarmSeverities.idxOf alarmSeverityInfo))]
  else .ok []

/-- The call of `add_timestamp`. -/
def addTimestamp (pvStructure : PVStructure) :
    Except NullPointer (List (String × Slot fb.Offset)) := do
  match ← makeTimestamp pvStructure with
  | none => return []
  | some timeStamp => return [("timestamp", .element (FlatBuffers.zeros UInt64) (encode timeStamp))]

/-- A `FlatbufferMessage`: the finished buffer and the key. -/
structure Message where
  root : fb.Offset
  key : String

/-- What is added to `LogData`, in the order of the calls. -/
def logDataFields (pvName : fb.Offset) (value : ValueT fb.Offset)
    (alarm timestamp : List (String × Slot fb.Offset)) : List (String × Slot fb.Offset) :=
  [("source_name", .offset (some pvName)),
    ("value_type", .enumerator (valueTypes.idxOf .none) (valueTypes.idxOf value.type)),
    ("value", .offset value.offset)] ++ alarm ++ timestamp

/-- `Converter::create`; the converter itself passes `true` for `opts`. -/
def Converter.create (nt : NormativeTypes) (opts : Bool) (pvUpdate : EpicsPVUpdate) :
    Except NullPointer (Message fb) := do
  let pvName := fb.createString pvUpdate.channel
  let value ← makeValue fb nt pvUpdate.pvStructure opts
  let alarm ← addAlarm fb pvUpdate
  let timestamp ← addTimestamp fb pvUpdate.pvStructure
  return { root := fb.table (logDataFields fb pvName value alarm timestamp)
           key := pvUpdate.channel }

/-- What a reader makes of a table, knowing the member of the union. -/
def readValue (type : ValueType) (table : fb.Offset) : Value :=
  match type with
  | .none => .none
  | .byte => .byte (fb.readScalar Int8 "value" table)
  | .ubyte => .ubyte (fb.readScalar UInt8 "value" table)
  | .short => .short (fb.readScalar Int16 "value" table)
  | .ushort => .ushort (fb.readScalar UInt16 "value" table)
  | .int => .int (fb.readScalar Int32 "value" table)
  | .uint => .uint (fb.readScalar UInt32 "value" table)
  | .long => .long (fb.readScalar Int64 "value" table)
  | .ulong => .ulong (fb.readScalar UInt64 "value" table)
  | .float => .float (fb.readScalar UInt32 "value" table)
  | .double => .double (fb.readScalar UInt64 "value" table)
  | .string => .string ((fb.readString "value" table).getD "")
  | .arrayByte => .arrayByte (fb.readVector Int8 "value" table)
  | .arrayUByte => .arrayUByte (fb.readVector UInt8 "value" table)
  | .arrayShort => .arrayShort (fb.readVector Int16 "value" table)
  | .arrayUShort => .arrayUShort (fb.readVector UInt16 "value" table)
  | .arrayInt => .arrayInt (fb.readVector Int32 "value" table)
  | .arrayUInt => .arrayUInt (fb.readVector UInt32 "value" table)
  | .arrayLong => .arrayLong (fb.readVector Int64 "value" table)
  | .arrayULong => .arrayULong (fb.readVector UInt64 "value" table)
  | .arrayFloat => .arrayFloat (fb.readVector UInt32 "value" table)
  | .arrayDouble => .arrayDouble (fb.readVector UInt64 "value" table)

/-- The union is read as nothing only if neither a member nor a value is
there; one without the other is malformed. -/
def readUnion (value : ValueT fb.Offset) : Option Value :=
  match value.offset with
  | none => if value.type = .none then some .none else none
  | some table => if value.type = .none then none else some (readValue fb value.type table)

namespace Message

variable {fb} (message : Message fb)

def sourceName : Option String :=
  fb.readString "source_name" message.root

def valueType : ValueType :=
  valueTypes.getD (fb.enumerator "value_type" (valueTypes.idxOf .none) message.root) .none

/-- The table of the union, if it is there. -/
def valueTable : Option fb.Offset :=
  fb.child "value" message.root

def value : Option Value :=
  readUnion fb ⟨message.valueType, message.valueTable⟩

def status : AlarmStatus :=
  alarmStatuses.getD
    (fb.enumerator "status" (alarmStatuses.idxOf .noChange) message.root) .noChange

def severity : AlarmSeverity :=
  alarmSeverities.getD
    (fb.enumerator "severity" (alarmSeverities.idxOf .noChange) message.root) .noChange

def timestamp : UInt64 :=
  fb.readScalar UInt64 "timestamp" message.root

end Message

theorem eq_int_of_asInt32 {field : PVField} {value : Int32}
    (hint : field.asInt32 = some value) : field = .scalar (.int value) := by
  unfold PVField.asInt32 at hint
  split at hint
  · cases hint
    rfl
  · cases hint

/-- An accepted `NTEnum` has an `int` as its index. -/
def IntIndex (nt : NormativeTypes) : Prop :=
  ∀ pvStructure id fields index, nt.isEnum pvStructure = true →
    pvStructure.getSubField "value" = some (.structured id fields) →
    PVStructure.getSubField ⟨id, fields⟩ "index" = some (.scalar index) →
    ∃ value, index = .int value

/-- Nothing to send: no value, an array of strings, a structure that is not an
`NTEnum`, an array of structures, a union. -/
def OtherShape (nt : NormativeTypes) (pvStructure : PVStructure) : Prop :=
  match pvStructure.getSubField "value" with
  | none => True
  | some (.scalar _) => False
  | some (.scalarArray (.string _)) => True
  | some (.scalarArray _) => False
  | some (.structured _ _) => nt.isEnum pvStructure = false
  | some .structureArray | some .union | some .unionArray => True

/-- The message carries the channel and the value of the PV. -/
structure CarriesValue {fb : FlatBuffers} (nt : NormativeTypes) (update : EpicsPVUpdate)
    (message : Message fb) : Prop where
  key : message.key = update.channel
  sourceName : message.sourceName = some update.channel
  scalar : ∀ field, update.pvStructure.getSubField "value" = some (.scalar field) →
    message.value = some (F142.makeValueScalar field)
  array : ∀ field, update.pvStructure.getSubField "value" = some (.scalarArray field) →
    message.value = some (F142.makeValueArray field)
  enum : nt.isEnum update.pvStructure = true → ∃ id fields index,
    update.pvStructure.getSubField "value" = some (.structured id fields) ∧
      PVStructure.getSubField ⟨id, fields⟩ "index" = some (.scalar (.int index)) ∧
      message.value = some (.int index)
  other : OtherShape nt update.pvStructure →
    message.valueType = .none ∧ message.valueTable = none

/-- A buffer is read as a message; a field that was left out has its
default. -/
structure ReadsAs {fb : FlatBuffers} (message : Message fb) (logData : F142.Message) : Prop where
  key : message.key = logData.key
  sourceName : message.sourceName = some logData.sourceName
  value : message.value = some logData.value
  status : message.status = logData.alarm.status.getD .noChange
  severity : message.severity = logData.alarm.severity.getD .noChange
  timestamp : message.timestamp = logData.timestamp.getD 0

section Written

variable {fb}

/-- A conversion between types of the same size keeps the bytes. -/
theorem convertBytes_eq {source target : CppType} {bytes : List UInt8}
    (hlength : bytes.length = target.sizeof) : convertBytes source target bytes = bytes := by
  unfold convertBytes
  split
  · rfl
  · exact List.take_left' hlength

/-- The table of a number is read as that number if the four tables agree on
its width. -/
theorem readUnion_makeScalar {τ : Type} [Layout τ] (make : τ → Value) (t0 : CppType)
    {field : PVScalar} {value : τ} (hmemory : scalarMemory field = encode value)
    (hsize : t0.sizeof = LittleEndian.width τ)
    (helement : (scalarBuilder t0).element.sizeof = LittleEndian.width τ)
    (htype : (scalarBuilder t0).enumValue ≠ .none)
    (hread : ∀ table, readValue fb (scalarBuilder t0).enumValue table =
      make (fb.readScalar τ "value" table)) :
    readUnion fb (makeScalar fb t0 field) = some (make value) := by
  have htake : (scalarMemory field).take t0.sizeof = encode value := by
    rw [hmemory, hsize, List.take_of_length_le (by simp)]
  have hconvert : convertBytes t0 (scalarBuilder t0).element (encode value) = encode value :=
    convertBytes_eq (by rw [LittleEndian.length_encode, helement])
  simp only [readUnion, makeScalar, htype, if_false, htake, hconvert, hread, helement]
  exact congrArg (some ∘ make) (fb.readScalar_table (by simp) List.mem_cons_self)

/-- The same for a vector, whichever way its bytes were copied. -/
theorem readUnion_makeScalarArray {τ : Type} [Layout τ] (make : List τ → Value)
    (t0 : CppType) {field : PVScalarArray} {values : List τ} (opts : Bool)
    (hmemory : arrayMemory field = values.flatMap encode)
    (hlength : arraySize field = values.length)
    (hsize : t0.sizeof = LittleEndian.width τ)
    (hboolean : (booleanType t0).sizeof = LittleEndian.width τ)
    (htype : (arrayBuilder t0).enumValue ≠ .none)
    (hread : ∀ table, readValue fb (arrayBuilder t0).enumValue table =
      make (fb.readVector τ "value" table)) :
    readUnion fb (makeScalarArray fb t0 field opts) = some (make values) := by
  have htake : (arrayMemory field).take (LittleEndian.width τ * values.length) =
      values.flatMap encode := by
    rw [hmemory, List.take_of_length_le]
    exact Nat.le_of_eq (LittleEndian.length_flatMap_encode values)
  simp only [readUnion, makeScalarArray, htype, if_false, hlength, hsize, hboolean, htake,
    ite_self, hread]
  rw [fb.readVector_table (by simp) List.mem_cons_self]

theorem readUnion_makeScalarString (field : PVScalar) :
    readUnion fb (makeScalarString fb field) = some (.string (scalarText field)) := by
  simp only [readUnion, makeScalarString, reduceCtorEq, if_false, readValue]
  rw [fb.readString_table (by simp) List.mem_cons_self, Option.getD_some]

/-- Every scalar is read as the union member for its type, with its value. -/
theorem readUnion_makeValueScalar (field : PVScalar) :
    readUnion fb (makeValueScalar fb field) = some (F142.makeValueScalar field) := by
  cases field with
  | boolean _ =>
      exact readUnion_makeScalar Value.byte .boolean rfl rfl rfl (by decide) fun _ => rfl
  | byte _ => exact readUnion_makeScalar Value.byte .int8 rfl rfl rfl (by decide) fun _ => rfl
  | short _ => exact readUnion_makeScalar Value.short .int16 rfl rfl rfl (by decide) fun _ => rfl
  | int _ => exact readUnion_makeScalar Value.int .int32 rfl rfl rfl (by decide) fun _ => rfl
  | long _ => exact readUnion_makeScalar Value.long .int64 rfl rfl rfl (by decide) fun _ => rfl
  | ubyte _ => exact readUnion_makeScalar Value.ubyte .uint8 rfl rfl rfl (by decide) fun _ => rfl
  | ushort _ =>
      exact readUnion_makeScalar Value.ushort .uint16 rfl rfl rfl (by decide) fun _ => rfl
  | uint _ => exact readUnion_makeScalar Value.uint .uint32 rfl rfl rfl (by decide) fun _ => rfl
  | ulong _ => exact readUnion_makeScalar Value.ulong .uint64 rfl rfl rfl (by decide) fun _ => rfl
  | float _ => exact readUnion_makeScalar Value.float .float rfl rfl rfl (by decide) fun _ => rfl
  | double _ =>
      exact readUnion_makeScalar Value.double .double rfl rfl rfl (by decide) fun _ => rfl
  | string _ => exact readUnion_makeScalarString _

/-- A vector of booleans is read as a vector of signed bytes. -/
theorem arrayMemory_boolean (values : List Bool) :
    arrayMemory (.boolean values) = (values.map byteOfBool).flatMap encode := by
  rw [arrayMemory, List.flatMap_map]

/-- Every array is read as the union member for its element type, with its
elements in their order; an array of strings is not written at all. -/
theorem readUnion_makeValueArray (field : PVScalarArray) (opts : Bool) :
    readUnion fb (makeValueArray fb field opts) = some (F142.makeValueArray field) := by
  cases field with
  | boolean values =>
      exact readUnion_makeScalarArray Value.arrayByte .boolean opts (arrayMemory_boolean values)
        (List.length_map _).symm rfl rfl (by decide) fun _ => rfl
  | byte _ =>
      exact readUnion_makeScalarArray Value.arrayByte .int8 opts rfl rfl rfl rfl (by decide)
        fun _ => rfl
  | short _ =>
      exact readUnion_makeScalarArray Value.arrayShort .int16 opts rfl rfl rfl rfl (by decide)
        fun _ => rfl
  | int _ =>
      exact readUnion_makeScalarArray Value.arrayInt .int32 opts rfl rfl rfl rfl (by decide)
        fun _ => rfl
  | long _ =>
      exact readUnion_makeScalarArray Value.arrayLong .int64 opts rfl rfl rfl rfl (by decide)
        fun _ => rfl
  | ubyte _ =>
      exact readUnion_makeScalarArray Value.arrayUByte .uint8 opts rfl rfl rfl rfl (by decide)
        fun _ => rfl
  | ushort _ =>
      exact readUnion_makeScalarArray Value.arrayUShort .uint16 opts rfl rfl rfl rfl (by decide)
        fun _ => rfl
  | uint _ =>
      exact readUnion_makeScalarArray Value.arrayUInt .uint32 opts rfl rfl rfl rfl (by decide)
        fun _ => rfl
  | ulong _ =>
      exact readUnion_makeScalarArray Value.arrayULong .uint64 opts rfl rfl rfl rfl (by decide)
        fun _ => rfl
  | float _ =>
      exact readUnion_makeScalarArray Value.arrayFloat .float opts rfl rfl rfl rfl (by decide)
        fun _ => rfl
  | double _ =>
      exact readUnion_makeScalarArray Value.arrayDouble .double opts rfl rfl rfl rfl (by decide)
        fun _ => rfl
  | string _ => rfl

variable {nt : NormativeTypes} {opts : Bool} {update : EpicsPVUpdate}
  {pvStructure : PVStructure}

/-- What is read from the value that was written is the value of the PV, and
null is dereferenced for the one where it is for the other. -/
theorem readUnion_makeValue (fb : FlatBuffers) (nt : NormativeTypes) (pvStructure : PVStructure)
    (opts : Bool) :
    (makeValue fb nt pvStructure opts).map (readUnion fb) =
      (F142.makeValue nt pvStructure).map some := by
  unfold makeValue F142.makeValue
  cases pvStructure.getSubField "value" with
  | none => rfl
  | some field =>
      cases field with
      | scalar value => exact congrArg Except.ok (readUnion_makeValueScalar value)
      | scalarArray values => exact congrArg Except.ok (readUnion_makeValueArray values opts)
      | structured id fields =>
          dsimp only
          split
          · cases (PVStructure.getSubField ⟨id, fields⟩ "index").bind PVField.asScalar with
            | none => rfl
            | some index => exact congrArg Except.ok (readUnion_makeValueScalar index)
          · rfl
      | structureArray | union | unionArray => rfl

theorem makeValue_eq_ok {value : ValueT fb.Offset}
    (hvalue : makeValue fb nt pvStructure opts = .ok value) :
    ∃ pvValue, F142.makeValue nt pvStructure = .ok pvValue ∧
      readUnion fb value = some pvValue := by
  have hread := (congrArg (Except.map (readUnion fb)) hvalue).symm.trans
    (readUnion_makeValue fb nt pvStructure opts)
  cases hpv : F142.makeValue nt pvStructure with
  | error pointer =>
      rw [hpv] at hread
      cases hread
  | ok pvValue =>
      rw [hpv] at hread
      exact ⟨pvValue, rfl, Except.ok.inj hread⟩

/-- Neither the alarm fields nor the time stamp are written without being
read from the structure. -/
theorem addAlarm_eq_ok {fields : List (String × Slot fb.Offset)}
    (hfields : addAlarm fb update = .ok fields) :
    (F142.makeAlarm update = .ok {} ∧ fields = []) ∨
      ∃ status severity,
        F142.makeAlarm update = .ok
          { status := addElement status .noChange, severity := addElement severity .noChange } ∧
        fields =
          [("status", .enumerator (alarmStatuses.idxOf .noChange) (alarmStatuses.idxOf status)),
            ("severity", .enumerator (alarmSeverities.idxOf .noChange)
              (alarmSeverities.idxOf severity))] := by
  unfold addAlarm at hfields
  unfold F142.makeAlarm
  split at hfields
  · rename_i hchanged
    obtain ⟨status, hstatus, hrest⟩ := bind_eq_ok.mp hfields
    obtain ⟨severity, hseverity, hrest⟩ := bind_eq_ok.mp hrest
    cases hrest
    rw [if_pos hchanged, hstatus, hseverity]
    exact Or.inr ⟨status, severity, rfl, rfl⟩
  · rename_i hchanged
    cases hfields
    rw [if_neg hchanged]
    exact Or.inl ⟨rfl, rfl⟩

theorem addTimestamp_eq_ok {fields : List (String × Slot fb.Offset)}
    (hfields : addTimestamp fb pvStructure = .ok fields) :
    (F142.makeTimestamp pvStructure = .ok none ∧ fields = []) ∨
      ∃ timeStamp, F142.makeTimestamp pvStructure = .ok (some timeStamp) ∧
        fields = [("timestamp", .element (FlatBuffers.zeros UInt64) (encode timeStamp))] := by
  obtain ⟨timeStamp, htimeStamp, hrest⟩ := bind_eq_ok.mp hfields
  cases timeStamp with
  | none =>
      cases hrest
      exact Or.inl ⟨htimeStamp, rfl⟩
  | some timeStamp =>
      cases hrest
      exact Or.inr ⟨timeStamp, htimeStamp, rfl⟩

/-- The enumerations hold every value once. -/
theorem valueTypes_getD (type : ValueType) :
    valueTypes.getD (valueTypes.idxOf type) .none = type := by
  cases type <;> rfl

theorem alarmStatuses_getD (status : AlarmStatus) :
    alarmStatuses.getD (alarmStatuses.idxOf status) .noChange = status := by
  cases status <;> rfl

theorem alarmSeverities_getD (severity : AlarmSeverity) :
    alarmSeverities.getD (alarmSeverities.idxOf severity) .noChange = severity := by
  cases severity <;> rfl

theorem addElement_getD {α : Type} [DecidableEq α] (value default : α) :
    (addElement value default).getD default = value := by
  unfold addElement
  split
  · rename_i heq
    exact heq.symm
  · rfl

section Fields

variable (pvName : fb.Offset) (value : ValueT fb.Offset) {key : String}
  {alarm timestamp : List (String × Slot fb.Offset)}
  (halarm : addAlarm fb update = .ok alarm)
  (htimestamp : addTimestamp fb pvStructure = .ok timestamp)

include halarm htimestamp

/-- The names of the fields are distinct whether or not alarm and time stamp
are there. -/
theorem logDataFields_nodup :
    ((logDataFields fb pvName value alarm timestamp).map Prod.fst).Nodup := by
  rcases addAlarm_eq_ok halarm with ⟨-, rfl⟩ | ⟨_, _, -, rfl⟩ <;>
    rcases addTimestamp_eq_ok htimestamp with ⟨-, rfl⟩ | ⟨_, -, rfl⟩ <;>
      simp [logDataFields]

theorem sourceName_table {text : String} :
    Message.sourceName ⟨fb.table (logDataFields fb (fb.createString text) value alarm timestamp),
      key⟩ = some text :=
  fb.readString_table (logDataFields_nodup _ _ halarm htimestamp) (by simp [logDataFields])

theorem valueType_table :
    Message.valueType ⟨fb.table (logDataFields fb pvName value alarm timestamp), key⟩ =
      value.type := by
  rw [Message.valueType, fb.enumerator_table "value_type" _ (valueTypes.idxOf value.type) _
    (logDataFields_nodup _ _ halarm htimestamp) (by simp [logDataFields]), valueTypes_getD]

theorem valueTable_table :
    Message.valueTable ⟨fb.table (logDataFields fb pvName value alarm timestamp), key⟩ =
      value.offset :=
  fb.child_table _ _ _ (logDataFields_nodup _ _ halarm htimestamp) (by simp [logDataFields])

theorem alarm_table :
    ∃ logData, F142.makeAlarm update = .ok logData ∧
      Message.status ⟨fb.table (logDataFields fb pvName value alarm timestamp), key⟩ =
        logData.status.getD .noChange ∧
      Message.severity ⟨fb.table (logDataFields fb pvName value alarm timestamp), key⟩ =
        logData.severity.getD .noChange := by
  have hnodup := logDataFields_nodup pvName value halarm htimestamp
  rcases addAlarm_eq_ok halarm with ⟨hmake, rfl⟩ | ⟨status, severity, hmake, rfl⟩
  · refine ⟨_, hmake, ?_, ?_⟩
    · rw [Message.status, fb.enumerator_absent]
      · rfl
      · rcases addTimestamp_eq_ok htimestamp with ⟨-, rfl⟩ | ⟨_, -, rfl⟩ <;> simp [logDataFields]
    · rw [Message.severity, fb.enumerator_absent]
      · rfl
      · rcases addTimestamp_eq_ok htimestamp with ⟨-, rfl⟩ | ⟨_, -, rfl⟩ <;> simp [logDataFields]
  · refine ⟨_, hmake, ?_, ?_⟩
    · rw [Message.status, fb.enumerator_table "status" _ (alarmStatuses.idxOf status) _ hnodup
        (by simp [logDataFields]), alarmStatuses_getD, addElement_getD]
    · rw [Message.severity, fb.enumerator_table "severity" _ (alarmSeverities.idxOf severity) _
        hnodup (by simp [logDataFields]), alarmSeverities_getD, addElement_getD]

theorem timestamp_table :
    ∃ timeStamp, F142.makeTimestamp pvStructure = .ok timeStamp ∧
      Message.timestamp ⟨fb.table (logDataFields fb pvName value alarm timestamp), key⟩ =
        timeStamp.getD 0 := by
  have hnodup := logDataFields_nodup pvName value halarm htimestamp
  rcases addTimestamp_eq_ok htimestamp with ⟨hmake, rfl⟩ | ⟨timeStamp, hmake, rfl⟩
  · refine ⟨_, hmake, ?_⟩
    rw [Message.timestamp, FlatBuffers.readScalar, fb.element_absent]
    · rfl
    · rcases addAlarm_eq_ok halarm with ⟨-, rfl⟩ | ⟨_, _, -, rfl⟩ <;> simp [logDataFields]
  · exact ⟨_, hmake, fb.readScalar_table hnodup (by simp [logDataFields])⟩

end Fields

/-- Every field of the message is read as it was written. -/
theorem create_readsAs {message : Message fb}
    (hmessage : Converter.create fb nt opts update = .ok message) :
    ∃ logData, F142.Converter.create nt update = .ok logData ∧ ReadsAs message logData := by
  obtain ⟨value, hvalue, hrest⟩ := bind_eq_ok.mp hmessage
  obtain ⟨alarm, halarm, hrest⟩ := bind_eq_ok.mp hrest
  obtain ⟨timestamp, htimestamp, hrest⟩ := bind_eq_ok.mp hrest
  cases hrest
  obtain ⟨pvValue, hpv, hread⟩ := makeValue_eq_ok hvalue
  obtain ⟨logData, hmakeAlarm, hstatus, hseverity⟩ := alarm_table
    (fb.createString update.channel) value halarm htimestamp
  obtain ⟨timeStamp, hmakeTimestamp, htime⟩ := timestamp_table
    (fb.createString update.channel) value halarm htimestamp
  refine ⟨⟨update.channel, update.channel, pvValue, logData, timeStamp⟩, ?_, ?_⟩
  · simp only [F142.Converter.create, hpv, hmakeAlarm, hmakeTimestamp]
    rfl
  · refine ⟨rfl, sourceName_table value halarm htimestamp, ?_, hstatus, hseverity, htime⟩
    rw [Message.value, valueType_table _ _ halarm htimestamp,
      valueTable_table _ _ halarm htimestamp]
    exact hread

/-- A union is read as nothing only where nothing was written. -/
theorem readUnion_eq_none {value : ValueT fb.Offset} (hread : readUnion fb value = some .none) :
    value.type = .none ∧ value.offset = none := by
  obtain ⟨type, offset⟩ := value
  cases offset with
  | none =>
      by_cases htype : type = .none
      · exact ⟨htype, rfl⟩
      · simp [readUnion, htype] at hread
  | some table =>
      cases type <;> simp [readUnion, readValue] at hread

theorem makeValue_of_otherShape (hother : OtherShape nt pvStructure) :
    F142.makeValue nt pvStructure = .ok .none := by
  unfold OtherShape at hother
  unfold F142.makeValue
  cases hfield : pvStructure.getSubField "value" with
  | none => rfl
  | some field =>
      rw [hfield] at hother
      cases field with
      | scalar value => exact hother.elim
      | scalarArray values =>
          cases values with
          | string _ => rfl
          | boolean _ | byte _ | short _ | int _ | long _ | ubyte _ | ushort _ | uint _
            | ulong _ | float _ | double _ => exact hother.elim
      | structured id fields => simp [show nt.isEnum pvStructure = false from hother]
      | structureArray | union | unionArray => rfl

theorem addAlarm_defined :
    Defined (addAlarm fb update) ↔ Defined (F142.makeAlarm update) := by
  unfold addAlarm F142.makeAlarm
  split
  · simp only [defined_bind, defined_pure]
  · simp only [defined_ok]

theorem addTimestamp_defined :
    Defined (addTimestamp fb pvStructure) ↔ Defined (F142.makeTimestamp pvStructure) := by
  constructor
  · rintro ⟨fields, hfields⟩
    rcases addTimestamp_eq_ok hfields with ⟨hmake, -⟩ | ⟨_, hmake, -⟩
    · exact ⟨_, hmake⟩
    · exact ⟨_, hmake⟩
  · rintro ⟨timeStamp, hmake⟩
    unfold addTimestamp
    rw [hmake]
    cases timeStamp with
    | none => exact ⟨_, rfl⟩
    | some timeStamp => exact ⟨_, rfl⟩

/-- Writing into a buffer dereferences no other pointers. -/
theorem create_defined :
    Defined (Converter.create fb nt opts update) ↔
      (update.alarmStatusChanged = true → update.pvStructure.AlarmOk) ∧
        update.pvStructure.TimeStampOk := by
  obtain ⟨pvValue, hpv⟩ := makeValue_defined nt update.pvStructure
  obtain ⟨value, hvalue⟩ : Defined (makeValue fb nt update.pvStructure opts) := by
    have hread := readUnion_makeValue fb nt update.pvStructure opts
    rw [hpv] at hread
    cases hmake : makeValue fb nt update.pvStructure opts with
    | error pointer =>
        rw [hmake] at hread
        cases hread
    | ok value => exact ⟨value, rfl⟩
  have halarm : Defined (addAlarm fb update) ↔ _ := addAlarm_defined
  have htimestamp : Defined (addTimestamp fb update.pvStructure) ↔ _ := addTimestamp_defined
  rw [← makeAlarm_defined, ← makeTimestamp_defined, ← halarm, ← htimestamp]
  unfold Converter.create
  simp only [defined_bind, hvalue, Except.ok.injEq, exists_eq_left', defined_pure, and_true]
  exact exists_and_right

end Written

section Fidelity

variable {nt : NormativeTypes} {update : EpicsPVUpdate} {message : Message fb}

/-- What is read of a PV's value follows from what the converter without
buffers makes of it. -/
theorem carriesValue_of_readsAs {logData : F142.Message} (hindex : IntIndex nt)
    (hcreate : F142.Converter.create nt update = .ok logData)
    (hreads : ReadsAs message logData) : CarriesValue nt update message := by
  obtain ⟨value, hvalue, hrest⟩ := bind_eq_ok.mp hcreate
  obtain ⟨alarm, -, hrest⟩ := bind_eq_ok.mp hrest
  obtain ⟨timestamp, -, hrest⟩ := bind_eq_ok.mp hrest
  cases hrest
  have hread : message.value = some value := hreads.value
  refine ⟨hreads.key, hreads.sourceName, ?_, ?_, ?_, ?_⟩
  · intro field hfield
    simp only [F142.makeValue, hfield] at hvalue
    rw [hread, ← Except.ok.inj hvalue]
  · intro field hfield
    simp only [F142.makeValue, hfield] at hvalue
    rw [hread, ← Except.ok.inj hvalue]
  · intro henum
    obtain ⟨id, fields, index, hstructured, hscalar⟩ := nt.enum_index _ henum
    obtain ⟨number, rfl⟩ := hindex _ _ _ _ henum hstructured hscalar
    refine ⟨id, fields, number, hstructured, hscalar, ?_⟩
    simp only [F142.makeValue, hstructured, henum, if_true, hscalar] at hvalue
    rw [hread, ← Except.ok.inj hvalue]
    rfl
  · intro hother
    rw [makeValue_of_otherShape hother] at hvalue
    cases hvalue
    exact readUnion_eq_none hread

/-- For every PV structure and either way of copying arrays: unless null is
dereferenced in the alarm or the time stamp there is a message, and it carries
the channel and the value. -/
theorem f142_message_carries_value (hindex : IntIndex nt) (update : EpicsPVUpdate)
    (opts : Bool) :
    (Defined (Converter.create fb nt opts update) ↔
      (update.alarmStatusChanged = true → update.pvStructure.AlarmOk) ∧
        update.pvStructure.TimeStampOk) ∧
    ∀ message, Converter.create fb nt opts update = .ok message →
      CarriesValue nt update message := by
  refine ⟨create_defined, ?_⟩
  intro message hmessage
  obtain ⟨logData, hcreate, hreads⟩ := create_readsAs hmessage
  exact carriesValue_of_readsAs fb hindex hcreate hreads

/-- Only an `enum_t` with an index and choices is an enumeration. -/
def ofEnumT : NormativeTypes where
  isEnum pvStructure :=
    match pvStructure.getSubField "value" with
    | some (.structured id fields) =>
        id = "enum_t" ∧
          ((PVStructure.getSubField ⟨id, fields⟩ "index").bind PVField.asInt32).isSome ∧
          ((PVStructure.getSubField ⟨id, fields⟩ "choices").bind PVField.asScalarArray).isSome
    | _ => false
  wrapsScalarArray _ := false
  enum_index pvStructure henum := by
    split at henum
    · rename_i id fields hvalue
      obtain ⟨index, hindex⟩ := Option.isSome_iff_exists.mp (of_decide_eq_true henum).2.1
      obtain ⟨field, hfield, hint⟩ := Option.bind_eq_some_iff.mp hindex
      rw [eq_int_of_asInt32 hint] at hfield
      exact ⟨id, fields, _, hvalue, hfield⟩
    · cases henum
  array_value _ hwraps := by cases hwraps

theorem ofEnumT_intIndex : IntIndex ofEnumT := by
  intro pvStructure id fields index henum hvalue hscalar
  simp only [ofEnumT, hvalue, decide_eq_true_eq, hscalar, Option.bind_some] at henum
  obtain ⟨value, hvalue⟩ := Option.isSome_iff_exists.mp henum.2.1
  have hfield := eq_int_of_asInt32 hvalue
  cases hfield
  exact ⟨value, rfl⟩

/-- An enumeration with its second choice, without alarm and time stamp. -/
def modeUpdate : EpicsPVUpdate where
  pvStructure := ⟨"epics:nt/NTEnum:1.0",
    [("value", .structured "enum_t"
      [("index", .scalar (.int 2)), ("choices", .scalarArray (.string ["off", "idle", "on"]))])]⟩
  channel := "mode"

theorem modeUpdate_carries_index :
    ∃ message, Converter.create FlatBuffers.stored ofEnumT true modeUpdate = .ok message ∧
      message.key = "mode" ∧ message.sourceName = some "mode" ∧
      message.value = some (.int 2) := by
  obtain ⟨hdefined, hcarries⟩ :=
    f142_message_carries_value FlatBuffers.stored ofEnumT_intIndex modeUpdate true
  have hchanged : modeUpdate.alarmStatusChanged = false := rfl
  have hmissing : timeStampStructure modeUpdate.pvStructure = none := rfl
  obtain ⟨message, hmessage⟩ := hdefined.mpr
    ⟨by simp [hchanged], by simp [PVStructure.TimeStampOk, hmissing]⟩
  obtain ⟨id, fields, index, hvalue, hindex, hread⟩ :=
    (hcarries message hmessage).enum (by decide)
  cases hvalue
  cases hindex
  exact ⟨message, hmessage, (hcarries message hmessage).key,
    (hcarries message hmessage).sourceName, hread⟩

end Fidelity

end EpicsToKafka.PVData.F142.Buffer
