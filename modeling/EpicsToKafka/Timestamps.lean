/-
Time stamps that are stored as seconds and nanoseconds.  The f142 converter
puts the two together modulo 2^64; the client that makes updates up takes the
time apart.
-/
import EpicsToKafka.MalformedUpdates
import Mathlib.Algebra.Group.Int.Defs
import Mathlib.Data.Prod.Lex

namespace EpicsToKafka.PVData

section Arithmetic

/-- The cast to an unsigned type of the same width. -/
theorem toNat_toUInt64 (value : Int64) :
    (value.toUInt64.toNat : Int) = value.toInt % 2 ^ 64 := by
  have hvalue : value.toUInt64.toNat = (BitVec.ofInt 64 value.toInt).toNat := by
    rw [← Int64.toNat_toBitVec, ← Int64.toInt_toBitVec, BitVec.ofInt_toInt]
  rw [hvalue, BitVec.toNat_ofInt]
  exact Int.toNat_of_nonneg (Int.emod_nonneg _ (by decide))

theorem toNat_ofInt (value : Int) : ((UInt64.ofInt value).toNat : Int) = value % 2 ^ 64 := by
  have hnonneg : 0 ≤ value % 2 ^ 64 := Int.emod_nonneg _ (by decide)
  have hlt : value % 2 ^ 64 < 2 ^ 64 := Int.emod_lt_of_pos _ (by decide)
  rw [UInt64.ofInt, UInt64.toNat_ofNat_of_lt']
  · exact Int.toNat_of_nonneg hnonneg
  · rw [UInt64.size]
    omega

end Arithmetic

namespace F142

/-- The update has a time stamp with these fields. -/
def HasTimeStamp (pvStructure : PVStructure) (seconds : Int64) (nanos : Int32) : Prop :=
  ∃ timeStamp, timeStampStructure pvStructure = some timeStamp ∧
    secondsPastEpoch timeStamp = some seconds ∧ nanoseconds timeStamp = some nanos

/-- Nanoseconds since the epoch. -/
def pastEpoch (seconds : Int64) (nanos : Int32) : Int :=
  seconds.toInt * 10 ^ 9 + nanos.toInt

/-- The value that `Converter::create` computes. -/
def combineTimestamp (seconds : Int64) (nanos : Int32) : UInt64 :=
  seconds.toUInt64 * 1000000000 + nanos.toInt64.toUInt64

/-- The fields are those of a time that an unsigned 64-bit integer holds. -/
structure InRange (seconds : Int64) (nanos : Int32) : Prop where
  nanos_nonneg : 0 ≤ nanos.toInt
  nanos_lt : nanos.toInt < 10 ^ 9
  nonneg : 0 ≤ pastEpoch seconds nanos
  lt : pastEpoch seconds nanos < 2 ^ 64

variable {pvStructure : PVStructure} {seconds : Int64} {nanos : Int32}

theorem makeTimestamp_eq (htime : HasTimeStamp pvStructure seconds nanos) :
    makeTimestamp pvStructure = .ok (some (combineTimestamp seconds nanos)) := by
  obtain ⟨timeStamp, hstructure, hseconds, hnanos⟩ := htime
  simp only [makeTimestamp, hstructure]
  exact bind_eq_ok.mpr ⟨seconds, (deref_eq_ok _ _ _).mpr hseconds,
    bind_eq_ok.mpr ⟨nanos, (deref_eq_ok _ _ _).mpr hnanos, rfl⟩⟩

/-- A time stamp that is there is complete. -/
theorem HasTimeStamp.timeStampOk (htime : HasTimeStamp pvStructure seconds nanos) :
    pvStructure.TimeStampOk := by
  rw [← makeTimestamp_defined]
  exact ⟨_, makeTimestamp_eq htime⟩

/-- The message carries what has been computed from the time stamp. -/
theorem create_timestamp {nt : NormativeTypes} {update : EpicsPVUpdate} {message : Message}
    (htime : HasTimeStamp update.pvStructure seconds nanos)
    (hcreate : Converter.create nt update = .ok message) :
    message.timestamp = some (combineTimestamp seconds nanos) := by
  obtain ⟨value, -, hrest⟩ := bind_eq_ok.mp hcreate
  obtain ⟨alarm, -, hrest⟩ := bind_eq_ok.mp hrest
  obtain ⟨timestamp, htimestamp, hmessage⟩ := bind_eq_ok.mp hrest
  rw [makeTimestamp_eq htime] at htimestamp
  cases htimestamp
  cases hmessage
  rfl

/-- The casts, the product and the sum are all made modulo 2^64. -/
theorem toNat_combineTimestamp (seconds : Int64) (nanos : Int32) :
    ((combineTimestamp seconds nanos).toNat : Int) = pastEpoch seconds nanos % 2 ^ 64 := by
  have hseconds := toNat_toUInt64 seconds
  have hnanos := toNat_toUInt64 nanos.toInt64
  rw [Int32.toInt_toInt64] at hnanos
  rw [combineTimestamp, UInt64.toNat_add, UInt64.toNat_mul, pastEpoch]
  have hbillion : (1000000000 : UInt64).toNat = 1000000000 := rfl
  rw [hbillion]
  omega

theorem combineTimestamp_exact (hnonneg : 0 ≤ pastEpoch seconds nanos)
    (hlt : pastEpoch seconds nanos < 2 ^ 64) :
    ((combineTimestamp seconds nanos).toNat : Int) = pastEpoch seconds nanos := by
  rw [toNat_combineTimestamp, Int.emod_eq_of_lt hnonneg hlt]

theorem pastEpoch_lt {seconds' : Int64} {nanos' : Int32} (hrange : InRange seconds nanos)
    (hrange' : InRange seconds' nanos')
    (hlex : toLex (seconds.toInt, nanos.toInt) < toLex (seconds'.toInt, nanos'.toInt)) :
    pastEpoch seconds nanos < pastEpoch seconds' nanos' := by
  have hnanos := hrange.nanos_lt
  have hnanos' := hrange'.nanos_nonneg
  unfold pastEpoch
  rcases (Prod.Lex.toLex_lt_toLex).mp hlex with hseconds | ⟨hseconds, hlt⟩
  · change seconds.toInt < seconds'.toInt at hseconds
    omega
  · change seconds.toInt = seconds'.toInt at hseconds
    change nanos.toInt < nanos'.toInt at hlt
    omega

theorem combineTimestamp_lt {seconds' : Int64} {nanos' : Int32} (hrange : InRange seconds nanos)
    (hrange' : InRange seconds' nanos')
    (hlex : toLex (seconds.toInt, nanos.toInt) < toLex (seconds'.toInt, nanos'.toInt)) :
    combineTimestamp seconds nanos < combineTimestamp seconds' nanos' := by
  have hexact := combineTimestamp_exact hrange.nonneg hrange.lt
  have hexact' := combineTimestamp_exact hrange'.nonneg hrange'.lt
  have hpast := pastEpoch_lt hrange hrange' hlex
  rw [UInt64.lt_iff_toNat_lt]
  omega

end F142

namespace EpicsClientRandom

/-- `createFakePVStructure` at a time of the clock; the value is kept as its
bits.  A structure without a type id has the default one. -/
def createFakePVStructure (value currentTimestamp : UInt64) : PVStructure :=
  let currentTimestampSeconds := currentTimestamp / 1000000000
  let currentTimestampNanosecondsComponent :=
    currentTimestamp - currentTimestampSeconds * 1000000000
  ⟨"structure",
    [("value", .scalar (.double value)),
      ("timeStamp", .structured "structure"
        [("secondsPastEpoch", .scalar (.long currentTimestampSeconds.toInt64)),
          ("nanoseconds",
            .scalar (.int currentTimestampNanosecondsComponent.toUInt32.toInt32))]),
      ("alarm", .structured "structure" [("message", .scalar (.string "NO_ALARM"))])]⟩

/-- `AlarmStatusChanged` is left as it is constructed. -/
def generateFakePVUpdate (channelName : String) (value currentTimestamp : UInt64) :
    EpicsPVUpdate where
  pvStructure := createFakePVStructure value currentTimestamp
  channel := channelName

/-- The fields of the time stamp that is made up. -/
def fakeSeconds (currentTimestamp : UInt64) : Int64 :=
  (currentTimestamp / 1000000000).toInt64

def fakeNanoseconds (currentTimestamp : UInt64) : Int32 :=
  (currentTimestamp - currentTimestamp / 1000000000 * 1000000000).toUInt32.toInt32

theorem fake_hasTimeStamp (value currentTimestamp : UInt64) :
    F142.HasTimeStamp (createFakePVStructure value currentTimestamp)
      (fakeSeconds currentTimestamp) (fakeNanoseconds currentTimestamp) :=
  ⟨_, rfl, rfl, rfl⟩

/-- What is left of a time after its whole seconds is below one second. -/
theorem toNat_fakeComponent (currentTimestamp : UInt64) :
    (currentTimestamp - currentTimestamp / 1000000000 * 1000000000).toNat =
      currentTimestamp.toNat % 1000000000 := by
  have hbillion : (1000000000 : UInt64).toNat = 1000000000 := rfl
  have hlt : currentTimestamp.toNat < 2 ^ 64 := currentTimestamp.toNat_lt
  rw [UInt64.toNat_sub, UInt64.toNat_mul, UInt64.toNat_div, hbillion]
  omega

theorem toInt_fakeNanoseconds (currentTimestamp : UInt64) :
    (fakeNanoseconds currentTimestamp).toInt = currentTimestamp.toNat % 1000000000 := by
  have hsmall : (currentTimestamp - currentTimestamp / 1000000000 * 1000000000).toUInt32.toNat =
      currentTimestamp.toNat % 1000000000 := by
    rw [UInt64.toNat_toUInt32, toNat_fakeComponent]
    omega
  have hlt : currentTimestamp.toNat % 1000000000 < 1000000000 := Nat.mod_lt _ (by decide)
  rw [fakeNanoseconds, ← Int32.toInt_toBitVec, UInt32.toBitVec_toInt32,
    BitVec.toInt_eq_toNat_of_lt]
  · rw [UInt32.toNat_toBitVec, hsmall]
    rfl
  · rw [UInt32.toNat_toBitVec, hsmall]
    omega

theorem toInt_fakeSeconds (currentTimestamp : UInt64) :
    (fakeSeconds currentTimestamp).toInt = currentTimestamp.toNat / 1000000000 := by
  have hlt : currentTimestamp.toNat < 2 ^ 64 := currentTimestamp.toNat_lt
  have hseconds : (currentTimestamp / 1000000000).toNat = currentTimestamp.toNat / 1000000000 :=
    UInt64.toNat_div _ _
  rw [fakeSeconds, ← Int64.toInt_toBitVec, UInt64.toBitVec_toInt64, BitVec.toInt_eq_toNat_of_lt]
  · rw [UInt64.toNat_toBitVec, hseconds]
    rfl
  · rw [UInt64.toNat_toBitVec, hseconds]
    omega

/-- Neither cast loses anything: 2^64 nanoseconds are fewer than 2^63 seconds
and a second has fewer than 2^31 nanoseconds. -/
theorem combine_fake (currentTimestamp : UInt64) :
    F142.combineTimestamp (fakeSeconds currentTimestamp) (fakeNanoseconds currentTimestamp) =
      currentTimestamp := by
  have hlt : currentTimestamp.toNat < 2 ^ 64 := currentTimestamp.toNat_lt
  have hpast : F142.pastEpoch (fakeSeconds currentTimestamp) (fakeNanoseconds currentTimestamp) =
      currentTimestamp.toNat := by
    rw [F142.pastEpoch, toInt_fakeSeconds, toInt_fakeNanoseconds]
    omega
  have hexact := @F142.combineTimestamp_exact (fakeSeconds currentTimestamp)
    (fakeNanoseconds currentTimestamp) (by omega) (by omega)
  rw [hpast] at hexact
  exact UInt64.toNat_inj.mp (by exact_mod_cast hexact)

/-- The converter takes an update that has been made up. -/
theorem create_fake (nt : NormativeTypes) (channelName : String)
    (value currentTimestamp : UInt64) :
    ∃ message,
      F142.Converter.create nt (generateFakePVUpdate channelName value currentTimestamp) =
        .ok message ∧ message.timestamp = some currentTimestamp := by
  have htime : F142.HasTimeStamp
      (generateFakePVUpdate channelName value currentTimestamp).pvStructure
      (fakeSeconds currentTimestamp) (fakeNanoseconds currentTimestamp) :=
    fake_hasTimeStamp value currentTimestamp
  obtain ⟨message, hcreate⟩ := (f142_create_defined nt _).mpr
    ⟨fun hchanged => Bool.noConfusion hchanged, htime.timeStampOk⟩
  refine ⟨message, hcreate, ?_⟩
  rw [F142.create_timestamp htime hcreate, combine_fake]

end EpicsClientRandom

/-- The time stamp of every message is the time of its update modulo 2^64: it
is exact and in order while the time fits, and a time that was taken apart is
put together again. -/
theorem f142_timestamps (nt : NormativeTypes) :
    (∀ (update : EpicsPVUpdate) (seconds : Int64) (nanos : Int32),
      F142.HasTimeStamp update.pvStructure seconds nanos →
      (update.alarmStatusChanged = true → update.pvStructure.AlarmOk) →
      ∃ message timestamp, F142.Converter.create nt update = .ok message ∧
        message.timestamp = some timestamp ∧
        (timestamp.toNat : Int) = F142.pastEpoch seconds nanos % 2 ^ 64 ∧
        (0 ≤ F142.pastEpoch seconds nanos → F142.pastEpoch seconds nanos < 2 ^ 64 →
          (timestamp.toNat : Int) = F142.pastEpoch seconds nanos)) ∧
    (∀ (update later : EpicsPVUpdate) (message message' : F142.Message)
      (seconds seconds' : Int64) (nanos nanos' : Int32),
      F142.HasTimeStamp update.pvStructure seconds nanos →
      F142.HasTimeStamp later.pvStructure seconds' nanos' →
      F142.Converter.create nt update = .ok message →
      F142.Converter.create nt later = .ok message' →
      F142.InRange seconds nanos → F142.InRange seconds' nanos' →
      toLex (seconds.toInt, nanos.toInt) < toLex (seconds'.toInt, nanos'.toInt) →
      ∃ timestamp timestamp', message.timestamp = some timestamp ∧
        message'.timestamp = some timestamp' ∧ timestamp < timestamp') ∧
    ∀ (channelName : String) (value currentTimestamp : UInt64), ∃ message,
      F142.Converter.create nt
        (EpicsClientRandom.generateFakePVUpdate channelName value currentTimestamp) =
          .ok message ∧ message.timestamp = some currentTimestamp := by
  refine ⟨?_, ?_, EpicsClientRandom.create_fake nt⟩
  · intro update seconds nanos htime halarm
    obtain ⟨message, hcreate⟩ := (f142_create_defined nt update).mpr
      ⟨halarm, htime.timeStampOk⟩
    exact ⟨message, _, hcreate, F142.create_timestamp htime hcreate,
      F142.toNat_combineTimestamp seconds nanos, F142.combineTimestamp_exact⟩
  · intro update later message message' seconds seconds' nanos nanos' htime htime' hcreate hcreate'
      hrange hrange' hlex
    exact ⟨_, _, F142.create_timestamp htime hcreate, F142.create_timestamp htime' hcreate',
      F142.combineTimestamp_lt hrange hrange' hlex⟩

/-- One second and a half before the epoch, seen from after it. -/
theorem beforeEpoch_timestamp :
    ∃ message timestamp,
      F142.Converter.create .ofValue
        ⟨⟨"epics:nt/NTScalar:1.0", [("value", .scalar (.int 7)), ("timeStamp", .structured "time_t"
          [("secondsPastEpoch", .scalar (.long (-2))),
            ("nanoseconds", .scalar (.int 500000000))])]⟩, "pv", false⟩ = .ok message ∧
        message.timestamp = some timestamp ∧
        (timestamp.toNat : Int) = F142.pastEpoch (-2) 500000000 % 2 ^ 64 := by
  obtain ⟨message, timestamp, hcreate, htimestamp, hmod, -⟩ := (f142_timestamps .ofValue).1
    ⟨⟨"epics:nt/NTScalar:1.0", [("value", .scalar (.int 7)), ("timeStamp", .structured "time_t"
      [("secondsPastEpoch", .scalar (.long (-2))),
        ("nanoseconds", .scalar (.int 500000000))])]⟩, "pv", false⟩ (-2) 500000000
    ⟨_, rfl, rfl, rfl⟩ (fun hchanged => Bool.noConfusion hchanged)
  exact ⟨message, timestamp, hcreate, htimestamp, hmod⟩

end EpicsToKafka.PVData
