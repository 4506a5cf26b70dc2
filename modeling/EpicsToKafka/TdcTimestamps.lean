/-
The TdcTime converter with the arithmetic of `CalcTimestamps` and the sequence
number of its messages.  The width of a `long` is a parameter: a product with
`1000000000L` and the sum are computed in it, and their overflow is undefined.
-/
import EpicsToKafka.SignedArithmetic
import EpicsToKafka.Timestamps
import Mathlib.Data.List.ReduceOption

namespace EpicsToKafka.PVData.TdcTime

open SignedArithmetic

/-- Why `CalcTimestamps` gives no list. -/
inductive CalcFailure where
  | runtimeError (what : String)
  | signedOverflow
deriving Repr, DecidableEq

/-- The element of `RetVector` for one pair. -/
def pairTimestamp (longBits : Nat) (seconds nanos : Int32) : Except CalcFailure UInt64 :=
  match (mul longBits seconds.toInt 1000000000).bind fun product =>
      add longBits product nanos.toInt with
  | some timestamp => .ok (UInt64.ofInt timestamp)
  | none => .error .signedOverflow

/-- The loop over the array, two elements at a time. -/
def calcLoop (longBits : Nat) : List Int32 → Except CalcFailure (List UInt64)
  | seconds :: nanos :: rest => do
      let timestamp ← pairTimestamp longBits seconds nanos
      let retVector ← calcLoop longBits rest
      return timestamp :: retVector
  | _ => .ok []

/-- `CalcTimestamps` in a build whose `long` has `longBits` bits. -/
def calcTimestampsIn (longBits : Nat) (values : List Int32) :
    Except CalcFailure (List UInt64) :=
  if values.length % 2 ≠ 0 then
    .error (.runtimeError "Size of pvAccess array is not a multiple of two.")
  else calcLoop longBits values

/-- A tdct message. -/
structure Tdct extends Message where
  sequenceCounter : UInt64
deriving Repr, DecidableEq

/-- The second component is the `SequenceNumber` afterwards, which is static. -/
def generateFlatbufferFromData (message : Message) (sequenceNumber : UInt64) : Tdct × UInt64 :=
  ({ message with sequenceCounter := sequenceNumber }, sequenceNumber + 1)

/-- `Converter::create` with the sequence number. -/
def Converter.createNumbered (nt : NormativeTypes) (update : EpicsPVUpdate)
    (sequenceNumber : UInt64) : Except NullPointer (Option Tdct × UInt64) := do
  match ← Converter.create nt update with
  | none => return (none, sequenceNumber)
  | some message =>
      let (tdct, next) := generateFlatbufferFromData message sequenceNumber
      return (some tdct, next)

/-- A call of `create`.  Converters have no members, so the one that is called
makes no difference. -/
structure Call where
  converter : Nat
  update : EpicsPVUpdate

/-- Calls made one after the other. -/
def createAll (nt : NormativeTypes) :
    List Call → UInt64 → Except NullPointer (List (Option Tdct) × UInt64)
  | [], sequenceNumber => .ok ([], sequenceNumber)
  | call :: calls, sequenceNumber => do
      let (tdct, next) ← Converter.createNumbered nt call.update sequenceNumber
      let (others, last) ← createAll nt calls next
      return (tdct :: others, last)

section Pairs

variable {α : Type}

/-- A property of the elements at 0 and 1, at 2 and 3, and so on. -/
def AllPairs (property : α → α → Prop) : List α → Prop
  | first :: second :: rest => property first second ∧ AllPairs property rest
  | _ => True

/-- Where a loop over pairs ends. -/
theorem eq_nil_or_singleton {values : List α}
    (hshort : ∀ first second rest, values = first :: second :: rest → False) :
    values = [] ∨ ∃ value, values = [value] := by
  cases values with
  | nil => exact Or.inl rfl
  | cons first rest =>
      cases rest with
      | nil => exact Or.inr ⟨first, rfl⟩
      | cons second rest => exact absurd rfl (hshort first second rest)

theorem allPairs_iff {property : α → α → Prop} (values : List α) :
    AllPairs property values ↔ ∀ k first second, values[2 * k]? = some first →
      values[2 * k + 1]? = some second → property first second := by
  induction values using AllPairs.induct with
  | case1 first second rest ih =>
      rw [AllPairs, ih]
      constructor
      · rintro ⟨hpair, hrest⟩ k first' second' hfirst hsecond
        cases k with
        | zero =>
            cases hfirst
            cases hsecond
            exact hpair
        | succ k => exact hrest k first' second' hfirst hsecond
      · intro hall
        exact ⟨hall 0 first second rfl rfl, fun k => hall (k + 1)⟩
  | case2 values hshort =>
      rcases eq_nil_or_singleton hshort with rfl | ⟨value, rfl⟩
      · simp [AllPairs]
      · simp [AllPairs]

end Pairs

section Calc

variable {longBits : Nat} {values : List Int32}

/-- Nanoseconds since the epoch. -/
def pairTime (seconds nanos : Int32) : Int :=
  seconds.toInt * 1000000000 + nanos.toInt

/-- The pair is computed without overflow. -/
def PairFits (longBits : Nat) (seconds nanos : Int32) : Prop :=
  SignedArithmetic.Fits longBits (seconds.toInt * 1000000000) ∧
    SignedArithmetic.Fits longBits (pairTime seconds nanos)

theorem pairTimestamp_of_fits {seconds nanos : Int32} (hfits : PairFits longBits seconds nanos) :
    pairTimestamp longBits seconds nanos = .ok (UInt64.ofInt (pairTime seconds nanos)) := by
  unfold pairTimestamp
  rw [mul_bind_add_eq_some hfits.1 hfits.2]
  rfl

theorem pairTimestamp_of_not_fits {seconds nanos : Int32}
    (hnot : ¬ PairFits longBits seconds nanos) :
    pairTimestamp longBits seconds nanos = .error .signedOverflow := by
  unfold pairTimestamp
  rw [mul_bind_add_eq_none hnot]

/-- The loop has a result exactly if every pair fits. -/
theorem calcLoop_of_fits (hfits : AllPairs (PairFits longBits) values) :
    calcLoop longBits values = .ok (pairTimestamps values) := by
  induction values using pairTimestamps.induct with
  | case1 seconds nanos rest ih =>
      obtain ⟨hpair, hrest⟩ := hfits
      rw [calcLoop, pairTimestamp_of_fits hpair, ih hrest, pairTimestamps]
      rfl
  | case2 values hshort =>
      rw [calcLoop, pairTimestamps]
      · exact hshort
      · exact hshort

theorem calcLoop_of_not_fits (hnot : ¬ AllPairs (PairFits longBits) values) :
    calcLoop longBits values = .error .signedOverflow := by
  induction values using pairTimestamps.induct with
  | case1 seconds nanos rest ih =>
      rw [calcLoop]
      by_cases hpair : PairFits longBits seconds nanos
      · have hrest : ¬ AllPairs (PairFits longBits) rest := fun hrest => hnot ⟨hpair, hrest⟩
        rw [pairTimestamp_of_fits hpair, ih hrest]
        rfl
      · rw [pairTimestamp_of_not_fits hpair]
        rfl
  | case2 values hshort =>
      refine absurd ?_ hnot
      rw [AllPairs]
      · trivial
      · exact hshort

/-- No `int` overflows a `long` of 64 bits here. -/
theorem pairFits_64 (seconds nanos : Int32) : PairFits 64 seconds nanos := by
  have hseconds := seconds.le_toInt
  have hseconds' := seconds.toInt_lt
  have hnanos := nanos.le_toInt
  have hnanos' := nanos.toInt_lt
  unfold PairFits pairTime SignedArithmetic.Fits
  omega

theorem calcLoop_64 (values : List Int32) : calcLoop 64 values = .ok (pairTimestamps values) := by
  refine calcLoop_of_fits ((allPairs_iff values).mpr ?_)
  exact fun _ seconds nanos _ _ => pairFits_64 seconds nanos

/-- In a build with 64 bits the function is the one the converter was given. -/
theorem calcTimestampsIn_64 (values : List Int32) :
    (calcTimestampsIn 64 values).toOption = calcTimestamps values := by
  unfold calcTimestampsIn calcTimestamps
  rw [calcLoop_64]
  split <;> rfl

end Calc

/-- What the timestamps of an array are. -/
structure TimestampsOf (elements : List Int32) (timestamps : List UInt64) : Prop where
  length : elements.length = 2 * timestamps.length
  value : ∀ k seconds nanos, elements[2 * k]? = some seconds →
    elements[2 * k + 1]? = some nanos → ∃ timestamp, timestamps[k]? = some timestamp ∧
      (timestamp.toNat : Int) = (seconds.toInt * 10 ^ 9 + nanos.toInt) % 2 ^ 64

theorem timestampsOf_pairTimestamps (elements : List Int32) (heven : elements.length % 2 = 0) :
    TimestampsOf elements (pairTimestamps elements) := by
  induction elements using pairTimestamps.induct with
  | case1 seconds nanos rest ih =>
      have hrest := ih (by simp only [List.length_cons] at heven; omega)
      rw [pairTimestamps]
      refine ⟨?_, ?_⟩
      · have hlength := hrest.length
        simp only [List.length_cons]
        omega
      · intro k seconds' nanos' hseconds hnanos
        cases k with
        | zero =>
            cases hseconds
            cases hnanos
            exact ⟨_, rfl, toNat_ofInt _⟩
        | succ k => exact hrest.value k seconds' nanos' hseconds hnanos
  | case2 values hshort =>
      rcases eq_nil_or_singleton hshort with rfl | ⟨value, rfl⟩
      · exact ⟨rfl, by simp⟩
      · simp at heven

section Create

variable {nt : NormativeTypes} {update : EpicsPVUpdate}

theorem pairTimestamps_ne_nil {elements : List Int32} (hne : elements ≠ [])
    (heven : elements.length % 2 = 0) : pairTimestamps elements ≠ [] := by
  have hlength := (timestampsOf_pairTimestamps elements heven).length
  intro hnil
  rw [hnil] at hlength
  exact hne (List.length_eq_zero_iff.mp hlength)

/-- The messages that are made. -/
theorem makeMessage_eq_some {channel : String} {values : PVScalarArray} {message : Message} :
    makeMessage channel values = some message ↔ ∃ elements, values = .int elements ∧
      elements.length % 2 = 0 ∧ elements ≠ [] ∧ message = ⟨channel, pairTimestamps elements⟩ := by
  cases values with
  | int elements =>
      by_cases heven : elements.length % 2 = 0
      · by_cases hnil : elements = []
        · rw [hnil]
          exact iff_of_false (by simp [makeMessage, calcTimestamps, pairTimestamps]) (by simp)
        · obtain ⟨first, rest, hcons⟩ :=
            List.exists_cons_of_ne_nil (pairTimestamps_ne_nil hnil heven)
          simp [makeMessage, calcTimestamps, heven, hcons, hnil, eq_comm]
      · simp [makeMessage, calcTimestamps, heven]
  | boolean | byte | short | long | ubyte | ushort | uint | ulong | float | double | string =>
      simp [makeMessage]

/-- The structure is what the converter expects, and its value is an array. -/
structure Wrappable (nt : NormativeTypes) (pvStructure : PVStructure) (values : PVScalarArray) :
    Prop where
  id : pvStructure.id = expectedStructType
  wraps : nt.wrapsScalarArray pvStructure = true
  value : pvStructure.getSubField "value" = some (.scalarArray values)

theorem create_of_wrappable {values : PVScalarArray}
    (hwrappable : Wrappable nt update.pvStructure values) :
    Converter.create nt update = .ok (makeMessage update.channel values) := by
  unfold Converter.create
  rw [if_neg (not_not_intro hwrappable.id)]
  exact bind_eq_ok.mpr ⟨_, (deref_eq_ok _ _ _).mpr (if_pos hwrappable.wraps),
    bind_eq_ok.mpr ⟨values, (deref_eq_ok _ _ _).mpr (by rw [hwrappable.value]; rfl), rfl⟩⟩

/-- A call gives a message and counts it, or neither. -/
theorem createNumbered_of_create {message : Option Message} (sequenceNumber : UInt64)
    (hcreate : Converter.create nt update = .ok message) :
    ∃ tdct, tdct.map Tdct.toMessage = message ∧
      Converter.createNumbered nt update sequenceNumber =
        .ok (tdct, if tdct.isSome then sequenceNumber + 1 else sequenceNumber) ∧
      ∀ numbered, tdct = some numbered → numbered.sequenceCounter = sequenceNumber := by
  cases message with
  | none =>
      refine ⟨none, rfl, bind_eq_ok.mpr ⟨_, hcreate, rfl⟩, ?_⟩
      rintro numbered ⟨⟩
  | some message =>
      refine ⟨some { message with sequenceCounter := sequenceNumber }, rfl,
        bind_eq_ok.mpr ⟨_, hcreate, rfl⟩, ?_⟩
      rintro numbered ⟨⟩
      rfl

end Create

section Runs

/-- The calls that do not dereference null. -/
def Call.Defined (nt : NormativeTypes) (call : Call) : Prop :=
  call.update.pvStructure.id = expectedStructType →
    nt.wrapsScalarArray call.update.pvStructure = true

/-- The messages of a run are numbered one after the other, from the sequence
number it begins with. -/
theorem createAll_numbers (nt : NormativeTypes) (calls : List Call) (sequenceNumber : UInt64)
    (hdefined : ∀ call ∈ calls, call.Defined nt) :
    ∃ results last, createAll nt calls sequenceNumber = .ok (results, last) ∧
      List.Forall₂ (fun call result =>
        Converter.create nt call.update = .ok (Option.map Tdct.toMessage result)) calls results ∧
      results.reduceOption.map Tdct.sequenceCounter =
        (List.range results.reduceOption.length).map fun k => sequenceNumber + UInt64.ofNat k := by
  induction calls generalizing sequenceNumber with
  | nil => exact ⟨[], sequenceNumber, rfl, .nil, rfl⟩
  | cons call calls ih =>
      obtain ⟨message, hcreate⟩ :=
        (tdcTime_create_defined nt call.update).mpr (hdefined call List.mem_cons_self)
      obtain ⟨tdct, rfl, hnumbered, hcounter⟩ := createNumbered_of_create sequenceNumber hcreate
      obtain ⟨results, last, hrest, heach, hcounters⟩ :=
        ih (if tdct.isSome then sequenceNumber + 1 else sequenceNumber)
          fun call hcall => hdefined call (List.mem_cons_of_mem _ hcall)
      refine ⟨tdct :: results, last, ?_, .cons hcreate heach, ?_⟩
      · exact bind_eq_ok.mpr ⟨_, hnumbered, bind_eq_ok.mpr ⟨_, hrest, rfl⟩⟩
      · cases tdct with
        | none => exact hcounters
        | some numbered =>
            rw [List.reduceOption_cons_of_some, List.map_cons, hcounters, hcounter numbered rfl,
              List.length_cons, List.range_succ_eq_map, List.map_cons, List.map_map]
            congr 1
            · simp
            · refine List.map_congr_left fun k _ => ?_
              change sequenceNumber + 1 + UInt64.ofNat k = sequenceNumber + UInt64.ofNat (k + 1)
              rw [UInt64.ofNat_add, UInt64.add_assoc, UInt64.add_comm 1]
              rfl

end Runs

/-- The converter as a whole: which arrays it takes, what it makes of them, and
how its messages are numbered over any calls, from the static zero on. -/
theorem tdcTime_conversion (nt : NormativeTypes) :
    (∀ (update : EpicsPVUpdate) (values : PVScalarArray) (sequenceNumber : UInt64),
      Wrappable nt update.pvStructure values →
      ∃ tdct next, Converter.createNumbered nt update sequenceNumber = .ok (tdct, next) ∧
        (tdct.isSome = true ↔
          ∃ elements, values = .int elements ∧ elements.length % 2 = 0 ∧ elements ≠ []) ∧
        ∀ message, tdct = some message → message.name = update.channel ∧
          ∃ elements, values = .int elements ∧ TimestampsOf elements message.timestamps) ∧
    (∀ elements, calcTimestampsIn 64 elements ≠ .error .signedOverflow ∧
      (calcTimestampsIn 64 elements).toOption = calcTimestamps elements) ∧
    ∀ calls : List Call, (∀ call ∈ calls, call.Defined nt) →
      ∃ results last, createAll nt calls 0 = .ok (results, last) ∧
        List.Forall₂ (fun call result =>
          Converter.create nt call.update = .ok (Option.map Tdct.toMessage result)) calls results ∧
        results.reduceOption.map Tdct.sequenceCounter =
          (List.range results.reduceOption.length).map UInt64.ofNat := by
  refine ⟨?_, ?_, ?_⟩
  · intro update values sequenceNumber hwrappable
    have hcreate := create_of_wrappable hwrappable
    obtain ⟨tdct, htdct, hnumbered, -⟩ := createNumbered_of_create sequenceNumber hcreate
    refine ⟨tdct, _, hnumbered, ?_, ?_⟩
    · rw [← @Option.isSome_map _ _ Tdct.toMessage tdct, htdct, Option.isSome_iff_exists]
      simp only [makeMessage_eq_some]
      constructor
      · rintro ⟨message, elements, hvalues, heven, hne, -⟩
        exact ⟨elements, hvalues, heven, hne⟩
      · rintro ⟨elements, hvalues, heven, hne⟩
        exact ⟨_, elements, hvalues, heven, hne, rfl⟩
    · rintro message rfl
      obtain ⟨elements, hvalues, heven, -, hmessage⟩ := makeMessage_eq_some.mp htdct.symm
      refine ⟨congrArg Message.name hmessage, elements, hvalues, ?_⟩
      rw [congrArg Message.timestamps hmessage]
      exact timestampsOf_pairTimestamps elements heven
  · refine fun elements => ⟨?_, calcTimestampsIn_64 elements⟩
    unfold calcTimestampsIn
    rw [calcLoop_64]
    split <;> simp
  · intro calls hdefined
    obtain ⟨results, last, hrun, heach, hcounters⟩ := createAll_numbers nt calls 0 hdefined
    refine ⟨results, last, hrun, heach, ?_⟩
    rw [hcounters]
    exact List.map_congr_left fun k _ => UInt64.zero_add _

/-- The array update of a channel. -/
def arrayUpdate (elements : List Int32) : EpicsPVUpdate :=
  ⟨⟨expectedStructType, [("value", .scalarArray (.int elements))]⟩, "chopper", false⟩

/-- Three calls on two converters, the second of them with an odd array. -/
theorem threeCalls_numbered :
    Wrappable .ofValue (arrayUpdate [1, -5, -2147483648, 2147483647]).pvStructure
        (.int [1, -5, -2147483648, 2147483647]) ∧
      (∃ tdct next, Converter.createNumbered .ofValue
          (arrayUpdate [1, -5, -2147483648, 2147483647]) 6 = .ok (tdct, next) ∧
        tdct.isSome = true) ∧
      ∃ results last, createAll .ofValue [⟨0, arrayUpdate [1, 2]⟩, ⟨1, arrayUpdate [3]⟩,
        ⟨1, arrayUpdate [4, 5]⟩] 0 = .ok (results, last) := by
  have hwrappable : Wrappable .ofValue (arrayUpdate [1, -5, -2147483648, 2147483647]).pvStructure
      (.int [1, -5, -2147483648, 2147483647]) := ⟨rfl, rfl, rfl⟩
  obtain ⟨hcall, -, hruns⟩ := tdcTime_conversion .ofValue
  refine ⟨hwrappable, ?_, ?_⟩
  · obtain ⟨tdct, next, hcreate, hsome, -⟩ := hcall _ _ 6 hwrappable
    exact ⟨tdct, next, hcreate, hsome.mpr ⟨_, rfl, rfl, by decide⟩⟩
  · obtain ⟨results, last, hrun, -⟩ := hruns [⟨0, arrayUpdate [1, 2]⟩, ⟨1, arrayUpdate [3]⟩,
      ⟨1, arrayUpdate [4, 5]⟩] (by
        intro call hcall _
        simp only [List.mem_cons, List.not_mem_nil, or_false] at hcall
        rcases hcall with rfl | rfl | rfl <;> rfl)
    exact ⟨results, last, hrun⟩

section Widths

/-- Without negative elements the sum is the largest intermediate value. -/
theorem pairFits_32_iff {seconds nanos : Int32} (hseconds : 0 ≤ seconds.toInt)
    (hnanos : 0 ≤ nanos.toInt) :
    PairFits 32 seconds nanos ↔ seconds.toInt * 10 ^ 9 + nanos.toInt < 2 ^ 31 := by
  unfold PairFits pairTime SignedArithmetic.Fits
  omega

theorem allPairs_fits_32_iff {values : List Int32} (hnonneg : ∀ value ∈ values, 0 ≤ value.toInt) :
    AllPairs (PairFits 32) values ↔ ∀ k seconds nanos, values[2 * k]? = some seconds →
      values[2 * k + 1]? = some nanos → seconds.toInt * 10 ^ 9 + nanos.toInt < 2 ^ 31 := by
  rw [allPairs_iff]
  refine forall_congr' fun k => forall_congr' fun seconds => forall_congr' fun nanos => ?_
  refine forall_congr' fun hseconds => forall_congr' fun hnanos => ?_
  exact pairFits_32_iff (hnonneg _ (List.mem_of_getElem? hseconds))
    (hnonneg _ (List.mem_of_getElem? hnanos))

/-- Both builds compute the same list exactly if every time in the array is
below 2^31 nanoseconds, which is a little more than two seconds. -/
theorem calcTimestamps_same_iff (values : List Int32) (heven : values.length % 2 = 0)
    (hnonneg : ∀ value ∈ values, 0 ≤ value.toInt) :
    (∃ timestamps, calcTimestampsIn 32 values = .ok timestamps ∧
      calcTimestampsIn 64 values = .ok timestamps) ↔
    ∀ k seconds nanos, values[2 * k]? = some seconds → values[2 * k + 1]? = some nanos →
      seconds.toInt * 10 ^ 9 + nanos.toInt < 2 ^ 31 := by
  have hloop : ∀ longBits, calcTimestampsIn longBits values = calcLoop longBits values :=
    fun longBits => if_neg (not_not_intro heven)
  rw [← allPairs_fits_32_iff hnonneg, hloop, hloop, calcLoop_64]
  constructor
  · rintro ⟨timestamps, h32, -⟩
    by_contra hnot
    rw [calcLoop_of_not_fits hnot] at h32
    cases h32
  · exact fun hall => ⟨_, calcLoop_of_fits hall, rfl⟩

theorem shortTimes_same :
    ∃ timestamps, calcTimestampsIn 32 [2, 147483647, 0, 2147483647] = .ok timestamps ∧
      calcTimestampsIn 64 [2, 147483647, 0, 2147483647] = .ok timestamps := by
  have hnonneg : ∀ value ∈ ([2, 147483647, 0, 2147483647] : List Int32), 0 ≤ value.toInt := by
    simp
  refine (calcTimestamps_same_iff [2, 147483647, 0, 2147483647] rfl hnonneg).mpr ?_
  rw [← allPairs_iff]
  exact ⟨by decide, by decide, trivial⟩

/-- Three seconds overflow a `long` of 32 bits. -/
theorem threeSeconds_overflow :
    calcTimestampsIn 32 [3, 0] = .error .signedOverflow ∧
      ¬ ∀ values : List Int32, values.length % 2 = 0 → (∀ value ∈ values, 0 ≤ value.toInt) →
        ∃ timestamps, calcTimestampsIn 32 values = .ok timestamps ∧
          calcTimestampsIn 64 values = .ok timestamps := by
  have hoverflow : calcTimestampsIn 32 [3, 0] = .error .signedOverflow := rfl
  refine ⟨hoverflow, fun hall => ?_⟩
  obtain ⟨timestamps, h32, -⟩ := hall [3, 0] rfl (by simp)
  rw [hoverflow] at h32
  cases h32

end Widths

end EpicsToKafka.PVData.TdcTime
