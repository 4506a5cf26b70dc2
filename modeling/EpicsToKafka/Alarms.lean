/-
Alarm information on its way from `EpicsClientMonitor` through the f142
converter to a consumer.  The monitor marks an update whose alarm message
differs from the cached one, the converter writes the alarm fields of marked
updates only, and the consumer keeps the last values that were written.
Update objects are shared between the cache and the queue, so the mark is
read when an update is converted, not when it is queued.  A `std::string` is
the list of its bytes.
-/
import EpicsToKafka.Transition
import Mathlib.Data.List.Chain

namespace EpicsToKafka

/-- The `AlarmStatus` enumeration of the f142 schema. -/
inductive AlarmStatus where
  | noAlarm | read | write | hihi | high | lolo | low | state | cos | comm
  | timed | hwlimit | calc | scan | link | soft | badSub | udf | disable
  | simm | readAccess | writeAccess | noChange
deriving Repr, DecidableEq

/-- The `AlarmSeverity` enumeration of the f142 schema. -/
inductive AlarmSeverity where
  | minor | major | noAlarm | invalid | noChange
deriving Repr, DecidableEq

/-- `EnumNamesAlarmStatus`, each name with the value at its index. -/
def enumNamesAlarmStatus : List (String × AlarmStatus) :=
  [("NO_ALARM", .noAlarm), ("READ", .read), ("WRITE", .write), ("HIHI", .hihi),
    ("HIGH", .high), ("LOLO", .lolo), ("LOW", .low), ("STATE", .state),
    ("COS", .cos), ("COMM", .comm), ("TIMED", .timed), ("HWLIMIT", .hwlimit),
    ("CALC", .calc), ("SCAN", .scan), ("LINK", .link), ("SOFT", .soft),
    ("BAD_SUB", .badSub), ("UDF", .udf), ("DISABLE", .disable),
    ("SIMM", .simm), ("READ_ACCESS", .readAccess),
    ("WRITE_ACCESS", .writeAccess), ("NO_CHANGE", .noChange)]

/-- The alarm structure of a PV update. -/
structure Alarm where
  message : List Char
  severity : Int
deriving Repr, DecidableEq

/-- `EpicsPVUpdate`, as far as alarms are concerned; `alarm` is null when the
PV structure has no alarm field. -/
structure EpicsPVUpdate where
  alarm : Option Alarm
  alarmStatusChanged : Bool := false
deriving Repr, DecidableEq

/-- The message without its last six bytes.  For a shorter message
`length() - 6` wraps around and `substr` keeps all of it. -/
def dropAlarmSuffix (message : List Char) : List Char :=
  if message.length < 6 then message else message.take (message.length - 6)

/-- The loop over the names, with its fallback. -/
def matchStatusName (alarmString : List Char) : AlarmStatus :=
  match enumNamesAlarmStatus.find? fun entry => entry.1.toList = alarmString with
  | some entry => entry.2
  | none => .udf

/-- The status that an alarm message names. -/
def alarmStatusOf (message : List Char) : AlarmStatus :=
  matchStatusName
    (if message ≠ "NO_ALARM".toList then dropAlarmSuffix message else message)

def getAlarmStatus (update : EpicsPVUpdate) : AlarmStatus :=
  match update.alarm with
  | none => .noAlarm
  | some alarm => alarmStatusOf alarm.message

/-- `EpicsSeverityToFlatbufferSeverity[..]`, which adds the zero value of the
enumeration for a key that is missing. -/
def epicsSeverityToFlatbufferSeverity (severity : Int) : AlarmSeverity :=
  if severity = 0 then .noAlarm
  else if severity = 1 then .minor
  else if severity = 2 then .major
  else if severity = 3 ∨ severity = 4 then .invalid
  else .minor

def getAlarmSeverity (update : EpicsPVUpdate) : AlarmSeverity :=
  match update.alarm with
  | none => .noAlarm
  | some alarm => epicsSeverityToFlatbufferSeverity alarm.severity

/-- The alarm fields of an f142 message, as far as they are present. -/
structure LogData where
  status : Option AlarmStatus := none
  severity : Option AlarmSeverity := none
deriving Repr, DecidableEq

/-- The flatbuffer builder leaves out a field that has its default value. -/
def addElement {α : Type} [DecidableEq α] (value default : α) : Option α :=
  if value = default then none else some value

/-- The alarm part of `f142::Converter::create`. -/
def F142.Converter.create (update : EpicsPVUpdate) : LogData :=
  if update.alarmStatusChanged then
    { status := addElement (getAlarmStatus update) .noChange
      severity := addElement (getAlarmSeverity update) .noChange }
  else {}

/-- What a consumer remembers of the alarm fields. -/
structure Consumer where
  status : Option AlarmStatus := none
  severity : Option AlarmSeverity := none
deriving Repr, DecidableEq

/-- An absent field means that nothing has changed. -/
def Consumer.receive (consumer : Consumer) (message : LogData) : Consumer where
  status := message.status.or consumer.status
  severity := message.severity.or consumer.severity

/-- A monitor with the updates that will still be delivered to it, the update
objects by address, its cache and queue, and the consumer behind the
converter.  `received` is history: the converted updates, each with what the
consumer held afterwards. -/
structure Monitor where
  pending : List Alarm
  updates : List EpicsPVUpdate
  cachedUpdate : Option Nat
  emitQueue : List Nat
  consumer : Consumer
  received : List (Nat × Consumer)
deriving Repr, DecidableEq

/-- Set the mark if the alarm message changed; it is never taken back. -/
def EpicsPVUpdate.mark (update : EpicsPVUpdate) (changed : Bool) : EpicsPVUpdate :=
  if changed then { update with alarmStatusChanged := true } else update

@[simp] theorem EpicsPVUpdate.mark_alarm (update : EpicsPVUpdate) (changed : Bool) :
    (update.mark changed).alarm = update.alarm := by
  unfold EpicsPVUpdate.mark
  split <;> rfl

@[simp] theorem EpicsPVUpdate.mark_alarmStatusChanged (update : EpicsPVUpdate)
    (changed : Bool) : (update.mark changed).alarmStatusChanged =
      (changed || update.alarmStatusChanged) := by
  cases changed <;> rfl

/-- `none` stands for the null dereference when only the cached update lacks
an alarm field. -/
def alarmMessageChanged (update cached : EpicsPVUpdate) : Option Bool :=
  match update.alarm, cached.alarm with
  | none, _ => some false
  | some _, none => none
  | some current, some previous => some (current.message ≠ previous.message)

namespace Monitor

def emitWithoutCaching (s : Monitor) (address : Nat) : Monitor :=
  { s with emitQueue := s.emitQueue ++ [address] }

/-- Allocate the update, marked if its alarm message changed, then cache and
queue it. -/
def store (s : Monitor) (update : EpicsPVUpdate) (changed : Bool) : Monitor :=
  emitWithoutCaching
    { s with
      updates := s.updates ++ [update.mark changed]
      cachedUpdate := some s.updates.length } s.updates.length

def emit (s : Monitor) (update : EpicsPVUpdate) : Option Monitor :=
  match s.cachedUpdate with
  | none => some (s.store update true)
  | some cached =>
      (s.updates[cached]?).bind fun previous =>
        (alarmMessageChanged update previous).map (s.store update)

def emitCachedValue (s : Monitor) : Monitor :=
  match s.cachedUpdate with
  | none => s
  | some cached =>
      emitWithoutCaching
        { s with
          updates := s.updates.modify cached (EpicsPVUpdate.mark · true) } cached

/-- The next pending update arrives. -/
def deliver (s : Monitor) : Option Monitor :=
  match s.pending with
  | [] => none
  | alarm :: rest => { s with pending := rest }.emit { alarm := some alarm }

/-- A conversion worker converts the update at the front of the queue and the
consumer receives the message. -/
def convert (s : Monitor) : Option Monitor :=
  match s.emitQueue with
  | [] => none
  | address :: rest =>
      (s.updates[address]?).map fun update =>
        let consumer := s.consumer.receive (F142.Converter.create update)
        { s with
          emitQueue := rest
          consumer
          received := s.received ++ [(address, consumer)] }

variable {s s' : Monitor}

/-- What a delivery does; an update that is not marked has the message of the
cached one. -/
theorem deliver_cases (hstep : s.deliver = some s') :
    ∃ alarm rest changed, s.pending = alarm :: rest ∧
      s' = { s with pending := rest }.store { alarm := some alarm } changed ∧
      (changed = false → ∃ cached previous, s.cachedUpdate = some cached ∧
        s.updates[cached]? = some previous ∧
        previous.alarm.map Alarm.message = some alarm.message) := by
  unfold deliver at hstep
  split at hstep
  · cases hstep
  rename_i alarm rest hpending
  unfold emit at hstep
  split at hstep
  · cases hstep
    exact ⟨alarm, rest, true, hpending, rfl, by simp⟩
  · rename_i cached hcached
    obtain ⟨previous, hprevious, hmap⟩ := Option.bind_eq_some_iff.mp hstep
    obtain ⟨changed, hchanged, rfl⟩ := Option.map_eq_some_iff.mp hmap
    refine ⟨alarm, rest, changed, hpending, rfl, ?_⟩
    rintro rfl
    refine ⟨cached, previous, hcached, hprevious, ?_⟩
    cases halarm : previous.alarm with
    | none => simp [alarmMessageChanged, halarm] at hchanged
    | some old =>
        simp only [alarmMessageChanged, halarm, Option.some.injEq,
          decide_eq_false_iff_not, not_not] at hchanged
        simp [hchanged]

theorem convert_cases (hstep : s.convert = some s') :
    ∃ address rest update, s.emitQueue = address :: rest ∧
      s.updates[address]? = some update ∧
      s' = { s with
        emitQueue := rest
        consumer := s.consumer.receive (F142.Converter.create update)
        received := s.received ++
          [(address, s.consumer.receive (F142.Converter.create update))] } := by
  unfold convert at hstep
  split at hstep
  · cases hstep
  rename_i address rest hqueue
  obtain ⟨update, hupdate, rfl⟩ := Option.map_eq_some_iff.mp hstep
  exact ⟨address, rest, update, hqueue, hupdate, rfl⟩

end Monitor

inductive MonitorAction where
  | deliver
  | emitCachedValue
  | convert
deriving Repr, DecidableEq

/-- The monitor to which the given alarms are delivered one by one. -/
def monitorSystem (alarms : List Alarm) :
    Transition.System Monitor MonitorAction where
  init s := s = ⟨alarms, [], none, [], {}, []⟩
  step s action :=
    match action with
    | .deliver => s.deliver
    | .emitCachedValue => some s.emitCachedValue
    | .convert => s.convert

/-- The alarm information of an update, as a consumer should hold it. -/
def EpicsPVUpdate.alarmInfo (update : EpicsPVUpdate) : Consumer :=
  ⟨some (getAlarmStatus update), some (getAlarmSeverity update)⟩

/-- After every message the consumer held the status and severity of the
update that was converted. -/
def Monitor.Reconstructed (s : Monitor) : Prop :=
  ∀ entry ∈ s.received, ∃ update, s.updates[entry.1]? = some update ∧
    entry.2 = update.alarmInfo

/-- The message names the status `NO_CHANGE`, which is never written. -/
def Alarm.namesNoChange (alarm : Alarm) : Prop :=
  ∃ suffix : List Char, suffix.length = 6 ∧
    alarm.message = "NO_CHANGE".toList ++ suffix

theorem matchStatusName_eq_noChange_iff (alarmString : List Char) :
    matchStatusName alarmString = .noChange ↔ alarmString = "NO_CHANGE".toList := by
  constructor
  · intro hstatus
    have hunique : ∀ entry ∈ enumNamesAlarmStatus, entry.2 = .noChange →
        entry.1 = "NO_CHANGE" := by decide
    unfold matchStatusName at hstatus
    split at hstatus
    · rename_i entry hfind
      have hname := List.find?_some hfind
      rw [← hunique entry (List.mem_of_find?_eq_some hfind) hstatus]
      exact (of_decide_eq_true hname).symm
    · cases hstatus
  · rintro rfl
    decide

/-- A message keeps all but its last six bytes, or everything if it is
shorter. -/
theorem dropAlarmSuffix_eq_iff {message kept : List Char} :
    dropAlarmSuffix message = kept ↔ (message = kept ∧ message.length < 6) ∨
      ∃ dropped : List Char, dropped.length = 6 ∧ message = kept ++ dropped := by
  unfold dropAlarmSuffix
  by_cases hshort : message.length < 6
  · rw [if_pos hshort]
    constructor
    · exact fun heq => Or.inl ⟨heq, hshort⟩
    · rintro (⟨heq, -⟩ | ⟨dropped, hdropped, rfl⟩)
      · exact heq
      · rw [List.length_append] at hshort
        omega
  · rw [if_neg hshort]
    constructor
    · intro heq
      refine Or.inr ⟨message.drop (message.length - 6), ?_, ?_⟩
      · rw [List.length_drop]
        omega
      · rw [← heq, List.take_append_drop]
    · rintro (⟨-, hlt⟩ | ⟨dropped, hdropped, rfl⟩)
      · exact absurd hlt hshort
      · rw [List.length_append, hdropped, Nat.add_sub_cancel, List.take_left]

theorem alarmStatusOf_eq_noChange_iff (alarm : Alarm) :
    alarmStatusOf alarm.message = .noChange ↔ alarm.namesNoChange := by
  have hlong : ¬ (alarm.message = "NO_CHANGE".toList ∧ alarm.message.length < 6) := by
    rintro ⟨heq, hshort⟩
    rw [heq] at hshort
    revert hshort
    decide
  have hnames : alarm.namesNoChange ↔ dropAlarmSuffix alarm.message = "NO_CHANGE".toList := by
    rw [dropAlarmSuffix_eq_iff, or_iff_right hlong]
    rfl
  rw [alarmStatusOf, matchStatusName_eq_noChange_iff, hnames]
  by_cases hnone : alarm.message = "NO_ALARM".toList
  · rw [hnone]
    decide
  · rw [if_pos hnone]

theorem epicsSeverityToFlatbufferSeverity_ne_noChange (severity : Int) :
    epicsSeverityToFlatbufferSeverity severity ≠ .noChange := by
  unfold epicsSeverityToFlatbufferSeverity
  repeat' split
  all_goals decide

theorem addElement_of_ne {α : Type} [DecidableEq α] {value default : α}
    (hne : value ≠ default) : addElement value default = some value :=
  if_neg hne

/-- A consumer never holds `NO_CHANGE`: the builder leaves that value out. -/
theorem receive_status_ne_noChange {consumer : Consumer}
    (hconsumer : consumer.status ≠ some .noChange) (update : EpicsPVUpdate) :
    (consumer.receive (F142.Converter.create update)).status ≠ some .noChange := by
  rw [Consumer.receive, F142.Converter.create]
  split
  · by_cases hstatus : getAlarmStatus update = .noChange
    · simpa [addElement, hstatus] using hconsumer
    · simp [addElement, hstatus]
  · simpa using hconsumer

/-- Addresses are converted in the order of allocation, each at least once:
the next one repeats the previous one or is its successor. -/
def Follows : Option Nat → Nat → Prop
  | none, next => next = 0
  | some previous, next => next = previous ∨ next = previous + 1

/-- A queue in which every address follows the one before it. -/
def Successive : Option Nat → List Nat → Prop
  | _, [] => True
  | previous, next :: rest => Follows previous next ∧ Successive (some next) rest

/-- The last address of a queue, or the one before the queue. -/
def latest : Option Nat → List Nat → Option Nat
  | previous, [] => previous
  | _, next :: rest => latest (some next) rest

theorem latest_append (previous : Option Nat) (queue : List Nat) (next : Nat) :
    latest previous (queue ++ [next]) = some next := by
  induction queue generalizing previous with
  | nil => rfl
  | cons first rest ih => exact ih (some first)

theorem Successive.append {previous : Option Nat} {queue : List Nat} {next : Nat}
    (hqueue : Successive previous queue)
    (hnext : Follows (latest previous queue) next) :
    Successive previous (queue ++ [next]) := by
  induction queue generalizing previous with
  | nil => exact ⟨hnext, trivial⟩
  | cons first rest ih => exact ⟨hqueue.1, ih hqueue.2 hnext⟩

/-- The address of the update converted last. -/
def Monitor.lastConverted (s : Monitor) : Option Nat :=
  s.received.getLast?.map Prod.fst

/-- What holds of the monitor whatever alarms it gets. -/
structure MonitorOk (alarms : List Alarm) (s : Monitor) : Prop where
  delivered : alarms.map some = s.updates.map EpicsPVUpdate.alarm ++ s.pending.map some
  cached : (s.cachedUpdate = none ∧ s.updates = []) ∨
    ∃ last, s.cachedUpdate = some last ∧ s.updates.length = last + 1
  successive : Successive s.lastConverted s.emitQueue
  queued : latest s.lastConverted s.emitQueue = s.cachedUpdate
  unmarked : ∀ i update, s.updates[i]? = some update →
    update.alarmStatusChanged = false → ∃ j previous, i = j + 1 ∧
      s.updates[j]? = some previous ∧
      previous.alarm.map Alarm.message = update.alarm.map Alarm.message
  heard : s.consumer = (s.received.getLast?.map Prod.snd).getD {}
  noChange : s.consumer.status ≠ some .noChange

namespace MonitorOk

variable {alarms : List Alarm} {s s' : Monitor}

theorem store (hok : MonitorOk alarms s) {alarm : Alarm} {rest : List Alarm}
    {changed : Bool} (hpending : s.pending = alarm :: rest)
    (hsame : changed = false → ∃ j previous, s.updates.length = j + 1 ∧
      s.updates[j]? = some previous ∧
      previous.alarm.map Alarm.message = some alarm.message) :
    MonitorOk alarms ({ s with pending := rest }.store { alarm := some alarm } changed) := by
  refine ⟨?_, ?_, ?_, ?_, ?_, hok.heard, hok.noChange⟩
  · have hdelivered := hok.delivered
    rw [hpending] at hdelivered
    simpa [Monitor.store, Monitor.emitWithoutCaching] using hdelivered
  · exact Or.inr ⟨s.updates.length, rfl, by
      simp [Monitor.store, Monitor.emitWithoutCaching]⟩
  · apply hok.successive.append
    rw [hok.queued]
    rcases hok.cached with ⟨hnone, hempty⟩ | ⟨last, hlast, hlength⟩
    · rw [hnone]
      simp [Follows, hempty]
    · rw [hlast]
      exact Or.inr hlength
  · exact latest_append _ _ _
  · intro i update hupdate hunmarked
    simp only [Monitor.store, Monitor.emitWithoutCaching] at hupdate ⊢
    by_cases hi : i < s.updates.length
    · rw [List.getElem?_append_left hi] at hupdate
      obtain ⟨j, previous, rfl, hprevious, hmessage⟩ :=
        hok.unmarked i update hupdate hunmarked
      refine ⟨j, previous, rfl, ?_, hmessage⟩
      rwa [List.getElem?_append_left (by omega)]
    · have hlast : i = s.updates.length := by
        have hbound := (List.getElem?_eq_some_iff.mp hupdate).1
        rw [List.length_append, List.length_singleton] at hbound
        omega
      subst hlast
      rw [List.getElem?_concat_length, Option.some.injEq] at hupdate
      subst hupdate
      simp only [EpicsPVUpdate.mark_alarmStatusChanged, Bool.or_eq_false_iff] at hunmarked
      obtain ⟨j, previous, hj, hprevious, hmessage⟩ := hsame hunmarked.1
      refine ⟨j, previous, hj, ?_, by simpa using hmessage⟩
      rwa [List.getElem?_append_left (by omega)]

theorem deliver (hok : MonitorOk alarms s) (hstep : s.deliver = some s') :
    MonitorOk alarms s' := by
  obtain ⟨alarm, rest, changed, hpending, rfl, hsame⟩ := Monitor.deliver_cases hstep
  apply hok.store hpending
  intro hchanged
  obtain ⟨cached, previous, hcached, hprevious, hmessage⟩ := hsame hchanged
  have hlength : s.updates.length = cached + 1 := by
    rcases hok.cached with ⟨hnone, -⟩ | ⟨last, hlast, hlength⟩
    · exact absurd (hcached.symm.trans hnone) (by simp)
    · have heq : cached = last := Option.some.inj (hcached.symm.trans hlast)
      omega
  exact ⟨cached, previous, hlength, hprevious, hmessage⟩

theorem emitCachedValue (hok : MonitorOk alarms s) :
    MonitorOk alarms s.emitCachedValue := by
  unfold Monitor.emitCachedValue
  split
  · exact hok
  · rename_i cached hcached
    have hmodify : ∀ i, (s.updates.modify cached (EpicsPVUpdate.mark · true))[i]? =
        (s.updates[i]?).map (EpicsPVUpdate.mark · (cached = i)) := by
      intro i
      rw [List.getElem?_modify]
      by_cases hi : cached = i
      · simp [hi]
      · cases s.updates[i]? <;> simp [hi, EpicsPVUpdate.mark]
    refine ⟨?_, ?_, ?_, ?_, ?_, hok.heard, hok.noChange⟩
    · have halarms : (s.updates.modify cached (EpicsPVUpdate.mark · true)).map
          EpicsPVUpdate.alarm = s.updates.map EpicsPVUpdate.alarm := by
        apply List.ext_getElem?
        intro i
        rw [List.getElem?_map, hmodify, List.getElem?_map, Option.map_map]
        congr 1
        funext update
        simp
      rw [hok.delivered]
      simp only [Monitor.emitWithoutCaching, halarms]
    · rcases hok.cached with ⟨hnone, -⟩ | ⟨last, hlast, hlength⟩
      · exact absurd (hcached.symm.trans hnone) (by simp)
      · exact Or.inr ⟨last, hlast, by
          simpa [Monitor.emitWithoutCaching] using hlength⟩
    · apply hok.successive.append
      rw [hok.queued, hcached]
      exact Or.inl rfl
    · exact (latest_append _ _ _).trans hcached.symm
    · intro i update hupdate hunmarked
      simp only [Monitor.emitWithoutCaching, hmodify, Option.map_eq_some_iff] at hupdate ⊢
      obtain ⟨old, hold, rfl⟩ := hupdate
      simp only [EpicsPVUpdate.mark_alarmStatusChanged, Bool.or_eq_false_iff] at hunmarked
      obtain ⟨j, previous, hj, hprevious, hmessage⟩ := hok.unmarked i old hold hunmarked.2
      exact ⟨j, _, hj, ⟨previous, hprevious, rfl⟩, by simpa using hmessage⟩

theorem convert (hok : MonitorOk alarms s) (hstep : s.convert = some s') :
    MonitorOk alarms s' := by
  obtain ⟨address, rest, update, hqueue, hupdate, rfl⟩ := Monitor.convert_cases hstep
  have hsuccessive := hok.successive
  have hqueued := hok.queued
  rw [hqueue] at hsuccessive hqueued
  have hlast : Monitor.lastConverted { s with
      emitQueue := rest
      consumer := s.consumer.receive (F142.Converter.create update)
      received := s.received ++
        [(address, s.consumer.receive (F142.Converter.create update))] } = some address := by
    simp [Monitor.lastConverted]
  refine ⟨hok.delivered, hok.cached, ?_, ?_, hok.unmarked, ?_, ?_⟩
  · rw [hlast]
    exact hsuccessive.2
  · rw [hlast]
    exact hqueued
  · simp
  · exact receive_status_ne_noChange hok.noChange update

end MonitorOk

variable {alarms : List Alarm} {s : Monitor}

theorem reachable_monitorOk (hreach : (monitorSystem alarms).Reachable s) :
    MonitorOk alarms s := by
  refine hreach.invariant ?_ ?_
  · rintro s rfl
    constructor <;> simp [Successive, latest, Monitor.lastConverted]
  · intro s action s' _ hok hstep
    cases action with
    | deliver => exact hok.deliver hstep
    | emitCachedValue =>
        cases hstep
        exact hok.emitCachedValue
    | convert => exact hok.convert hstep

/-- Updates with the alarm message of the update before them have its
severity too, and no message names `NO_CHANGE`. -/
structure AlarmsReconstructible (alarms : List Alarm) : Prop where
  severity : alarms.IsChain fun previous next => previous.message = next.message →
    epicsSeverityToFlatbufferSeverity previous.severity =
      epicsSeverityToFlatbufferSeverity next.severity
  status : ∀ alarm ∈ alarms, ¬ alarm.namesNoChange

theorem MonitorOk.alarm_getElem? (hok : MonitorOk alarms s) {i : Nat}
    {update : EpicsPVUpdate} (hupdate : s.updates[i]? = some update) :
    ∃ alarm, alarms[i]? = some alarm ∧ update.alarm = some alarm := by
  have hlt := (List.getElem?_eq_some_iff.mp hupdate).1
  have hget : (alarms.map some)[i]? = some update.alarm := by
    rw [hok.delivered, List.getElem?_append_left (by simpa using hlt),
      List.getElem?_map, hupdate]
    rfl
  rw [List.getElem?_map] at hget
  obtain ⟨alarm, halarm, heq⟩ := Option.map_eq_some_iff.mp hget
  exact ⟨alarm, halarm, heq.symm⟩

theorem alarmInfo_mark (update : EpicsPVUpdate) (changed : Bool) :
    (update.mark changed).alarmInfo = update.alarmInfo := by
  simp [EpicsPVUpdate.alarmInfo, getAlarmStatus, getAlarmSeverity]

/-- A marked update tells the consumer everything. -/
theorem receive_marked {update : EpicsPVUpdate} {alarm : Alarm} (consumer : Consumer)
    (hmarked : update.alarmStatusChanged = true) (halarm : update.alarm = some alarm)
    (hstatus : ¬ alarm.namesNoChange) :
    consumer.receive (F142.Converter.create update) = update.alarmInfo := by
  rw [← alarmStatusOf_eq_noChange_iff] at hstatus
  have hseverity := epicsSeverityToFlatbufferSeverity_ne_noChange alarm.severity
  simp [Consumer.receive, F142.Converter.create, hmarked, EpicsPVUpdate.alarmInfo,
    getAlarmStatus, getAlarmSeverity, halarm, addElement_of_ne hstatus,
    addElement_of_ne hseverity]

theorem receive_unmarked {update : EpicsPVUpdate} (consumer : Consumer)
    (hunmarked : update.alarmStatusChanged = false) :
    consumer.receive (F142.Converter.create update) = consumer := by
  simp [Consumer.receive, F142.Converter.create, hunmarked]

/-- Two successive updates with the same message carry the same information. -/
theorem AlarmsReconstructible.alarmInfo_eq (halarms : AlarmsReconstructible alarms)
    (hok : MonitorOk alarms s) {j : Nat} {previous update : EpicsPVUpdate}
    (hprevious : s.updates[j]? = some previous)
    (hupdate : s.updates[j + 1]? = some update)
    (hmessage : previous.alarm.map Alarm.message = update.alarm.map Alarm.message) :
    update.alarmInfo = previous.alarmInfo := by
  obtain ⟨old, hold, holdAlarm⟩ := hok.alarm_getElem? hprevious
  obtain ⟨new, hnew, hnewAlarm⟩ := hok.alarm_getElem? hupdate
  simp only [holdAlarm, hnewAlarm, Option.map_some, Option.some.injEq] at hmessage
  obtain ⟨hj, rfl⟩ := List.getElem?_eq_some_iff.mp hold
  obtain ⟨hj', rfl⟩ := List.getElem?_eq_some_iff.mp hnew
  have hseverity := List.isChain_iff_getElem.mp halarms.severity j hj' hmessage
  simp [EpicsPVUpdate.alarmInfo, getAlarmStatus, getAlarmSeverity, holdAlarm,
    hnewAlarm, hmessage, hseverity]

/-- Steps of the monitor only append to the updates and set marks. -/
theorem Monitor.Reconstructed.congr {s' : Monitor} (hrec : s.Reconstructed)
    (hreceived : s'.received = s.received)
    (hupdates : ∀ (i : Nat) (update : EpicsPVUpdate), s.updates[i]? = some update →
      ∃ update' : EpicsPVUpdate, s'.updates[i]? = some update' ∧
        update'.alarmInfo = update.alarmInfo) : s'.Reconstructed := by
  intro entry hentry
  rw [hreceived] at hentry
  obtain ⟨update, hupdate, hinfo⟩ := hrec entry hentry
  obtain ⟨update', hupdate', hinfo'⟩ := hupdates _ _ hupdate
  exact ⟨update', hupdate', hinfo.trans hinfo'.symm⟩

theorem reconstructed_store (hrec : s.Reconstructed) (rest : List Alarm)
    (update : EpicsPVUpdate) (changed : Bool) :
    ({ s with pending := rest }.store update changed).Reconstructed := by
  refine hrec.congr rfl ?_
  intro i update hupdate
  have hi := (List.getElem?_eq_some_iff.mp hupdate).1
  exact ⟨update, by rw [← hupdate]; exact List.getElem?_append_left hi, rfl⟩

theorem reconstructed_deliver {s' : Monitor} (hrec : s.Reconstructed)
    (hstep : s.deliver = some s') : s'.Reconstructed := by
  obtain ⟨alarm, rest, changed, -, rfl, -⟩ := Monitor.deliver_cases hstep
  exact reconstructed_store hrec rest _ changed

theorem reconstructed_emitCachedValue (hrec : s.Reconstructed) :
    s.emitCachedValue.Reconstructed := by
  unfold Monitor.emitCachedValue
  split
  · exact hrec
  · rename_i cached _
    refine hrec.congr rfl ?_
    intro i update hupdate
    refine ⟨if cached = i then update.mark true else update, ?_, ?_⟩
    · simp only [Monitor.emitWithoutCaching, List.getElem?_modify, hupdate]
      split <;> rfl
    · split
      · exact alarmInfo_mark update true
      · rfl

/-- What the consumer holds once the next update has been converted. -/
theorem receive_next (halarms : AlarmsReconstructible alarms)
    (hok : MonitorOk alarms s) (hrec : s.Reconstructed) {address : Nat}
    {rest : List Nat} {update : EpicsPVUpdate}
    (hqueue : s.emitQueue = address :: rest)
    (hupdate : s.updates[address]? = some update) :
    s.consumer.receive (F142.Converter.create update) = update.alarmInfo := by
  cases hmark : update.alarmStatusChanged with
  | true =>
      obtain ⟨alarm, halarm, hcarried⟩ := hok.alarm_getElem? hupdate
      exact receive_marked _ hmark hcarried
        (halarms.status alarm (List.mem_of_getElem? halarm))
  | false =>
      -- the consumer still holds what the update converted before brought
      rw [receive_unmarked _ hmark, hok.heard]
      obtain ⟨j, previous, rfl, hprevious, hmessage⟩ :=
        hok.unmarked address update hupdate hmark
      have hfollows := hok.successive
      rw [hqueue] at hfollows
      cases hlast : s.received.getLast? with
      | none =>
          have hzero : j + 1 = 0 := by
            simpa [Monitor.lastConverted, hlast, Follows] using hfollows.1
          omega
      | some entry =>
          obtain ⟨converted, hconverted, hinfo⟩ :=
            hrec entry (List.mem_of_getLast? hlast)
          have hnext : j + 1 = entry.1 ∨ j + 1 = entry.1 + 1 := by
            simpa [Monitor.lastConverted, hlast, Follows] using hfollows.1
          rw [Option.map_some, Option.getD_some, hinfo]
          rcases hnext with hsame | hsucc
          · rw [← hsame, hupdate, Option.some.injEq] at hconverted
            rw [hconverted]
          · have hentry : entry.1 = j := by omega
            rw [hentry, hprevious, Option.some.injEq] at hconverted
            rw [← hconverted]
            exact (halarms.alarmInfo_eq hok hprevious hupdate hmessage).symm

theorem reconstructed_convert {s' : Monitor} (halarms : AlarmsReconstructible alarms)
    (hok : MonitorOk alarms s) (hrec : s.Reconstructed)
    (hstep : s.convert = some s') : s'.Reconstructed := by
  obtain ⟨address, rest, update, hqueue, hupdate, rfl⟩ := Monitor.convert_cases hstep
  intro entry hentry
  rcases List.mem_append.mp hentry with hold | hnew
  · exact hrec entry hold
  · obtain rfl := List.mem_singleton.mp hnew
    exact ⟨update, hupdate, receive_next halarms hok hrec hqueue hupdate⟩

theorem reachable_reconstructed (halarms : AlarmsReconstructible alarms)
    (hreach : (monitorSystem alarms).Reachable s) : s.Reconstructed := by
  refine hreach.invariant ?_ ?_
  · rintro s rfl entry hentry
    cases hentry
  · intro s action s' hbefore hrec hstep
    cases action with
    | deliver => exact reconstructed_deliver hrec hstep
    | emitCachedValue =>
        cases hstep
        exact reconstructed_emitCachedValue hrec
    | convert =>
        exact reconstructed_convert halarms (reachable_monitorOk hbefore) hrec hstep

/-- The monitor after an update was delivered and converted at once. -/
def Monitor.handled (s : Monitor) (rest : List Alarm) (update : EpicsPVUpdate) :
    Monitor where
  pending := rest
  updates := s.updates ++ [update]
  cachedUpdate := some s.updates.length
  emitQueue := []
  consumer := s.consumer.receive (F142.Converter.create update)
  received := s.received ++
    [(s.updates.length, s.consumer.receive (F142.Converter.create update))]

theorem MonitorOk.deliver_eq (hok : MonitorOk alarms s) {alarm : Alarm}
    {rest : List Alarm} (hpending : s.pending = alarm :: rest) :
    ∃ changed, s.deliver =
        some ({ s with pending := rest }.store { alarm := some alarm } changed) ∧
      ∀ previous, s.updates.getLast? = some previous →
        previous.alarm.map Alarm.message = some alarm.message → changed = false := by
  rcases hok.cached with ⟨hnone, hempty⟩ | ⟨last, hlast, hlength⟩
  · refine ⟨true, ?_, ?_⟩
    · simp [Monitor.deliver, Monitor.emit, hpending, hnone]
    · simp [hempty]
  · have hlt : last < s.updates.length := by omega
    obtain ⟨old, -, hold⟩ := hok.alarm_getElem? (List.getElem?_eq_getElem hlt)
    refine ⟨decide (alarm.message ≠ old.message), ?_, ?_⟩
    · simp [Monitor.deliver, Monitor.emit, hpending, hlast, hlt,
        alarmMessageChanged, hold]
    · intro previous hprevious hmessage
      have heq : previous = s.updates[last] := by
        rw [List.getLast?_eq_getElem?, hlength, Nat.add_sub_cancel,
          List.getElem?_eq_getElem hlt, Option.some.injEq] at hprevious
        exact hprevious.symm
      rw [heq, hold, Option.map_some, Option.some.injEq] at hmessage
      simp [hmessage]

theorem reachable_handled (hreach : (monitorSystem alarms).Reachable s) {alarm : Alarm}
    {rest : List Alarm} (hpending : s.pending = alarm :: rest)
    (hqueue : s.emitQueue = []) :
    ∃ changed, (monitorSystem alarms).Reachable
        (s.handled rest (EpicsPVUpdate.mark { alarm := some alarm } changed)) ∧
      ∀ previous, s.updates.getLast? = some previous →
        previous.alarm.map Alarm.message = some alarm.message → changed = false := by
  obtain ⟨changed, hdeliver, hsame⟩ :=
    (reachable_monitorOk hreach).deliver_eq hpending
  refine ⟨changed, ?_, hsame⟩
  have hstep : (monitorSystem alarms).step s .deliver = some _ := hdeliver
  apply (hreach.next hstep).next
  show (monitorSystem alarms).step _ .convert = _
  simp [monitorSystem, Monitor.convert, Monitor.store, Monitor.emitWithoutCaching,
    Monitor.handled, hqueue]

/-- Any number of updates can be converted before the next one is delivered. -/
theorem exists_reachable_drained (before rest : List Alarm)
    (halarms : alarms = before ++ rest) :
    ∃ s, (monitorSystem alarms).Reachable s ∧ s.pending = rest ∧ s.emitQueue = [] := by
  induction before using List.reverseRecOn generalizing rest with
  | nil => exact ⟨_, .init rfl, halarms, rfl⟩
  | append_singleton before alarm ih =>
      rw [List.append_assoc] at halarms
      obtain ⟨s, hreach, hpending, hqueue⟩ := ih _ halarms
      obtain ⟨changed, hnext, -⟩ := reachable_handled hreach hpending hqueue
      exact ⟨_, hnext, rfl, rfl⟩

theorem reconstructed_handled {rest : List Alarm} {update : EpicsPVUpdate}
    (hrec : (s.handled rest update).Reconstructed) :
    s.consumer.receive (F142.Converter.create update) = update.alarmInfo := by
  obtain ⟨converted, hconverted, hinfo⟩ :=
    hrec (s.updates.length, s.consumer.receive (F142.Converter.create update))
      (List.mem_append_right _ (List.mem_singleton_self _))
  have heq : update = converted := by
    simpa [Monitor.handled] using hconverted
  rw [heq] at hinfo ⊢
  exact hinfo

theorem status_of_reconstructed
    (hrec : ∀ s, (monitorSystem alarms).Reachable s → s.Reconstructed) {alarm : Alarm}
    (hmem : alarm ∈ alarms) : ¬ alarm.namesNoChange := by
  intro hnames
  obtain ⟨before, rest, hsplit⟩ := List.append_of_mem hmem
  obtain ⟨s, hreach, hpending, hqueue⟩ := exists_reachable_drained before _ hsplit
  obtain ⟨changed, hnext, -⟩ := reachable_handled hreach hpending hqueue
  have hholds := reconstructed_handled (hrec _ hnext)
  -- the consumer should hold a value that is never written
  have hnever := receive_status_ne_noChange (reachable_monitorOk hreach).noChange
    (EpicsPVUpdate.mark { alarm := some alarm } changed)
  apply hnever
  rw [hholds, alarmInfo_mark]
  exact congrArg some ((alarmStatusOf_eq_noChange_iff alarm).mpr hnames)

theorem severity_of_reconstructed
    (hrec : ∀ s, (monitorSystem alarms).Reachable s → s.Reconstructed)
    {before rest : List Alarm} {previous next : Alarm}
    (hsplit : alarms = before ++ previous :: next :: rest)
    (hmessage : previous.message = next.message) :
    epicsSeverityToFlatbufferSeverity previous.severity =
      epicsSeverityToFlatbufferSeverity next.severity := by
  obtain ⟨s, hreach, hpending, hqueue⟩ := exists_reachable_drained before _ hsplit
  obtain ⟨changed, hfirst, -⟩ := reachable_handled hreach hpending hqueue
  obtain ⟨marked, hsecond, hsame⟩ := reachable_handled hfirst rfl rfl
  have hholds := reconstructed_handled (hrec _ hfirst)
  have hholds' := reconstructed_handled (hrec _ hsecond)
  -- the second update is not marked, so its message says nothing
  have hunmarked : marked = false := by
    apply hsame (EpicsPVUpdate.mark { alarm := some previous } changed)
    · simp [Monitor.handled]
    · simp [hmessage]
  rw [hunmarked, receive_unmarked _ rfl] at hholds'
  have hequal := congrArg Consumer.severity (hholds.symm.trans hholds')
  rw [alarmInfo_mark] at hequal
  exact Option.some.inj hequal

/-- The consumer can reconstruct the alarm information of every update, under
every schedule, exactly if the alarms are of the kind the mark accounts for. -/
theorem alarms_reconstructed_iff (alarms : List Alarm) :
    (∀ s, (monitorSystem alarms).Reachable s → s.Reconstructed) ↔
      AlarmsReconstructible alarms := by
  constructor
  · intro hrec
    refine ⟨?_, fun alarm hmem => status_of_reconstructed hrec hmem⟩
    rw [List.isChain_iff_forall_rel_of_append_cons_cons]
    intro previous next before rest hsplit hmessage
    exact severity_of_reconstructed hrec hsplit hmessage
  · intro halarms s hreach
    exact reachable_reconstructed halarms hreach

/-- The severity rises from minor to major under the same message: the second
message has no alarm fields and the consumer keeps the old severity. -/
theorem severityRises_not_reconstructed :
    ¬ ∀ s, (monitorSystem [⟨"HIGH_ALARM".toList, 1⟩,
      ⟨"HIGH_ALARM".toList, 2⟩]).Reachable s → s.Reconstructed := by
  intro hrec
  have hseverity := severity_of_reconstructed hrec (List.nil_append _).symm rfl
  revert hseverity
  decide

end EpicsToKafka
