/-
How alarm messages become statuses.  EPICS sends the name of a status with
`_ALARM` behind it.  The last six bytes of a message are dropped whatever they
are, a shorter message is kept whole, and the rest is looked up among all the
names of the schema.
-/
import EpicsToKafka.Alarms

namespace EpicsToKafka

/-- The messages that EPICS sends for a status: `NO_ALARM`, or one of the other
names with `_ALARM` behind it.  `NO_CHANGE` is no status of EPICS. -/
def NamesStatus (message : List Char) (status : AlarmStatus) : Prop :=
  (message = "NO_ALARM".toList ∧ status = .noAlarm) ∨
    ∃ name, (name, status) ∈ enumNamesAlarmStatus ∧ name ≠ "NO_ALARM" ∧ name ≠ "NO_CHANGE" ∧
      message = name.toList ++ "_ALARM".toList

/-- An alarm is translated as EPICS means it, and is passed on when it
changes. -/
structure AlarmTranslated (alarm : Alarm) : Prop where
  status : ∀ status, status ≠ .udf →
    (getAlarmStatus { alarm := some alarm } = status ↔ NamesStatus alarm.message status)
  other : (∀ status, status ≠ .udf → ¬ NamesStatus alarm.message status) →
    getAlarmStatus { alarm := some alarm } = .udf
  written : (F142.Converter.create { alarm := some alarm, alarmStatusChanged := true }).status =
    some (getAlarmStatus { alarm := some alarm })

/-- The message is a name that is too short to lose anything, or a name and six
bytes that are not the ones to be dropped from it. -/
def Misread (message : List Char) : Prop :=
  ∃ name status, (name, status) ∈ enumNamesAlarmStatus ∧ status ≠ .udf ∧
    ((message = name.toList ∧ message.length < 6) ∨
      ∃ dropped : List Char, dropped.length = 6 ∧ message = name.toList ++ dropped ∧
        (dropped ≠ "_ALARM".toList ∨ name = "NO_ALARM" ∨ name = "NO_CHANGE"))

section Names

variable {message : List Char} {name : String} {status : AlarmStatus}

/-- No two names are the same. -/
theorem matchStatusName_of_mem (hmem : (name, status) ∈ enumNamesAlarmStatus) :
    matchStatusName name.toList = status := by
  have hnames : ∀ entry ∈ enumNamesAlarmStatus, matchStatusName entry.1.toList = entry.2 := by
    decide
  exact hnames _ hmem

theorem matchStatusName_eq_iff {alarmString : List Char} (hstatus : status ≠ .udf) :
    matchStatusName alarmString = status ↔
      ∃ name, (name, status) ∈ enumNamesAlarmStatus ∧ alarmString = name.toList := by
  constructor
  · intro hmatch
    unfold matchStatusName at hmatch
    split at hmatch
    · rename_i entry hfind
      have hname := List.find?_some hfind
      refine ⟨entry.1, ?_, (of_decide_eq_true hname).symm⟩
      rw [← hmatch]
      exact List.mem_of_find?_eq_some hfind
    · exact absurd hmatch.symm hstatus
  · rintro ⟨name, hmem, rfl⟩
    exact matchStatusName_of_mem hmem

/-- `NO` is no name. -/
theorem ne_noAlarm_of_mem {dropped : List Char} (hmem : (name, status) ∈ enumNamesAlarmStatus)
    (hdropped : dropped.length = 6) : "NO_ALARM".toList ≠ name.toList ++ dropped := by
  have hlengths : ∀ entry ∈ enumNamesAlarmStatus, entry.1.toList.length ≠ 2 := by
    decide
  intro heq
  have hlength := congrArg List.length heq
  have hnone : "NO_ALARM".toList.length = 8 := by decide
  rw [hnone, List.length_append, hdropped] at hlength
  have htwo : name.toList.length = 2 := by omega
  exact hlengths _ hmem htwo

/-- Every status but `UDF` comes from a name in the message. -/
theorem alarmStatusOf_eq_iff (hstatus : status ≠ .udf) :
    alarmStatusOf message = status ↔ (message = "NO_ALARM".toList ∧ status = .noAlarm) ∨
      ∃ name, (name, status) ∈ enumNamesAlarmStatus ∧
        ((message = name.toList ∧ message.length < 6) ∨
          ∃ dropped : List Char, dropped.length = 6 ∧ message = name.toList ++ dropped) := by
  by_cases hnone : message = "NO_ALARM".toList
  · have hread : alarmStatusOf "NO_ALARM".toList = .noAlarm := by decide
    rw [hnone, hread]
    constructor
    · exact fun heq => Or.inl ⟨rfl, heq.symm⟩
    · rintro (⟨-, heq⟩ | ⟨name, hmem, ⟨-, hshort⟩ | ⟨dropped, hdropped, heq⟩⟩)
      · exact heq.symm
      · exact absurd hshort (by decide)
      · exact absurd heq (ne_noAlarm_of_mem hmem hdropped)
  · rw [alarmStatusOf, if_pos hnone, matchStatusName_eq_iff hstatus]
    simp only [dropAlarmSuffix_eq_iff, hnone, false_and, false_or]

end Names

section Translation

variable {alarm : Alarm} {name : String} {status : AlarmStatus}

/-- The two names that EPICS sends nothing behind. -/
theorem name_of_mem (hmem : (name, status) ∈ enumNamesAlarmStatus) :
    (name = "NO_ALARM" ↔ status = .noAlarm) ∧ (name = "NO_CHANGE" ↔ status = .noChange) := by
  have hnames : ∀ entry ∈ enumNamesAlarmStatus, (entry.1 = "NO_ALARM" ↔ entry.2 = .noAlarm) ∧
      (entry.1 = "NO_CHANGE" ↔ entry.2 = .noChange) := by
    decide
  exact hnames _ hmem

theorem not_namesStatus_noChange (message : List Char) :
    ¬ NamesStatus message .noChange := by
  rintro (⟨-, himpossible⟩ | ⟨name, hmem, -, hne, -⟩)
  · cases himpossible
  · exact hne ((name_of_mem hmem).2.mpr rfl)

/-- What EPICS sends is translated. -/
theorem alarmStatusOf_of_namesStatus {message : List Char} (hstatus : status ≠ .udf)
    (hnames : NamesStatus message status) : alarmStatusOf message = status := by
  rw [alarmStatusOf_eq_iff hstatus]
  rcases hnames with hnone | ⟨name, hmem, -, -, rfl⟩
  · exact Or.inl hnone
  · exact Or.inr ⟨name, hmem, Or.inr ⟨"_ALARM".toList, by decide, rfl⟩⟩

/-- A message that is misread is none that EPICS sends for the status. -/
theorem not_namesStatus_of_misread {message : List Char}
    (hmem : (name, status) ∈ enumNamesAlarmStatus)
    (hread : (message = name.toList ∧ message.length < 6) ∨
      ∃ dropped : List Char, dropped.length = 6 ∧ message = name.toList ++ dropped ∧
        (dropped ≠ "_ALARM".toList ∨ name = "NO_ALARM" ∨ name = "NO_CHANGE")) :
    ¬ NamesStatus message status := by
  have hsuffix : "_ALARM".toList.length = 6 := by decide
  have hnone : "NO_ALARM".toList.length = 8 := by decide
  rintro (⟨rfl, -⟩ | ⟨name', hmem', hneAlarm, hneChange, rfl⟩)
  · rcases hread with ⟨-, hshort⟩ | ⟨dropped, hdropped, heq, -⟩
    · omega
    · exact ne_noAlarm_of_mem hmem hdropped heq
  · rcases hread with ⟨-, hshort⟩ | ⟨dropped, hdropped, heq, hwrong⟩
    · rw [List.length_append, hsuffix] at hshort
      omega
    · obtain ⟨hname, hsame⟩ := List.append_inj' heq (hsuffix.trans hdropped.symm)
      rcases hwrong with hne | hname | hname
      · exact hne hsame.symm
      · exact hneAlarm ((name_of_mem hmem').1.mpr ((name_of_mem hmem).1.mp hname))
      · exact hneChange ((name_of_mem hmem').2.mpr ((name_of_mem hmem).2.mp hname))

/-- A message that is not misread names the status that it is given. -/
theorem namesStatus_of_alarmStatusOf {message : List Char} (hstatus : status ≠ .udf)
    (hread : ¬ Misread message) (heq : alarmStatusOf message = status) :
    NamesStatus message status := by
  rcases (alarmStatusOf_eq_iff hstatus).mp heq with hnone | ⟨name, hmem, hshort | hlong⟩
  · exact Or.inl hnone
  · exact absurd ⟨name, status, hmem, hstatus, Or.inl hshort⟩ hread
  · obtain ⟨dropped, hdropped, hmessage⟩ := hlong
    have hright : ¬ (dropped ≠ "_ALARM".toList ∨ name = "NO_ALARM" ∨ name = "NO_CHANGE") :=
      fun hwrong => hread ⟨name, status, hmem, hstatus,
        Or.inr ⟨dropped, hdropped, hmessage, hwrong⟩⟩
    rw [not_or, not_or, not_not] at hright
    obtain ⟨rfl, hneAlarm, hneChange⟩ := hright
    exact Or.inr ⟨name, hmem, hneAlarm, hneChange, hmessage⟩

/-- An alarm is translated as EPICS means it exactly if its message is not
misread. -/
theorem alarmTranslated_iff (alarm : Alarm) :
    AlarmTranslated alarm ↔ ¬ Misread alarm.message := by
  constructor
  · rintro htranslated ⟨name, status, hmem, hstatus, hread⟩
    refine not_namesStatus_of_misread hmem hread ((htranslated.status status hstatus).mp ?_)
    refine (alarmStatusOf_eq_iff hstatus).mpr (Or.inr ⟨name, hmem, ?_⟩)
    rcases hread with hshort | ⟨dropped, hdropped, hmessage, -⟩
    · exact Or.inl hshort
    · exact Or.inr ⟨dropped, hdropped, hmessage⟩
  · intro hread
    refine ⟨?_, ?_, ?_⟩
    · intro status hstatus
      exact ⟨namesStatus_of_alarmStatusOf hstatus hread, alarmStatusOf_of_namesStatus hstatus⟩
    · intro hother
      by_contra hstatus
      exact hother _ hstatus (namesStatus_of_alarmStatusOf hstatus hread rfl)
    · refine addElement_of_ne fun hnoChange => ?_
      exact not_namesStatus_noChange alarm.message
        (namesStatus_of_alarmStatusOf (by decide) hread hnoChange)

/-- A name without the suffix, a name with six other bytes behind it, and the
name that is no alarm. -/
theorem shortName_misread :
    ¬ AlarmTranslated ⟨"HIGH".toList, 1⟩ ∧
      getAlarmStatus { alarm := some ⟨"HIGH".toList, 1⟩ } = .high ∧
      getAlarmStatus { alarm := some ⟨"READxxxxxx".toList, 1⟩ } = .read ∧
      (F142.Converter.create
        { alarm := some ⟨"NO_CHANGE_ALARM".toList, 1⟩, alarmStatusChanged := true }).status =
          none := by
  refine ⟨?_, by decide, by decide, by decide⟩
  intro htranslated
  have hnames := (htranslated.status .high (by decide)).mp (by decide)
  have hread : ("HIGH".toList = "HIGH".toList ∧ "HIGH".toList.length < 6) := by decide
  exact @not_namesStatus_of_misread "HIGH" _ _ (by decide) (Or.inl hread) hnames

end Translation

end EpicsToKafka
