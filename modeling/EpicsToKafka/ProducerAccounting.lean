/-
The counters of a producer.  A report may be counted before the call it
belongs to has counted its message, so the balance holds between the counters
and the threads that still owe an update.
-/
import EpicsToKafka.ProducerOwnership

namespace EpicsToKafka.KafkaW

open Threads (occupants occupants_update occupants_eq_zero)

variable {n m : Nat} {s s' : State n m} {k : Fin n}

/-- Accepted, and `produced` not counted yet. -/
def ProducePc.owesProduced : ProducePc → Bool
  | .answered _ .noError => true
  | _ => false

/-- Counted in `produced`, and not yet in `TotalMessagesProduced`. -/
def ProducePc.owesTotal : ProducePc → Bool
  | .produced _ | .sized _ => true
  | _ => false

/-- Between librdkafka's answer and the counter updates of the call. -/
def ProducePc.counting : ProducePc → Bool
  | .answered _ _ | .produced _ | .sized _ => true
  | _ => false

/-- No call is between librdkafka's answer and its counter updates. -/
def State.Settled (s : State n m) : Prop :=
  ∀ k, (s.thread k).counting = false

/-- Accepted messages that were not reported yet. -/
def State.unreported (s : State n m) : List Nat :=
  s.acceptedMessages.filter fun x => x ∉ s.reported

structure CountersOk (s : State n m) : Prop where
  accepted : s.accepted.length =
    s.stats.produced + occupants s.thread ProducePc.owesProduced
  produced : s.stats.produced =
    s.totalMessagesProduced + occupants s.thread ProducePc.owesTotal
  reported : s.reported.length = s.stats.produceCb + s.stats.produceCbFail
  succeeded : s.returned.count 0 = s.totalMessagesProduced
  returned : s.returned.length = s.totalMessagesProduced + s.stats.localQueueFull +
    s.stats.msgTooLarge + s.stats.produceFail

theorem CountersOk.initial : CountersOk (State.initial n m) := by
  have hnone : ∀ p : ProducePc → Bool, p .idle = false →
      occupants (State.initial n m).thread p = 0 :=
    fun p hp => occupants_eq_zero fun _ => hp
  constructor
  · rw [hnone _ rfl]; rfl
  · rw [hnone _ rfl]; rfl
  · rfl
  · rfl
  · rfl

/-- One thread moves on: what it owed before and owes now has to match what
the step counts. -/
theorem CountersOk.moves (hok : CountersOk s) {pc : ProducePc}
    (hthread : s'.thread = Function.update s.thread k pc)
    (haccepted : s'.accepted.length + s.stats.produced +
        [s.thread k].countP ProducePc.owesProduced =
      s.accepted.length + s'.stats.produced + [pc].countP ProducePc.owesProduced)
    (hproduced : s'.stats.produced + s.totalMessagesProduced +
        [s.thread k].countP ProducePc.owesTotal =
      s.stats.produced + s'.totalMessagesProduced + [pc].countP ProducePc.owesTotal)
    (hreported : s'.reported.length = s'.stats.produceCb + s'.stats.produceCbFail)
    (hsucceeded : s'.returned.count 0 = s'.totalMessagesProduced)
    (hreturned : s'.returned.length = s'.totalMessagesProduced +
      s'.stats.localQueueFull + s'.stats.msgTooLarge + s'.stats.produceFail) :
    CountersOk s' := by
  have howesProduced := occupants_update s.thread ProducePc.owesProduced k pc
  have howesTotal := occupants_update s.thread ProducePc.owesTotal k pc
  rw [← hthread] at howesProduced howesTotal
  have := hok.accepted
  have := hok.produced
  exact ⟨by omega, by omega, hreported, hsucceeded, hreturned⟩

/-- A step of one thread that counts nothing and owes what it owed. -/
theorem CountersOk.quiet (hok : CountersOk s) {pc : ProducePc}
    (hthread : s'.thread = Function.update s.thread k pc)
    (howesProduced : pc.owesProduced = (s.thread k).owesProduced)
    (howesTotal : pc.owesTotal = (s.thread k).owesTotal)
    (hstats : s'.stats = s.stats)
    (htotal : s'.totalMessagesProduced = s.totalMessagesProduced)
    (haccepted : s'.accepted = s.accepted) (hreported : s'.reported = s.reported)
    (hreturned : s'.returned = s.returned) : CountersOk s' := by
  apply hok.moves hthread
  · rw [hstats, haccepted, List.countP_singleton, List.countP_singleton, howesProduced]
  · rw [hstats, htotal, List.countP_singleton, List.countP_singleton, howesTotal]
  · rw [hstats, hreported, hok.reported]
  · rw [hreturned, htotal, hok.succeeded]
  · rw [hstats, hreturned, htotal, hok.returned]

/-- A failed call counts itself in one of three counters and returns 1. -/
theorem CountersOk.fails (hok : CountersOk s) {call : Call} {code : ErrorCode}
    {stats : ProducerStats} {readFreed : Bool}
    (hpc : s.thread k = .answered call code) (hcode : code ≠ .noError)
    (hproduced : stats.produced = s.stats.produced)
    (hreported : stats.produceCb + stats.produceCbFail =
      s.stats.produceCb + s.stats.produceCbFail)
    (hfailed : stats.localQueueFull + stats.msgTooLarge + stats.produceFail =
      s.stats.localQueueFull + s.stats.msgTooLarge + s.stats.produceFail + 1) :
    CountersOk { s.setThread k (.failed call) with
      stats, readFreed, returned := s.returned ++ [1] } := by
  have howesProduced : (s.thread k).owesProduced = (ProducePc.failed call).owesProduced := by
    rw [hpc]
    cases code with
    | noError => exact absurd rfl hcode
    | queueFull | msgSizeTooLarge | other => rfl
  have howesTotal : (s.thread k).owesTotal = (ProducePc.failed call).owesTotal := by
    rw [hpc]
    rfl
  have hreturned := hok.returned
  refine hok.moves rfl ?_ ?_ (hok.reported.trans hreported.symm) ?_ ?_
  · simp [howesProduced, hproduced, State.setThread]
  · simp [howesTotal, hproduced, State.setThread]
  · simpa [State.setThread] using hok.succeeded
  · simp only [State.setThread, List.length_append, List.length_singleton]
    omega

theorem CountersOk.step {action : Action n m} (hok : CountersOk s)
    (hstep : s.step action = some s') : CountersOk s' := by
  have hreported := hok.reported
  have hsucceeded := hok.succeeded
  have hreturned := hok.returned
  cases step_move hstep with
  | produce hpc | readFields _ hpc | polled hpc _ | drop hpc =>
      exact hok.quiet rfl (by rw [hpc]; rfl) (by rw [hpc]; rfl) rfl rfl rfl rfl rfl
  | @refuse k call code hpc hcode =>
      cases code with
      | noError => exact absurd rfl hcode
      | queueFull | msgSizeTooLarge | other =>
          exact hok.quiet rfl (by rw [hpc]; rfl) (by rw [hpc]; rfl) rfl rfl rfl rfl rfl
  | accept hpc =>
      refine hok.moves rfl ?_ ?_ hreported hsucceeded hreturned
      · simp [hpc, ProducePc.owesProduced, State.setThread]
        omega
      · simp [hpc, ProducePc.owesTotal, State.setThread]
  | countProduced hpc =>
      refine hok.moves rfl ?_ ?_ hreported hsucceeded hreturned
      · simp [hpc, ProducePc.owesProduced, State.setThread]
        omega
      · simp [hpc, ProducePc.owesTotal, State.setThread]
        omega
  | countBytes hpc =>
      refine hok.moves rfl ?_ ?_ hreported hsucceeded hreturned
      · simp [hpc, ProducePc.owesProduced, State.setThread, State.read]
      · simp [hpc, ProducePc.owesTotal, State.setThread, State.read]
  | countTotal hpc =>
      refine hok.moves rfl ?_ ?_ hreported ?_ ?_
      · simp [hpc, ProducePc.owesProduced, State.setThread]
      · simp [hpc, ProducePc.owesTotal, State.setThread]
        omega
      · simp [hsucceeded]
      · simp only [State.setThread, List.length_append, List.length_singleton]
        omega
  | countQueueFull hpc => exact hok.fails hpc (by simp) rfl rfl (by simp only; omega)
  | countTooLarge hpc => exact hok.fails hpc (by simp) rfl rfl (by simp only; omega)
  | countFail hpc => exact hok.fails hpc (by simp) rfl rfl (by simp only; omega)
  | poll | delete _ => exact ⟨hok.accepted, hok.produced, hreported, hsucceeded, hreturned⟩
  | pollReturns _ => exact ⟨hok.accepted, hok.produced, hreported, hsucceeded, hreturned⟩
  | @report party message err _ _ _ =>
      cases err with
      | true =>
          refine ⟨hok.accepted, hok.produced, ?_, hsucceeded, hreturned⟩
          simp only [List.length_append, List.length_singleton, if_true]
          omega
      | false =>
          refine ⟨hok.accepted, hok.produced, ?_, hsucceeded, hreturned⟩
          simp only [List.length_append, List.length_singleton, Bool.false_eq_true,
            if_false]
          omega

theorem reachable_countersOk (hreach : (producerSystem n m).Reachable s) :
    CountersOk s := by
  refine hreach.invariant (fun s hinit => hinit ▸ .initial) ?_
  intro s action s' _ hok hstep
  exact hok.step hstep

/-- Every accepted message is reported or not, and none twice. -/
theorem OwnersOk.length_unreported (hok : OwnersOk s) :
    s.reported.length + s.unreported.length = s.accepted.length := by
  have hperm : (s.acceptedMessages.filter fun x => x ∈ s.reported).Perm s.reported := by
    refine (List.perm_ext_iff_of_nodup (hok.accepted_nodup.filter _)
      hok.reported_nodup).mpr fun x => ?_
    simp only [List.mem_filter, decide_eq_true_eq, and_iff_right_iff_imp]
    exact hok.reported_sub x
  have hsplit := s.acceptedMessages.length_eq_length_filter_add fun x => x ∈ s.reported
  have haccepted : s.acceptedMessages.length = s.accepted.length := List.length_map _
  have hrest : s.unreported =
      s.acceptedMessages.filter fun x => !decide (x ∈ s.reported) := by
    simp [State.unreported]
  rw [haccepted, hperm.length_eq, ← hrest] at hsplit
  exact hsplit.symm

theorem State.Settled.owes_nothing (hsettled : s.Settled) :
    occupants s.thread ProducePc.owesProduced = 0 ∧
      occupants s.thread ProducePc.owesTotal = 0 := by
  constructor
  · refine occupants_eq_zero fun k => ?_
    have hk := hsettled k
    cases hpc : s.thread k <;> simp_all [ProducePc.counting, ProducePc.owesProduced]
  · refine occupants_eq_zero fun k => ?_
    have hk := hsettled k
    cases hpc : s.thread k <;> simp_all [ProducePc.counting, ProducePc.owesTotal]

/-- In every settled state the counters balance: accepted messages are
reported or outstanding, and every finished call is in exactly one counter. -/
theorem producer_counters_balance (hreach : (producerSystem n m).Reachable s)
    (hsettled : s.Settled) :
    s.stats.produced =
        s.stats.produceCb + s.stats.produceCbFail + s.unreported.length ∧
      s.returned.length = s.stats.produced + s.stats.localQueueFull +
        s.stats.msgTooLarge + s.stats.produceFail ∧
      s.totalMessagesProduced = s.stats.produced ∧
      s.returned.count 0 = s.stats.produced := by
  have hok := reachable_countersOk hreach
  have hsplit := (reachable_ownersOk hreach).length_unreported
  obtain ⟨howesProduced, howesTotal⟩ := hsettled.owes_nothing
  have haccepted := hok.accepted
  have hproduced := hok.produced
  have hreported := hok.reported
  have hsucceeded := hok.succeeded
  have hreturned := hok.returned
  omega

/-- The report of the first message overtakes the statistics of its call; a
second message stays with librdkafka and a third is too large. -/
theorem reportOvertakes_counters_balance :
    ∃ s : State 2 1, (producerSystem 2 1).Reachable s ∧ s.Settled ∧
      s.stats.produced = 2 ∧ s.stats.produceCb + s.stats.produceCbFail = 1 ∧
      s.unreported.length = 1 ∧ s.returned.length = 3 ∧
      s.totalMessagesProduced = 2 ∧ s.returned.count 0 = 2 := by
  obtain ⟨s, hreach, hsettled, hproduced, hreported, htooLarge, hfull, hfail⟩ :=
    Transition.System.exists_reachable_of_run (T := producerSystem 2 1)
      (fun s => (∀ k, (s.thread k).counting = false) ∧ s.stats.produced = 2 ∧
        s.stats.produceCb + s.stats.produceCbFail = 1 ∧ s.stats.msgTooLarge = 1 ∧
        s.stats.localQueueFull = 0 ∧ s.stats.produceFail = 0)
      (Action.send 0 .noError ++ [.poll 0, .report (.inr 0) 0 true, .delete (.inr 0)] ++
        Action.send 1 .noError ++ [.count 0, .count 1, .count 0, .count 0, .count 1,
        .count 1] ++ Action.send 0 .msgSizeTooLarge ++ [.count 0, .drop 0])
      rfl (by decide +kernel)
  obtain ⟨hbalance, hreturned, htotal, hzero⟩ := producer_counters_balance hreach hsettled
  exact ⟨s, hreach, hsettled, hproduced, hreported, by omega, by omega, by omega, by omega⟩

end EpicsToKafka.KafkaW
