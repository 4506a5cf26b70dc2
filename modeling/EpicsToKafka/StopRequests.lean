/-
The flag that ends the main loop.  A command, a signal handler or any other
thread raises bits of it by `raiseForwardingFlag`; a handler that interrupts
such a call is one more call, made between two steps of the first.
-/
import EpicsToKafka.CompareExchange
import Mathlib.Data.List.Induction

namespace EpicsToKafka

/-- `enum class ForwardingRunState : int`.  The flag also takes the bitwise OR
of enumerators. -/
abbrev ForwardingRunState := BitVec 32

namespace ForwardingRunState

def run : ForwardingRunState := 0#32

def stop : ForwardingRunState := 1

def stopDueToSignal : ForwardingRunState := 2

end ForwardingRunState

def isStopDueToSignal (flag : ForwardingRunState) : Bool :=
  flag &&& ForwardingRunState.stopDueToSignal ≠ 0#32

/-- `Desired`, as `raiseForwardingFlag(ToBeRaised)` computes it from `Expect`. -/
def raiseForwardingFlag (toBeRaised expect : ForwardingRunState) : ForwardingRunState :=
  expect ||| toBeRaised

/-- `ForwardingRunFlag` with the calls of `raiseForwardingFlag`. -/
abbrev RunFlag := CompareExchange.State ForwardingRunState ForwardingRunState

def runFlagSystem : Transition.System RunFlag (CompareExchange.Action ForwardingRunState) :=
  CompareExchange.system raiseForwardingFlag ForwardingRunState.run

/-- A call of `raiseForwardingFlag` is made by one of two methods. -/
def stopForwarding : CompareExchange.Action ForwardingRunState :=
  .call ForwardingRunState.stop

def stopForwardingDueToSignal : CompareExchange.Action ForwardingRunState :=
  .call ForwardingRunState.stopDueToSignal

/-- The bits of all values together. -/
def bitwiseOr (values : List ForwardingRunState) : ForwardingRunState :=
  values.foldl (fun bits value => bits ||| value) 0#32

theorem bitwiseOr_concat (values : List ForwardingRunState) (value : ForwardingRunState) :
    bitwiseOr (values ++ [value]) = bitwiseOr values ||| value :=
  List.foldl_concat _ _ _ _

theorem bitwiseOr_perm {values others : List ForwardingRunState}
    (hperm : values.Perm others) : bitwiseOr values = bitwiseOr others := by
  have hcomm : RightCommutative fun bits value : ForwardingRunState => bits ||| value :=
    ⟨fun bits value other => by rw [BitVec.or_assoc, BitVec.or_comm value, ← BitVec.or_assoc]⟩
  exact hperm.foldl_eq 0#32

/-- A bit is set if one of the values has it. -/
theorem bitwiseOr_and_ne_zero_iff (values : List ForwardingRunState)
    (mask : ForwardingRunState) :
    bitwiseOr values &&& mask ≠ 0#32 ↔ ∃ value ∈ values, value &&& mask ≠ 0#32 := by
  induction values using List.reverseRecOn with
  | nil => simp [bitwiseOr]
  | append_singleton values value ih =>
      rw [bitwiseOr_concat, BitVec.and_or_distrib_right, ne_eq, BitVec.or_eq_zero_iff,
        not_and_or, ← ne_eq, ih]
      simp only [List.mem_append, List.mem_singleton, or_and_right, exists_or, exists_eq_left]

variable {s s' : RunFlag}

/-- The flag is the OR of the values whose calls have returned. -/
theorem runFlag_eq_bitwiseOr (hreach : runFlagSystem.Reachable s) :
    s.value = bitwiseOr s.effective := by
  have hlinear := CompareExchange.reachable_linearized hreach
  rw [← bitwiseOr_perm hlinear.succeeded]
  exact hlinear.value

/-- No step takes a bit or a request back. -/
theorem runFlag_step {action : CompareExchange.Action ForwardingRunState}
    (hstep : runFlagSystem.step s action = some s') :
    s.value ||| s'.value = s'.value ∧ s.effective ⊆ s'.effective := by
  rcases CompareExchange.step_cases hstep with
    ⟨hsame, -, heffective⟩ | ⟨request, hnew, -, heffective⟩
  · exact ⟨by rw [hsame, BitVec.or_self], heffective.symm.subset⟩
  · constructor
    · rw [hnew, raiseForwardingFlag, ← BitVec.or_assoc, BitVec.or_self]
    · exact fun value hvalue => heffective.symm.subset (.tail _ hvalue)

theorem runFlag_run {schedule : List (CompareExchange.Action ForwardingRunState)}
    (hrun : runFlagSystem.run s schedule = some s') :
    s.value ||| s'.value = s'.value ∧ s.effective ⊆ s'.effective := by
  induction schedule generalizing s with
  | nil =>
      cases hrun
      exact ⟨BitVec.or_self, List.Subset.refl _⟩
  | cons action rest ih =>
      obtain ⟨middle, hstep, hrest⟩ := Option.bind_eq_some_iff.mp hrun
      obtain ⟨hbits, heffective⟩ := runFlag_step hstep
      obtain ⟨hbits', heffective'⟩ := ih hrest
      refine ⟨?_, List.Subset.trans heffective heffective'⟩
      rw [← hbits', ← BitVec.or_assoc, hbits]

/-- The bits of a request that has taken effect are set. -/
theorem runFlag_ne_run (hreach : runFlagSystem.Reachable s) {value : ForwardingRunState}
    (hvalue : value ∈ s.effective) (hstop : value ≠ ForwardingRunState.run) :
    s.value ≠ ForwardingRunState.run := by
  have hmask := (bitwiseOr_and_ne_zero_iff s.effective value).mpr
    ⟨value, hvalue, by rw [BitVec.and_self]; exact hstop⟩
  rw [← runFlag_eq_bitwiseOr hreach] at hmask
  rintro hrun
  rw [hrun] at hmask
  exact hmask BitVec.zero_and

/-- No stop request is lost: after every interleaving the flag is the OR of
the values of the calls whose exchange has succeeded.  In whatever follows it
keeps its bits and does not return to `RUN` after a stop, and it tells a signal
exactly if `stopForwardingDueToSignal` has taken effect. -/
theorem stop_requests_kept (s : RunFlag) (hreach : runFlagSystem.Reachable s) :
    s.value = bitwiseOr s.effective ∧
    (∀ schedule s', runFlagSystem.run s schedule = some s' →
      s.value ||| s'.value = s'.value ∧
      ((∃ value ∈ s.effective, value ≠ ForwardingRunState.run) →
        s'.value ≠ ForwardingRunState.run)) ∧
    ((∀ call ∈ s.calls,
        CompareExchange.Action.call call.request ∈ [stopForwarding, stopForwardingDueToSignal]) →
      (isStopDueToSignal s.value = true ↔
        ForwardingRunState.stopDueToSignal ∈ s.effective)) := by
  refine ⟨runFlag_eq_bitwiseOr hreach, ?_, ?_⟩
  · intro schedule s' hrun
    obtain ⟨hbits, heffective⟩ := runFlag_run hrun
    refine ⟨hbits, ?_⟩
    rintro ⟨value, hvalue, hstop⟩
    exact runFlag_ne_run (hreach.run hrun) (heffective hvalue) hstop
  · intro hcalls
    rw [isStopDueToSignal, decide_eq_true_iff, runFlag_eq_bitwiseOr hreach,
      bitwiseOr_and_ne_zero_iff]
    constructor
    · rintro ⟨value, hvalue, hbit⟩
      obtain ⟨call, hcall, rfl⟩ := CompareExchange.exists_call_of_effective hvalue
      have hmade := hcalls call hcall
      simp only [stopForwarding, stopForwardingDueToSignal, List.mem_cons,
        CompareExchange.Action.call.injEq, List.not_mem_nil, or_false] at hmade
      rcases hmade with hstop | hsignal
      · rw [hstop] at hbit
        exact absurd (by decide) hbit
      · exact hsignal ▸ hvalue
    · exact fun hsignal => ⟨_, hsignal, by decide⟩

/-- A signal arrives inside `stopForwarding`, whose exchange then fails; its
second one fails spuriously, and the third succeeds. -/
def signalInsideStop : List (CompareExchange.Action ForwardingRunState) :=
  [stopForwarding, .load 0, stopForwardingDueToSignal, .load 1, .exchange 1 false,
    .exchange 0 false, .load 0, .exchange 0 true, .load 0, .exchange 0 false]

theorem signalInsideStop_kept :
    ∃ s, runFlagSystem.Reachable s ∧
      s.effective = [ForwardingRunState.stop, ForwardingRunState.stopDueToSignal] ∧
      s.value = 3#32 ∧ isStopDueToSignal s.value = true := by
  obtain ⟨s, hreach, heffective, hcalls⟩ :=
    Transition.System.exists_reachable_of_run (T := runFlagSystem)
      (fun s : RunFlag =>
        s.effective = [ForwardingRunState.stop, ForwardingRunState.stopDueToSignal] ∧
        ∀ call ∈ s.calls,
          CompareExchange.Action.call call.request ∈ [stopForwarding, stopForwardingDueToSignal])
      signalInsideStop rfl (by decide +kernel)
  obtain ⟨hvalue, -, hsignal⟩ := stop_requests_kept s hreach
  refine ⟨s, hreach, heffective, ?_, (hsignal hcalls).mpr ?_⟩
  · rw [hvalue, heffective]
    rfl
  · rw [heffective]
    decide

end EpicsToKafka
