/-
Who frees a `ProducerMessage`, and when.  Ownership passes to librdkafka
through a raw pointer before the caller's `unique_ptr` is released; the report
of the message may come back, on another thread, in between.
-/
import EpicsToKafka.Producer

namespace EpicsToKafka.KafkaW

variable {n m : Nat} {s s' : State n m} {k : Fin n}

/-- The message a call's `unique_ptr` is responsible for. -/
def ProducePc.owned : ProducePc → Option Nat
  | .entered call | .polling call | .sending call | .failed call => some call.message
  | .answered _ .noError => none
  | .answered call _ => some call.message
  | _ => none

/-- The message of a call that was accepted and is still going to read it. -/
def ProducePc.stillReads : ProducePc → Option Nat
  | .answered call .noError => some call.message
  | .produced call => some call.message
  | _ => none

/-- The message of a call, until the call and its caller are done with it. -/
def ProducePc.message : ProducePc → Option Nat
  | .idle => none
  | .entered call | .polling call | .sending call | .answered call _
  | .produced call | .sized call | .failed call => some call.message

def State.acceptedMessages (s : State n m) : List Nat :=
  s.accepted.map Call.message

/-- librdkafka has the message and has not reported it, or a callback is about
to delete it. -/
def State.InFlight (s : State n m) (message : Nat) : Prop :=
  (message ∈ s.acceptedMessages ∧ message ∉ s.reported) ∨
    ∃ party, s.callback party = some message

@[simp] theorem State.setThread_thread_self (s : State n m) (k : Fin n)
    (pc : ProducePc) : (s.setThread k pc).thread k = pc := by simp [State.setThread]

theorem State.setThread_thread_of_ne (s : State n m) {k other : Fin n}
    (pc : ProducePc) (hne : other ≠ k) :
    (s.setThread k pc).thread other = s.thread other := by
  simp [State.setThread, hne]

structure OwnersOk (s : State n m) : Prop where
  fresh : ∀ x, s.nextMessage ≤ x → s.owner x = .freed ∧ x ∉ s.freed
  owned : ∀ k x, (s.thread k).owned = some x ↔ s.owner x = .caller k
  inFlight : ∀ x, s.owner x = .librdkafka ↔ s.InFlight x
  accepted_lt : ∀ x ∈ s.acceptedMessages, x < s.nextMessage
  accepted_nodup : s.acceptedMessages.Nodup
  accepted_given : ∀ x ∈ s.acceptedMessages, ∀ k, s.owner x ≠ .caller k
  reported_sub : ∀ x ∈ s.reported, x ∈ s.acceptedMessages
  reported_nodup : s.reported.Nodup
  callback_reported : ∀ party x, s.callback party = some x → x ∈ s.reported
  callback_unique : ∀ party other x, s.callback party = some x →
    s.callback other = some x → party = other
  freed_count : ∀ x, x < s.nextMessage →
    s.freed.count x = if s.owner x = .freed then 1 else 0

theorem OwnersOk.initial : OwnersOk (State.initial n m) := by
  constructor <;> simp [State.initial, State.acceptedMessages, State.InFlight,
    ProducePc.owned]

/-- What of a state decides who owns which message. -/
structure SameOwners (s s' : State n m) : Prop where
  owner : s'.owner = s.owner
  nextMessage : s'.nextMessage = s.nextMessage
  owned : ∀ k, (s'.thread k).owned = (s.thread k).owned
  callback : s'.callback = s.callback
  accepted : s'.accepted = s.accepted
  reported : s'.reported = s.reported
  freed : s'.freed = s.freed

/-- A step of one thread keeps its message where it was. -/
theorem owned_of_update {pc : ProducePc}
    (hthread : s'.thread = Function.update s.thread k pc)
    (hpc : pc.owned = (s.thread k).owned) (other : Fin n) :
    (s'.thread other).owned = (s.thread other).owned := by
  rw [hthread]
  by_cases hother : other = k
  · rw [hother, Function.update_self, hpc]
  · rw [Function.update_of_ne hother]

theorem OwnersOk.same (hok : OwnersOk s) (hsame : SameOwners s s') : OwnersOk s' := by
  have haccepted : s'.acceptedMessages = s.acceptedMessages := by
    simp [State.acceptedMessages, hsame.accepted]
  constructor
  case fresh => simpa [hsame.owner, hsame.nextMessage, hsame.freed] using hok.fresh
  case owned => simpa [hsame.owner, hsame.owned] using hok.owned
  case inFlight =>
    simpa [hsame.owner, State.InFlight, haccepted, hsame.reported,
      hsame.callback] using hok.inFlight
  case accepted_lt => simpa [haccepted, hsame.nextMessage] using hok.accepted_lt
  case accepted_nodup => simpa [haccepted] using hok.accepted_nodup
  case accepted_given => simpa [haccepted, hsame.owner] using hok.accepted_given
  case reported_sub => simpa [haccepted, hsame.reported] using hok.reported_sub
  case reported_nodup => simpa [hsame.reported] using hok.reported_nodup
  case callback_reported => simpa [hsame.callback, hsame.reported] using hok.callback_reported
  case callback_unique => simpa [hsame.callback] using hok.callback_unique
  case freed_count => simpa [hsame.nextMessage, hsame.freed, hsame.owner] using hok.freed_count

theorem OwnersOk.inFlight_lt (hok : OwnersOk s) {x : Nat} (hx : s.InFlight x) :
    x < s.nextMessage := by
  rcases hx with ⟨haccepted, -⟩ | ⟨party, hcallback⟩
  · exact hok.accepted_lt x haccepted
  · exact hok.accepted_lt x (hok.reported_sub x (hok.callback_reported party x hcallback))

theorem OwnersOk.owned_lt (hok : OwnersOk s) {x : Nat}
    (hx : (s.thread k).owned = some x) : x < s.nextMessage := by
  by_contra hge
  have hfreed := (hok.fresh x (Nat.le_of_not_lt hge)).1
  rw [(hok.owned k x).mp hx] at hfreed
  cases hfreed

/-- Ownership of one message changes together with the thread that holds it. -/
theorem owned_update {x : Nat} {owner : Owner n} {pc : ProducePc} (hok : OwnersOk s)
    (hrest : ∀ y, y ≠ x → (pc.owned = some y ↔ (s.thread k).owned = some y))
    (hself : pc.owned = some x ↔ owner = .caller k)
    (hother : ∀ j, j ≠ k → ((s.thread j).owned = some x ↔ owner = .caller j))
    (j : Fin n) (y : Nat) :
    ((s.setThread k pc).thread j).owned = some y ↔
      Function.update s.owner x owner y = .caller j := by
  by_cases hy : y = x
  · rw [hy, Function.update_self]
    by_cases hj : j = k
    · rw [hj, State.setThread_thread_self, hself]
    · rw [State.setThread_thread_of_ne s pc hj, hother j hj]
  · rw [Function.update_of_ne hy, ← hok.owned j y]
    by_cases hj : j = k
    · rw [hj, State.setThread_thread_self, hrest y hy]
    · rw [State.setThread_thread_of_ne s pc hj]

/-- A thread gives its message away. -/
theorem owned_given {x : Nat} {owner : Owner n} {pc : ProducePc} (hok : OwnersOk s)
    (howned : (s.thread k).owned = some x) (hpc : pc.owned = none)
    (howner : ∀ j, owner ≠ .caller j) (j : Fin n) (y : Nat) :
    ((s.setThread k pc).thread j).owned = some y ↔
      Function.update s.owner x owner y = .caller j := by
  have hheld : s.owner x = .caller k := (hok.owned k x).mp howned
  refine owned_update hok (fun y hy => ?_) ?_ (fun j hj => ?_) j y
  · simp [hpc, howned, Ne.symm hy]
  · simp [hpc, howner]
  · simp [hok.owned, hheld, howner, Ne.symm hj]

theorem OwnersOk.produce (hok : OwnersOk s) {topic : String}
    {message : ProducerMessage} (hpc : s.thread k = .idle) :
    OwnersOk { s.setThread k (.entered ⟨topic, s.nextMessage, none⟩) with
      heap := Function.update s.heap s.nextMessage message
      owner := Function.update s.owner s.nextMessage (.caller k)
      nextMessage := s.nextMessage + 1 } := by
  have hnew := hok.fresh s.nextMessage (Nat.le_refl _)
  have hkept : ∀ x, x < s.nextMessage →
      Function.update s.owner s.nextMessage (.caller k) x = s.owner x :=
    fun x hx => Function.update_of_ne (Nat.ne_of_lt hx) _ _
  constructor
  case fresh =>
    intro x hx
    have hx : s.nextMessage < x := hx
    have hne : x ≠ s.nextMessage := Nat.ne_of_gt hx
    refine ⟨?_, (hok.fresh x (Nat.le_of_lt hx)).2⟩
    exact (Function.update_of_ne hne _ _).trans (hok.fresh x (Nat.le_of_lt hx)).1
  case owned =>
    refine owned_update hok (fun y hy => ?_) ?_ fun j hj => ?_
    · simp [ProducePc.owned, hpc, Ne.symm hy]
    · simp [ProducePc.owned]
    · simp [hok.owned, hnew.1, Ne.symm hj]
  case inFlight =>
    intro x
    by_cases hx : x = s.nextMessage
    · have hnot : ¬ s.InFlight x := fun hin =>
        absurd (hok.inFlight_lt hin) (by omega)
      refine iff_of_false ?_ hnot
      simp [hx]
    · change Function.update s.owner s.nextMessage (.caller k) x = .librdkafka ↔ _
      rw [Function.update_of_ne hx]
      exact hok.inFlight x
  case accepted_lt => exact fun x hx => Nat.lt_succ_of_lt (hok.accepted_lt x hx)
  case accepted_nodup => exact hok.accepted_nodup
  case accepted_given =>
    intro x hx j howner
    exact hok.accepted_given x hx j
      ((hkept x (hok.accepted_lt x hx)).symm.trans howner)
  case reported_sub => exact hok.reported_sub
  case reported_nodup => exact hok.reported_nodup
  case callback_reported => exact hok.callback_reported
  case callback_unique => exact hok.callback_unique
  case freed_count =>
    intro x hx
    by_cases hlast : x = s.nextMessage
    · have hcount : s.freed.count x = 0 := List.count_eq_zero.mpr (hlast ▸ hnew.2)
      simpa [hlast] using hlast ▸ hcount
    · have hlt : x < s.nextMessage := by
        have : x < s.nextMessage + 1 := hx
        omega
      change s.freed.count x = if Function.update s.owner _ _ x = .freed then 1 else 0
      rw [hkept x hlt]
      exact hok.freed_count x hlt

theorem OwnersOk.accept (hok : OwnersOk s) {call : Call}
    (hpc : s.thread k = .sending call) :
    OwnersOk { s.setThread k (.answered call .noError) with
      owner := Function.update s.owner call.message .librdkafka
      accepted := s.accepted ++ [call] } := by
  have howned : (s.thread k).owned = some call.message := by rw [hpc]; rfl
  have howner : s.owner call.message = .caller k := (hok.owned k _).mp howned
  have hlt := hok.owned_lt howned
  have hnew : call.message ∉ s.acceptedMessages :=
    fun hmem => hok.accepted_given _ hmem k howner
  have hunreported : call.message ∉ s.reported :=
    fun hmem => hnew (hok.reported_sub _ hmem)
  have haccepted : (s.accepted ++ [call]).map Call.message =
      s.acceptedMessages ++ [call.message] := by
    simp [State.acceptedMessages]
  constructor
  case fresh =>
    intro x hx
    have hx : s.nextMessage ≤ x := hx
    have hne : x ≠ call.message := by omega
    exact ⟨(Function.update_of_ne hne _ _).trans (hok.fresh x hx).1, (hok.fresh x hx).2⟩
  case owned => exact owned_given hok howned rfl (by simp)
  case inFlight =>
    intro x
    change Function.update s.owner call.message .librdkafka x = .librdkafka ↔
      (x ∈ (s.accepted ++ [call]).map Call.message ∧ x ∉ s.reported) ∨
        ∃ party, s.callback party = some x
    rw [haccepted, List.mem_append, List.mem_singleton]
    by_cases hx : x = call.message
    · simp [hx, hunreported]
    · rw [Function.update_of_ne hx, hok.inFlight x, State.InFlight]
      simp only [hx, or_false]
  case accepted_lt =>
    intro x hx
    rw [State.acceptedMessages, haccepted, List.mem_append, List.mem_singleton] at hx
    rcases hx with hx | rfl
    · exact hok.accepted_lt x hx
    · exact hlt
  case accepted_nodup =>
    rw [State.acceptedMessages, haccepted]
    exact List.nodup_append'.mpr
      ⟨hok.accepted_nodup, List.nodup_singleton _, by simpa using hnew⟩
  case accepted_given =>
    intro x hx j
    rw [State.acceptedMessages, haccepted, List.mem_append, List.mem_singleton] at hx
    change Function.update s.owner call.message .librdkafka x ≠ .caller j
    by_cases hself : x = call.message
    · simp [hself]
    · rw [Function.update_of_ne hself]
      exact hok.accepted_given x (hx.resolve_right hself) j
  case reported_sub =>
    intro x hx
    rw [State.acceptedMessages, haccepted]
    exact List.mem_append_left _ (hok.reported_sub x hx)
  case reported_nodup => exact hok.reported_nodup
  case callback_reported => exact hok.callback_reported
  case callback_unique => exact hok.callback_unique
  case freed_count =>
    intro x hx
    change s.freed.count x = if Function.update s.owner _ _ x = .freed then 1 else 0
    by_cases hself : x = call.message
    · simpa [hself, howner] using hok.freed_count call.message hlt
    · rw [Function.update_of_ne hself]
      exact hok.freed_count x hx

/-- Freeing a message that has an owner. -/
theorem freed_count_free (hok : OwnersOk s) {message : Nat}
    (howner : s.owner message ≠ .freed) (x : Nat) (hx : x < s.nextMessage) :
    (s.free message).freed.count x =
      if (s.free message).owner x = .freed then 1 else 0 := by
  have hcount := hok.freed_count x hx
  by_cases hself : x = message
  · rw [hself, if_neg howner] at hcount
    simp [State.free, hself, hcount]
  · simp [State.free, hself, Ne.symm hself, hcount]

theorem fresh_free (hok : OwnersOk s) {message : Nat} (hlt : message < s.nextMessage)
    (x : Nat) (hx : s.nextMessage ≤ x) :
    (s.free message).owner x = .freed ∧ x ∉ (s.free message).freed := by
  have hne : x ≠ message := by omega
  obtain ⟨howner, hfreed⟩ := hok.fresh x hx
  simp [State.free, hne, howner, hfreed]

theorem OwnersOk.drop (hok : OwnersOk s) {call : Call}
    (hpc : s.thread k = .failed call) :
    OwnersOk ((s.free call.message).setThread k .idle) := by
  have howned : (s.thread k).owned = some call.message := by rw [hpc]; rfl
  have howner : s.owner call.message = .caller k := (hok.owned k _).mp howned
  have hkept : ∀ x, x ≠ call.message → (s.free call.message).owner x = s.owner x :=
    fun x hx => Function.update_of_ne hx _ _
  have hlt := hok.owned_lt howned
  constructor
  case fresh => exact fresh_free hok hlt
  case owned => exact owned_given hok howned rfl (by simp)
  case inFlight =>
    intro x
    change (s.free call.message).owner x = .librdkafka ↔ s.InFlight x
    rw [← hok.inFlight x]
    by_cases hx : x = call.message
    · simp [hx, State.free, howner]
    · rw [hkept x hx]
  case accepted_lt => exact hok.accepted_lt
  case accepted_nodup => exact hok.accepted_nodup
  case accepted_given =>
    intro x hx j
    have hne : x ≠ call.message := fun heq => hok.accepted_given x hx k (heq ▸ howner)
    exact (hkept x hne).symm ▸ hok.accepted_given x hx j
  case reported_sub => exact hok.reported_sub
  case reported_nodup => exact hok.reported_nodup
  case callback_reported => exact hok.callback_reported
  case callback_unique => exact hok.callback_unique
  case freed_count => exact freed_count_free hok (by simp [howner])

theorem OwnersOk.report (hok : OwnersOk s) {party : Fin n ⊕ Fin m} {message : Nat}
    {stats : ProducerStats} (hcallback : s.callback party = none)
    (haccepted : message ∈ s.acceptedMessages) (hreported : message ∉ s.reported) :
    OwnersOk { s with
      callback := Function.update s.callback party (some message)
      reported := s.reported ++ [message]
      stats := stats } := by
  have hother : ∀ other x, Function.update s.callback party (some message) other =
      some x → other = party ∧ x = message ∨ s.callback other = some x := by
    intro other x hx
    by_cases heq : other = party
    · rw [heq, Function.update_self] at hx
      exact Or.inl ⟨heq, (Option.some.inj hx).symm⟩
    · rw [Function.update_of_ne heq] at hx
      exact Or.inr hx
  constructor
  case fresh => exact hok.fresh
  case owned => exact hok.owned
  case inFlight =>
    intro x
    refine (hok.inFlight x).trans ⟨fun hx => ?_, fun hx => ?_⟩
    · rcases hx with ⟨hx, hnot⟩ | ⟨other, hx⟩
      · by_cases heq : x = message
        · exact Or.inr ⟨party, by simp [heq]⟩
        · exact Or.inl ⟨hx, by simp [hnot, heq]⟩
      · have hne : other ≠ party := by
          rintro rfl
          rw [hcallback] at hx
          cases hx
        exact Or.inr ⟨other, (Function.update_of_ne hne _ _).trans hx⟩
    · rcases hx with ⟨hx, hnot⟩ | ⟨other, hx⟩
      · simp only [List.mem_append, not_or] at hnot
        exact Or.inl ⟨hx, hnot.1⟩
      · rcases hother other x hx with ⟨-, rfl⟩ | hx
        · exact Or.inl ⟨haccepted, hreported⟩
        · exact Or.inr ⟨other, hx⟩
  case accepted_lt => exact hok.accepted_lt
  case accepted_nodup => exact hok.accepted_nodup
  case accepted_given => exact hok.accepted_given
  case reported_sub =>
    intro x hx
    rcases List.mem_append.mp hx with hx | hx
    · exact hok.reported_sub x hx
    · exact List.mem_singleton.mp hx ▸ haccepted
  case reported_nodup =>
    exact List.nodup_append'.mpr
      ⟨hok.reported_nodup, List.nodup_singleton _, by simpa using hreported⟩
  case callback_reported =>
    intro other x hx
    rcases hother other x hx with ⟨-, rfl⟩ | hx
    · exact List.mem_append_right _ (List.mem_singleton_self _)
    · exact List.mem_append_left _ (hok.callback_reported other x hx)
  case callback_unique =>
    intro one two x hone htwo
    -- a message that is reported now was in no callback before
    rcases hother one x hone with ⟨hfirst, rfl⟩ | hbefore
    · rcases hother two x htwo with ⟨hsecond, -⟩ | hbefore
      · exact hfirst.trans hsecond.symm
      · exact absurd (hok.callback_reported two x hbefore) hreported
    · rcases hother two x htwo with ⟨-, rfl⟩ | hbefore'
      · exact absurd (hok.callback_reported one x hbefore) hreported
      · exact hok.callback_unique one two x hbefore hbefore'
  case freed_count => exact hok.freed_count

theorem OwnersOk.delete (hok : OwnersOk s) {party : Fin n ⊕ Fin m} {message : Nat}
    (hcallback : s.callback party = some message) :
    OwnersOk { s.free message with
      callback := Function.update s.callback party none } := by
  have hinFlight : s.InFlight message := Or.inr ⟨party, hcallback⟩
  have howner : s.owner message = .librdkafka := (hok.inFlight message).mpr hinFlight
  have hreported := hok.callback_reported party message hcallback
  have hkept : ∀ x, x ≠ message → (s.free message).owner x = s.owner x :=
    fun x hx => Function.update_of_ne hx _ _
  have hother : ∀ other x, Function.update s.callback party none other = some x ↔
      x ≠ message ∧ s.callback other = some x := by
    intro other x
    by_cases heq : other = party
    · simp only [heq, Function.update_self, hcallback]
      simp [eq_comm]
    · rw [Function.update_of_ne heq]
      refine ⟨fun hx => ⟨?_, hx⟩, And.right⟩
      rintro rfl
      exact heq (hok.callback_unique other party x hx hcallback)
  constructor
  case fresh => exact fresh_free hok (hok.inFlight_lt hinFlight)
  case owned =>
    intro k x
    change (s.thread k).owned = some x ↔ (s.free message).owner x = .caller k
    rw [hok.owned k x]
    by_cases hx : x = message
    · simp [hx, State.free, howner]
    · rw [hkept x hx]
  case inFlight =>
    intro x
    change (s.free message).owner x = .librdkafka ↔
      (x ∈ s.acceptedMessages ∧ x ∉ s.reported) ∨
        ∃ other, Function.update s.callback party none other = some x
    simp only [hother]
    by_cases hx : x = message
    · simp [hx, State.free, hreported]
    · rw [hkept x hx, hok.inFlight x, State.InFlight]
      simp only [ne_eq, hx, not_false_eq_true, true_and]
  case accepted_lt => exact hok.accepted_lt
  case accepted_nodup => exact hok.accepted_nodup
  case accepted_given =>
    intro x hx j
    change (s.free message).owner x ≠ .caller j
    by_cases heq : x = message
    · simp [heq, State.free]
    · rw [hkept x heq]
      exact hok.accepted_given x hx j
  case reported_sub => exact hok.reported_sub
  case reported_nodup => exact hok.reported_nodup
  case callback_reported =>
    intro other x hx
    exact hok.callback_reported other x ((hother other x).mp hx).2
  case callback_unique =>
    intro one two x hone htwo
    exact hok.callback_unique one two x ((hother one x).mp hone).2
      ((hother two x).mp htwo).2
  case freed_count => exact freed_count_free hok (by simp [howner])

theorem OwnersOk.step {action : Action n m} (hok : OwnersOk s)
    (hstep : s.step action = some s') : OwnersOk s' := by
  cases step_move hstep with
  | produce hpc => exact hok.produce hpc
  | accept hpc => exact hok.accept hpc
  | drop hpc => exact hok.drop hpc
  | report hcallback haccepted hreported =>
      exact hok.report hcallback haccepted hreported
  | delete hcallback => exact hok.delete hcallback
  | @refuse k call code hpc hcode =>
      refine hok.same ⟨rfl, rfl, owned_of_update rfl ?_, rfl, rfl, rfl, rfl⟩
      cases code with
      | noError => exact absurd rfl hcode
      | queueFull | msgSizeTooLarge | other => rw [hpc]; rfl
  | polled hpc _ | readFields _ hpc | countProduced hpc | countBytes hpc | countTotal hpc
  | countQueueFull hpc | countTooLarge hpc | countFail hpc =>
      exact hok.same ⟨rfl, rfl, owned_of_update rfl (by rw [hpc]; rfl), rfl, rfl, rfl, rfl⟩
  | poll | pollReturns _ => exact hok.same ⟨rfl, rfl, fun _ => rfl, rfl, rfl, rfl, rfl⟩

theorem reachable_ownersOk (hreach : (producerSystem n m).Reachable s) :
    OwnersOk s := by
  refine hreach.invariant (fun s hinit => hinit ▸ .initial) ?_
  intro s action s' _ hok hstep
  exact hok.step hstep

/-- The guard: a callback deletes its message only when the call that handed
it over has read everything it wants from it. -/
def ReportWaits (s : State n m) (action : Action n m) : Prop :=
  ∀ party : Fin n ⊕ Fin m, action = .delete party → ∀ k : Fin n,
    (s.thread k).stillReads = none ∨ (s.thread k).stillReads ≠ s.callback party

instance (s : State n m) (action : Action n m) : Decidable (ReportWaits s action) :=
  inferInstanceAs (Decidable (∀ party : Fin n ⊕ Fin m, action = .delete party →
    ∀ k : Fin n, (s.thread k).stillReads = none ∨
      (s.thread k).stillReads ≠ s.callback party))

/-- No freed message was read, and none is left to be. -/
structure ReadsOk (s : State n m) : Prop where
  readFreed : s.readFreed = false
  stillReads : ∀ k x, (s.thread k).stillReads = some x → s.owner x = .librdkafka

theorem read_of_owner {message : Nat} (hok : ReadsOk s)
    (howner : s.owner message ≠ .freed) : (s.read message).readFreed = false := by
  simp [State.read, hok.readFreed, howner]

/-- One thread moves on; nothing else decides what is still read. -/
theorem stillReads_of_update {pc : ProducePc}
    (hthread : s'.thread = Function.update s.thread k pc) {j : Fin n} {x : Nat}
    (hx : (s'.thread j).stillReads = some x) :
    pc.stillReads = some x ∨ (s.thread j).stillReads = some x := by
  rw [hthread] at hx
  by_cases hj : j = k
  · rw [hj, Function.update_self] at hx
    exact Or.inl hx
  · rw [Function.update_of_ne hj] at hx
    exact Or.inr hx

/-- A step of one thread that is not going to read more than before. -/
theorem ReadsOk.moves (hok : ReadsOk s) {pc : ProducePc}
    (hread : s'.readFreed = false)
    (howner : ∀ x, s.owner x = .librdkafka → s'.owner x = .librdkafka)
    (hthread : s'.thread = Function.update s.thread k pc)
    (hpc : ∀ x, pc.stillReads = some x → s'.owner x = .librdkafka) : ReadsOk s' where
  readFreed := hread
  stillReads j x hx := by
    rcases stillReads_of_update hthread hx with hx | hx
    · exact hpc x hx
    · exact howner x (hok.stillReads j x hx)

theorem ReadsOk.step {action : Action n m} (hok : ReadsOk s) (howners : OwnersOk s)
    (hwaits : ReportWaits s action) (hstep : s.step action = some s') : ReadsOk s' := by
  have hcaller : ∀ k message, (s.thread k).owned = some message →
      s.owner message = .caller k := fun k message => (howners.owned k message).mp
  cases step_move hstep with
  | @produce k topic message hpc =>
      refine hok.moves hok.readFreed (fun x hx => ?_) rfl fun x hx => nomatch hx
      refine (Function.update_of_ne ?_ _ _).trans hx
      rintro rfl
      rw [(howners.fresh _ (Nat.le_refl _)).1] at hx
      cases hx
  | @readFields k call key hpc =>
      have howner := hcaller k call.message (by rw [hpc]; rfl)
      exact hok.moves (read_of_owner hok (by simp [howner])) (fun _ => id) rfl
        fun x hx => nomatch hx
  | polled hpc _ => exact hok.moves hok.readFreed (fun _ => id) rfl fun x hx => nomatch hx
  | @accept k call hpc =>
      refine hok.moves hok.readFreed (fun x hx => ?_) rfl fun x hx => ?_
      · change Function.update s.owner call.message .librdkafka x = _
        rw [Function.update_apply, hx, ite_self]
      · cases hx
        exact Function.update_self _ _ _
  | @refuse k call code hpc hcode =>
      refine hok.moves hok.readFreed (fun _ => id) rfl fun x hx => ?_
      cases code with
      | noError => exact absurd rfl hcode
      | queueFull | msgSizeTooLarge | other => cases hx
  | @countProduced k call hpc =>
      refine hok.moves hok.readFreed (fun _ => id) rfl fun x hx => ?_
      exact hok.stillReads k x (hpc ▸ hx)
  | @countBytes k call hpc =>
      have howner := hok.stillReads k call.message (by rw [hpc]; rfl)
      exact hok.moves (read_of_owner hok (by simp [howner])) (fun _ => id) rfl
        fun x hx => nomatch hx
  | countTotal hpc | countQueueFull hpc | countFail hpc =>
      exact hok.moves hok.readFreed (fun _ => id) rfl fun x hx => nomatch hx
  | @countTooLarge k call hpc =>
      have howner := hcaller k call.message (by rw [hpc]; rfl)
      exact hok.moves (read_of_owner hok (by simp [howner])) (fun _ => id) rfl
        fun x hx => nomatch hx
  | @drop k call hpc =>
      have howner := hcaller k call.message (by rw [hpc]; rfl)
      refine hok.moves hok.readFreed (fun x hx => ?_) rfl fun x hx => nomatch hx
      refine (Function.update_of_ne ?_ _ _).trans hx
      rintro rfl
      rw [howner] at hx
      cases hx
  | poll | pollReturns _ | report _ _ _ => exact ⟨hok.readFreed, hok.stillReads⟩
  | @delete party message hcallback =>
      refine ⟨hok.readFreed, fun k x hx => ?_⟩
      have hreads : (s.thread k).stillReads = some x := hx
      refine (Function.update_of_ne ?_ _ _).trans (hok.stillReads k x hx)
      rintro rfl
      rcases hwaits party rfl k with hnone | hne
      · rw [hreads] at hnone
        cases hnone
      · exact hne (hreads.trans hcallback.symm)

theorem reachesVia_readsOk (hreach : (producerSystem n m).ReachesVia ReportWaits s) :
    ReadsOk s := by
  refine hreach.invariant ?_ ?_
  · rintro s rfl
    exact ⟨rfl, fun k x hx => nomatch hx⟩
  · intro s action s' hbefore hok hwaits hstep
    exact hok.step (reachable_ownersOk hbefore) hwaits hstep

theorem ProducePc.message_of_owned {pc : ProducePc} {x : Nat}
    (howned : pc.owned = some x) : pc.message = some x := by
  cases pc with
  | answered call code =>
      cases code with
      | noError => cases howned
      | queueFull | msgSizeTooLarge | other => exact howned
  | idle | produced | sized => cases howned
  | entered | polling | sending | failed => exact howned

/-- A message that no call, no report and no callback is going to touch again
has been freed. -/
theorem OwnersOk.owner_freed (hok : OwnersOk s) {x : Nat}
    (hcalls : ∀ k, (s.thread k).message ≠ some x) (hinFlight : ¬ s.InFlight x) :
    s.owner x = .freed := by
  cases howner : s.owner x with
  | caller k =>
      have howned := (hok.owned k x).mpr howner
      exact absurd (ProducePc.message_of_owned howned) (hcalls k)
  | librdkafka => exact absurd ((hok.inFlight x).mp howner) hinFlight
  | freed => rfl

/-- Every message is freed at most once, once everybody is done with it exactly
once, and `produce` never reads a freed one, in every run in which no report
overtakes the call that handed its message over. -/
theorem freed_once_of_reportWaits
    (hreach : (producerSystem n m).ReachesVia ReportWaits s) :
    s.readFreed = false ∧ ∀ x, x < s.nextMessage →
      s.freed.count x ≤ 1 ∧
        ((∀ k, (s.thread k).message ≠ some x) → ¬ s.InFlight x →
          s.freed.count x = 1) := by
  have howners := reachable_ownersOk hreach.reachable
  refine ⟨(reachesVia_readsOk hreach).readFreed, fun x hx => ?_⟩
  have hcount := howners.freed_count x hx
  constructor
  · rw [hcount]
    split <;> decide
  · intro hcalls hinFlight
    rw [hcount, if_pos (howners.owner_freed hcalls hinFlight)]

/-- A thread's call up to the answer of librdkafka. -/
def Action.send (k : Fin n) (code : ErrorCode) : List (Action n m) :=
  [.produce k "topic" ⟨8, "pv"⟩, .readFields k, .polled k, .answer k code]

/-- One message is accepted and reported after its call has returned, a second
one does not fit into the queue. -/
theorem reportAfterReturn_freed_once :
    ∃ s : State 1 1, (producerSystem 1 1).ReachesVia ReportWaits s ∧
      s.nextMessage = 2 ∧ s.readFreed = false ∧
      ∀ x, x < 2 → s.freed.count x = 1 := by
  obtain ⟨s, hreach, hnext, hidle, hcallback, hreported⟩ :=
    Transition.System.exists_reachesVia_of_run (T := producerSystem 1 1) ReportWaits
      (fun s => s.nextMessage = 2 ∧ (∀ k, s.thread k = .idle) ∧
        (∀ party, s.callback party = none) ∧
        ∀ x ∈ s.acceptedMessages, x ∈ s.reported)
      (Action.send 0 .noError ++ [.count 0, .count 0, .count 0, .poll 0,
        .report (.inr 0) 0 false, .delete (.inr 0), .pollReturns 0 1 0] ++
        Action.send 0 .queueFull ++ [.count 0, .drop 0])
      rfl (by decide +kernel)
  obtain ⟨hread, hfreed⟩ := freed_once_of_reportWaits hreach
  refine ⟨s, hreach, hnext, hread, fun x hx => (hfreed x (hnext ▸ hx)).2 ?_ ?_⟩
  · intro k
    simp [hidle k, ProducePc.message]
  · rintro (⟨haccepted, hnot⟩ | ⟨party, hsome⟩)
    · exact hnot (hreported x haccepted)
    · simp [hcallback party] at hsome

/-- The report of a message is handled on the main thread between its
acceptance and the statistics of its call. -/
theorem reportOvertakes_readFreed :
    ¬ ∀ s : State 1 1, (producerSystem 1 1).Reachable s → s.readFreed = false := by
  intro hall
  obtain ⟨s, hreach, hread⟩ :=
    Transition.System.exists_reachable_of_run (T := producerSystem 1 1)
      (fun s => s.readFreed = true)
      (Action.send 0 .noError ++ [.poll 0, .report (.inr 0) 0 false, .delete (.inr 0),
        .count 0, .count 0])
      rfl (by decide +kernel)
  rw [hall s hreach] at hread
  cases hread

/-- The guard is sharp: a message deleted too early is read by the remaining
steps of its call. -/
theorem delete_before_read {party : Fin n ⊕ Fin m} {x : Nat}
    (hcallback : s.callback party = some x)
    (hreads : (s.thread k).stillReads = some x) :
    ∃ schedule later,
      (producerSystem n m).run s (.delete party :: schedule) = some later ∧
        later.readFreed = true := by
  cases hpc : s.thread k with
  | answered call code =>
      cases code with
      | noError =>
          rw [hpc] at hreads
          cases hreads
          refine ⟨[.count k, .count k], ?_⟩
          simp [Transition.System.run, producerSystem, State.step, State.delete,
            hcallback, State.count, State.free, hpc, State.setThread, State.read]
      | queueFull | msgSizeTooLarge | other =>
          rw [hpc] at hreads
          cases hreads
  | produced call =>
      rw [hpc] at hreads
      cases hreads
      refine ⟨[.count k], ?_⟩
      simp [Transition.System.run, producerSystem, State.step, State.delete,
        hcallback, State.count, State.free, hpc, State.setThread, State.read]
  | idle | entered | polling | sending | sized | failed =>
      rw [hpc] at hreads
      cases hreads

end EpicsToKafka.KafkaW
