/-
Read-modify-write loops by compare-and-exchange.  Any number of calls share
one atomic value; each loads it, computes what it wants to store and tries to
exchange, until an exchange succeeds.  A weak exchange may also fail although
the value is the expected one.
-/
import EpicsToKafka.Transition
import Mathlib.Data.List.Perm.Basic

namespace CompareExchange

universe u v

/-- Where a call stands; `expect` is what it has loaded. -/
inductive Pc (α : Type u) where
  | loading
  | exchanging (expect : α)
  | returned
deriving Repr, DecidableEq

/-- A call with what it was asked to do. -/
structure Call (κ : Type v) (α : Type u) where
  request : κ
  pc : Pc α
deriving Repr, DecidableEq

/-- The shared value and all calls that were ever made.  `succeeded` is
history: the requests in the order in which their exchanges succeeded. -/
structure State (κ : Type v) (α : Type u) where
  value : α
  calls : List (Call κ α) := []
  succeeded : List κ := []
deriving Repr, DecidableEq

/-- A call is made, or the call at an index takes its next step. -/
inductive Action (κ : Type v) where
  | call (request : κ)
  | load (index : Nat)
  | exchange (index : Nat) (spurious : Bool)
deriving Repr, DecidableEq

variable {κ : Type v} {α : Type u}

/-- The request of a call, once the call has returned. -/
def Call.effect (call : Call κ α) : Option κ :=
  match call.pc with
  | .returned => some call.request
  | .loading | .exchanging _ => none

/-- The requests of the calls that have returned, in the order of the calls. -/
def State.effective (s : State κ α) : List κ :=
  s.calls.filterMap Call.effect

theorem exists_call_of_effective {s : State κ α} {request : κ}
    (hrequest : request ∈ s.effective) : ∃ call ∈ s.calls, call.request = request := by
  obtain ⟨call, hcall, heffect⟩ := List.mem_filterMap.mp hrequest
  refine ⟨call, hcall, ?_⟩
  unfold Call.effect at heffect
  split at heffect
  · exact Option.some.inj heffect
  · cases heffect
  · cases heffect

/-- One call of the list changes, and has not returned before. -/
theorem filterMap_set_perm {calls : List (Call κ α)} {index : Nat} {old new : Call κ α}
    (hold : calls[index]? = some old) (hrunning : old.effect = none) :
    ((calls.set index new).filterMap Call.effect).Perm
      (new.effect.toList ++ calls.filterMap Call.effect) := by
  obtain ⟨hlt, hget⟩ := List.getElem?_eq_some_iff.mp hold
  have hsplit : calls = calls.take index ++ old :: calls.drop (index + 1) := by
    rw [← hget, ← List.drop_eq_getElem_cons hlt, List.take_append_drop]
  have hset : calls.set index new =
      calls.take index ++ new :: calls.drop (index + 1) := by
    rw [List.set_eq_take_append_cons_drop, if_pos hlt]
  rw [hset]
  nth_rewrite 3 [hsplit]
  rw [List.filterMap_append, List.filterMap_append, List.filterMap_cons_none hrunning]
  cases hnew : new.effect with
  | none => rw [List.filterMap_cons_none hnew, Option.toList_none, List.nil_append]
  | some request =>
      rw [List.filterMap_cons_some hnew]
      exact List.perm_middle

section Steps

variable [DecidableEq α] (update : κ → α → α)

/-- `if (value.compare_exchange_weak(expect, update(expect))) break;` -/
def State.exchange (s : State κ α) (index : Nat) (request : κ) (expect : α)
    (spurious : Bool) : State κ α :=
  if s.value = expect ∧ spurious = false then
    { value := update request expect
      calls := s.calls.set index ⟨request, .returned⟩
      succeeded := s.succeeded ++ [request] }
  else
    { s with calls := s.calls.set index ⟨request, .loading⟩ }

def State.step (s : State κ α) : Action κ → Option (State κ α)
  | .call request => some { s with calls := s.calls ++ [⟨request, .loading⟩] }
  | .load index =>
      match s.calls[index]? with
      | some ⟨request, .loading⟩ =>
          some { s with calls := s.calls.set index ⟨request, .exchanging s.value⟩ }
      | _ => none
  | .exchange index spurious =>
      match s.calls[index]? with
      | some ⟨request, .exchanging expect⟩ =>
          some (s.exchange update index request expect spurious)
      | _ => none

/-- All calls together, from an initial value. -/
def system (initial : α) : Transition.System (State κ α) (Action κ) where
  init s := s = { value := initial }
  step := State.step update

variable {update} {s s' : State κ α} {action : Action κ}

/-- A step leaves value and history alone and keeps the requests of the calls
that have returned, or is the exchange of one call, which then returns. -/
theorem step_cases (hstep : s.step update action = some s') :
    (s'.value = s.value ∧ s'.succeeded = s.succeeded ∧ s'.effective.Perm s.effective) ∨
      ∃ request, s'.value = update request s.value ∧
        s'.succeeded = s.succeeded ++ [request] ∧
        s'.effective.Perm (request :: s.effective) := by
  cases action with
  | call request =>
      cases hstep
      refine Or.inl ⟨rfl, rfl, ?_⟩
      rw [State.effective, List.filterMap_append, List.filterMap_cons_none rfl]
      simp [State.effective]
  | load index =>
      simp only [State.step] at hstep
      split at hstep
      · rename_i request hcall
        cases hstep
        refine Or.inl ⟨rfl, rfl, filterMap_set_perm hcall rfl⟩
      · cases hstep
  | exchange index spurious =>
      simp only [State.step] at hstep
      split at hstep
      · rename_i request expect hcall
        cases hstep
        unfold State.exchange
        split
        · rename_i hsuccess
          exact Or.inr ⟨request, by rw [hsuccess.1], rfl, filterMap_set_perm hcall rfl⟩
        · exact Or.inl ⟨rfl, rfl, filterMap_set_perm hcall rfl⟩
      · cases hstep

variable (update)

/-- The value is explained by the calls that have returned, one after the
other. -/
structure Linearized (initial : α) (s : State κ α) : Prop where
  value : s.value = s.succeeded.foldl (fun value request => update request value) initial
  succeeded : s.succeeded.Perm s.effective

variable {update}

theorem Linearized.step {initial : α} (hlinear : Linearized update initial s)
    (hstep : s.step update action = some s') : Linearized update initial s' := by
  rcases step_cases hstep with
    ⟨hsame, hhistory, heffective⟩ | ⟨request, hnew, hhistory, heffective⟩
  · constructor
    · rw [hsame, hhistory, hlinear.value]
    · rw [hhistory]
      exact hlinear.succeeded.trans heffective.symm
  · constructor
    · rw [hnew, hhistory, hlinear.value, List.foldl_concat]
    · rw [hhistory]
      exact (List.perm_append_singleton _ _).trans
        ((hlinear.succeeded.cons request).trans heffective.symm)

/-- Every update is made on the value that the one before has left, whatever
happens between a load and an exchange. -/
theorem reachable_linearized {initial : α}
    (hreach : (system update initial).Reachable s) : Linearized update initial s := by
  apply hreach.invariant
  · rintro s rfl
    exact ⟨rfl, .refl _⟩
  · intro s action s' _ hlinear hstep
    exact hlinear.step hstep

end Steps

end CompareExchange
