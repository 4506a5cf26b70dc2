/-
Traversals of a list with a state and exceptions, `List.mapM` in `EStateM`.
Where every element either succeeds from every state or fails from every
state, the traversal is described by pure functions of the state.
-/
import Mathlib.Data.List.Forall2

namespace Traversal

variable {ε σ α β γ δ : Type}

/-- The results along a list, when `value` is the result for an element and
`next` the state after it. -/
def values (value : σ → α → β) (next : σ → α → σ) : σ → List α → List β
  | _, [] => []
  | state, x :: xs => value state x :: values value next (next state x) xs

/-- The action throws from every state. -/
def Fails (action : EStateM ε σ β) : Prop :=
  ∀ state, ∃ e last, action.run state = .error e last

theorem fails_bind_left {action : EStateM ε σ α} {rest : α → EStateM ε σ β}
    (hfails : Fails action) : Fails (action >>= rest) := by
  intro state
  obtain ⟨e, last, hrun⟩ := hfails state
  refine ⟨e, last, ?_⟩
  rw [EStateM.run_bind, hrun]

theorem fails_bind_right {action : EStateM ε σ α} {rest : α → EStateM ε σ β}
    {value : σ → α} {next : σ → σ}
    (hok : ∀ state, action.run state = .ok (value state) (next state))
    (hfails : ∀ x, Fails (rest x)) : Fails (action >>= rest) := by
  intro state
  obtain ⟨e, last, hrun⟩ := hfails (value state) (next state)
  refine ⟨e, last, ?_⟩
  rw [EStateM.run_bind, hok]
  exact hrun

section MapM

variable {f : α → EStateM ε σ β} {value : σ → α → β} {next : σ → α → σ}

theorem run_mapM_of_ok {xs : List α}
    (hok : ∀ x ∈ xs, ∀ state, (f x).run state = .ok (value state x) (next state x)) (state : σ) :
    (xs.mapM f).run state = .ok (values value next state xs) (xs.foldl next state) := by
  induction xs generalizing state with
  | nil => rfl
  | cons x rest ih =>
      have hrest := ih (fun y hy => hok y (List.mem_cons_of_mem x hy)) (next state x)
      rw [List.mapM_cons, EStateM.run_bind, hok x List.mem_cons_self]
      simp only [EStateM.run_bind, hrest]
      rfl

/-- A traversal that meets an element that fails. -/
theorem fails_mapM {xs : List α}
    (hdecided : ∀ x ∈ xs, (∀ state, (f x).run state = .ok (value state x) (next state x)) ∨
      Fails (f x))
    (hbad : ∃ x ∈ xs, Fails (f x)) : Fails (xs.mapM f) := by
  induction xs with
  | nil =>
      obtain ⟨x, hx, -⟩ := hbad
      cases hx
  | cons x rest ih =>
      rw [List.mapM_cons]
      rcases hdecided x List.mem_cons_self with hok | hfails
      · obtain ⟨y, hy, hyfails⟩ := hbad
        rcases List.mem_cons.mp hy with rfl | hrest
        · exact fails_bind_left hyfails
        · refine fails_bind_right hok fun _ => fails_bind_left ?_
          exact ih (fun z hz => hdecided z (List.mem_cons_of_mem x hz)) ⟨y, hrest, hyfails⟩
      · exact fails_bind_left hfails

end MapM

variable {value : σ → α → β} {next : σ → α → σ}

theorem length_values (state : σ) (xs : List α) :
    (values value next state xs).length = xs.length := by
  induction xs generalizing state with
  | nil => rfl
  | cons x rest ih => rw [values, List.length_cons, List.length_cons, ih]

/-- What holds of every element and its result, from whichever state. -/
theorem forall₂_values {R : α → β → Prop} {xs : List α}
    (hvalue : ∀ x ∈ xs, ∀ state, R x (value state x)) (state : σ) :
    List.Forall₂ R xs (values value next state xs) := by
  induction xs generalizing state with
  | nil => exact .nil
  | cons x rest ih =>
      exact .cons (hvalue x List.mem_cons_self state)
        (ih (fun y hy => hvalue y (List.mem_cons_of_mem x hy)) (next state x))

theorem getElem?_values (state : σ) (xs : List α) (k : Nat) :
    (values value next state xs)[k]? = xs[k]?.map (value ((xs.take k).foldl next state)) := by
  induction xs generalizing state k with
  | nil => rfl
  | cons x rest ih =>
      cases k with
      | zero => rfl
      | succ k =>
          rw [values, List.getElem?_cons_succ, List.getElem?_cons_succ, List.take_succ_cons,
            List.foldl_cons]
          exact ih (next state x) k

theorem values_append (state : σ) (xs ys : List α) :
    values value next state (xs ++ ys) =
      values value next state xs ++ values value next (xs.foldl next state) ys := by
  induction xs generalizing state with
  | nil => rfl
  | cons x rest ih => simp only [List.cons_append, values, ih, List.foldl_cons]

/-- A traversal of traversals is one traversal of all elements. -/
theorem flatMap_values {parts : γ → List α} {collect : δ → List β} {outer : σ → γ → δ}
    (hcollect : ∀ state part, collect (outer state part) = values value next state (parts part))
    (state : σ) (xs : List γ) :
    (values outer (fun state part => (parts part).foldl next state) state xs).flatMap collect =
      values value next state (xs.flatMap parts) := by
  induction xs generalizing state with
  | nil => rfl
  | cons x rest ih =>
      rw [values, List.flatMap_cons, List.flatMap_cons, values_append, hcollect, ih]

end Traversal
