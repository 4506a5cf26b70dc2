/-
Labelled transition systems with guarded runs.  A safety result about a
system that is not safe under every schedule is stated for the runs whose
steps all meet a guard; the unguarded runs are the special case `Reachable`.
-/
import Mathlib.Logic.Function.Basic

namespace Transition

universe u v w

/-- A system of partial labelled steps over the states `S`. -/
structure System (S : Type u) (L : Type v) where
  init : S → Prop
  step : S → L → Option S

namespace System

variable {S : Type u} {L : Type v} (T : System S L)

/-- States reached by a run in which every step is taken from a state that
meets the guard `ok` for its label. -/
inductive ReachesVia (ok : S → L → Prop) : S → Prop
  | init {state : S} (hinit : T.init state) : ReachesVia ok state
  | step {state next : S} {label : L} (hreach : ReachesVia ok state)
      (hok : ok state label) (hstep : T.step state label = some next) :
      ReachesVia ok next

/-- States reached by any run at all. -/
def Reachable (state : S) : Prop :=
  T.ReachesVia (fun _ _ => True) state

variable {T}

theorem ReachesVia.mono {ok weaker : S → L → Prop}
    (hweaker : ∀ state label, ok state label → weaker state label)
    {state : S} (hreach : T.ReachesVia ok state) :
    T.ReachesVia weaker state := by
  induction hreach with
  | init hinit => exact .init hinit
  | step _ hok hstep ih => exact .step ih (hweaker _ _ hok) hstep

theorem ReachesVia.reachable {ok : S → L → Prop} {state : S}
    (hreach : T.ReachesVia ok state) : T.Reachable state :=
  hreach.mono fun _ _ _ => trivial

/-- The invariant rule.  The step case may use everything already known of
reachable states, so invariants are proved in layers. -/
theorem ReachesVia.invariant {ok : S → L → Prop} {Inv : S → Prop}
    (hinit : ∀ state, T.init state → Inv state)
    (hstep : ∀ state label next, T.Reachable state → Inv state →
      ok state label → T.step state label = some next → Inv next)
    {state : S} (hreach : T.ReachesVia ok state) : Inv state := by
  induction hreach with
  | init hinitial => exact hinit _ hinitial
  | step hbefore hok hnext ih =>
      exact hstep _ _ _ hbefore.reachable ih hok hnext

/-- A guard that an invariant of its own runs turns into a stronger one. -/
theorem ReachesVia.strengthen {ok stronger : S → L → Prop}
    (hstronger : ∀ state label, T.ReachesVia ok state → ok state label →
      stronger state label)
    {state : S} (hreach : T.ReachesVia ok state) : T.ReachesVia stronger state := by
  induction hreach with
  | init hinit => exact .init hinit
  | step hbefore hok hnext ih => exact .step ih (hstronger _ _ hbefore hok) hnext

theorem Reachable.invariant {Inv : S → Prop}
    (hinit : ∀ state, T.init state → Inv state)
    (hstep : ∀ state label next, T.Reachable state → Inv state →
      T.step state label = some next → Inv next)
    {state : S} (hreach : T.Reachable state) : Inv state :=
  ReachesVia.invariant hinit
    (fun state label next hbefore hinv _ hnext =>
      hstep state label next hbefore hinv hnext) hreach

theorem Reachable.next {state next : S} {label : L}
    (hreach : T.Reachable state) (hstep : T.step state label = some next) :
    T.Reachable next :=
  .step hreach trivial hstep

variable (T)

/-- Execute a schedule; `none` as soon as a label is not enabled. -/
def run : S → List L → Option S
  | state, [] => some state
  | state, label :: rest => (T.step state label).bind fun next => run next rest

variable {T}

/-- What holds after a schedule but not before it was made true by one of its
steps. -/
theorem exists_step_of_run {P : S → Prop} {state final : S} {schedule : List L}
    (hrun : T.run state schedule = some final) (hbefore : ¬ P state)
    (hafter : P final) :
    ∃ before label rest middle next, schedule = before ++ label :: rest ∧
      T.run state before = some middle ∧ T.step middle label = some next ∧
      ¬ P middle ∧ P next := by
  induction schedule generalizing state with
  | nil =>
      simp only [run, Option.some.injEq] at hrun
      exact absurd (hrun ▸ hafter) hbefore
  | cons label rest ih =>
      obtain ⟨next, hstep, hrest⟩ := Option.bind_eq_some_iff.mp hrun
      by_cases hnext : P next
      · exact ⟨[], label, rest, state, next, rfl, rfl, hstep, hbefore, hnext⟩
      · obtain ⟨before, made, after, middle, last, hsplit, hmiddle, hlast⟩ :=
          ih hrest hnext
        refine ⟨label :: before, made, after, middle, last, ?_, ?_, hlast⟩
        · rw [hsplit, List.cons_append]
        · rw [run, hstep]
          exact hmiddle

theorem Reachable.run {state final : S} {schedule : List L}
    (hreach : T.Reachable state) (hrun : T.run state schedule = some final) :
    T.Reachable final := by
  induction schedule generalizing state with
  | nil =>
      simp only [System.run, Option.some.injEq] at hrun
      exact hrun ▸ hreach
  | cons label rest ih =>
      obtain ⟨next, hstep, hrest⟩ := Option.bind_eq_some_iff.mp hrun
      exact ih (hreach.next hstep) hrest

variable (T)

/-- Execute a schedule under a guard; `none` as soon as a label is not
allowed or not enabled. -/
def runVia (ok : S → L → Prop) [∀ state label, Decidable (ok state label)] :
    S → List L → Option S
  | state, [] => some state
  | state, label :: rest =>
      if ok state label then
        (T.step state label).bind fun next => runVia ok next rest
      else none

variable {T} {ok : S → L → Prop} [∀ state label, Decidable (ok state label)]

theorem runVia_reachesVia {state final : S} {schedule : List L}
    (hreach : T.ReachesVia ok state)
    (hrun : T.runVia ok state schedule = some final) :
    T.ReachesVia ok final := by
  induction schedule generalizing state with
  | nil =>
      simp only [runVia, Option.some.injEq] at hrun
      exact hrun ▸ hreach
  | cons label rest ih =>
      rw [runVia] at hrun
      split at hrun
      · rename_i hok
        obtain ⟨next, hstep, hrest⟩ := Option.bind_eq_some_iff.mp hrun
        exact ih (hreach.step hok hstep) hrest
      · cases hrun

/-- A schedule that runs to the end and whose final state passes a check
shows that a state with the checked property is reached. -/
theorem exists_reachesVia_of_run (ok : S → L → Prop)
    [∀ state label, Decidable (ok state label)] (Checked : S → Prop)
    [DecidablePred Checked] {state : S} (schedule : List L) (hinit : T.init state)
    (hcheck : (T.runVia ok state schedule).any (fun final => Checked final) = true) :
    ∃ final, T.ReachesVia ok final ∧ Checked final := by
  obtain ⟨final, hrun, hchecked⟩ := (Option.any_eq_true _ _).mp hcheck
  exact ⟨final, runVia_reachesVia (.init hinit) hrun, by simpa using hchecked⟩

/-- A schedule of labels that the guard lets through everywhere. -/
theorem runVia_eq_run {state : S} {schedule : List L}
    (hallowed : ∀ label ∈ schedule, ∀ state, ok state label) :
    T.runVia ok state schedule = T.run state schedule := by
  induction schedule generalizing state with
  | nil => rfl
  | cons label rest ih =>
      obtain ⟨hlabel, hrest⟩ := List.forall_mem_cons.mp hallowed
      rw [runVia, if_pos (hlabel state), run]
      exact Option.bind_congr fun next _ => ih hrest

theorem run_of_runVia {state final : S} {schedule : List L}
    (hrun : T.runVia ok state schedule = some final) : T.run state schedule = some final := by
  induction schedule generalizing state with
  | nil => exact hrun
  | cons label rest ih =>
      rw [runVia] at hrun
      split at hrun
      · obtain ⟨next, hstep, hrest⟩ := Option.bind_eq_some_iff.mp hrun
        rw [run, hstep]
        exact ih hrest
      · cases hrun

/-- Refinement up to a preorder.  If each step does to the abstraction of a
state what its label means there, or comes below it, then so does a run. -/
theorem runVia_refines {A : Type w} (Inv : S → Prop) (abstraction : S → A)
    (apply : A → L → A) (R : A → A → Prop) (hrefl : ∀ x, R x x)
    (htrans : ∀ x y z, R x y → R y z → R x z)
    (hmono : ∀ label x y, R x y → R (apply x label) (apply y label))
    (hstep : ∀ state label next, Inv state → ok state label →
      T.step state label = some next →
        Inv next ∧ R (abstraction next) (apply (abstraction state) label))
    {state final : S} {schedule : List L} (hinv : Inv state)
    (hrun : T.runVia ok state schedule = some final) :
    Inv final ∧ R (abstraction final) (schedule.foldl apply (abstraction state)) := by
  induction schedule generalizing state with
  | nil =>
      simp only [runVia, Option.some.injEq] at hrun
      subst hrun
      exact ⟨hinv, hrefl _⟩
  | cons label rest ih =>
      rw [runVia] at hrun
      split at hrun
      · rename_i hok
        obtain ⟨next, hnext, hrest⟩ := Option.bind_eq_some_iff.mp hrun
        obtain ⟨hinvNext, hrefines⟩ := hstep state label next hinv hok hnext
        obtain ⟨hinvFinal, htail⟩ := ih hinvNext hrest
        exact ⟨hinvFinal, htrans _ _ _ htail
          (List.foldl_rel hrefines fun other _ x y => hmono other x y)⟩
      · cases hrun

/-- The potential argument.  If each paying step takes one from a potential
and only an earning step adds to it, `rate` at most, then a run pays no more
than its first state has and its steps earn. -/
theorem runVia_potential (Inv : S → Prop) (potential : S → Nat) {pays earns : L → Bool}
    {rate : Nat} {state final : S} {schedule : List L}
    (hstep : ∀ state label next rest, label ∈ schedule → Inv state → ok state label →
      T.step state label = some next → T.runVia ok next rest = some final →
        Inv next ∧ potential next + (pays label).toNat ≤
          potential state + rate * (earns label).toNat)
    (hinv : Inv state) (hrun : T.runVia ok state schedule = some final) :
    Inv final ∧ potential final + schedule.countP pays ≤
      potential state + rate * schedule.countP earns := by
  induction schedule generalizing state with
  | nil =>
      simp only [runVia, Option.some.injEq] at hrun
      subst hrun
      exact ⟨hinv, Nat.le_refl _⟩
  | cons label rest ih =>
      rw [runVia] at hrun
      split at hrun
      · rename_i hok
        obtain ⟨next, hnext, hrest⟩ := Option.bind_eq_some_iff.mp hrun
        obtain ⟨hinvNext, hpaid⟩ :=
          hstep state label next rest List.mem_cons_self hinv hok hnext hrest
        obtain ⟨hinvFinal, htail⟩ := ih
          (fun state label next rest hlabel =>
            hstep state label next rest (List.mem_cons_of_mem _ hlabel)) hinvNext hrest
        refine ⟨hinvFinal, ?_⟩
        have hcount : ∀ p : L → Bool,
            (label :: rest).countP p = (p label).toNat + rest.countP p := by
          intro p
          cases h : p label <;> simp [h, Nat.add_comm]
        rw [hcount pays, hcount earns, Nat.mul_add]
        omega
      · cases hrun

theorem exists_reachable_of_run (Checked : S → Prop) [DecidablePred Checked]
    {state : S} (schedule : List L) (hinit : T.init state)
    (hcheck : (T.runVia (fun _ _ => True) state schedule).any
      (fun final => Checked final) = true) :
    ∃ final, T.Reachable final ∧ Checked final :=
  exists_reachesVia_of_run _ Checked schedule hinit hcheck

end System

end Transition
