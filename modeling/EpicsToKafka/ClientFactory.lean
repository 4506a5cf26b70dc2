/-
`EpicsClientFactoryInit`: the two factories of EPICS run as long as there are
instances.  Constructors and destructors of any number of instances, on any
threads, go through one mutex; the counter, the two starts and the two stops
are steps of their own inside it.
-/
import EpicsToKafka.Threads
import EpicsToKafka.Transition

namespace EpicsToKafka.EpicsClientFactoryInit

open Threads

/-- Where an instance is.  Its constructor goes from `locked` to `alive`, its
destructor from `dying` to `gone`; both hold `MutexLock` in between. -/
inductive Place where
  | unborn
  | locked
  | counted (c : Int)
  | started
  | alive
  | dying
  | uncounted (c : Int)
  | stopped
  | gone
deriving Repr, DecidableEq

/-- A call of `ClientFactory` or of `CAClientFactory`. -/
inductive FactoryCall where
  | startClient
  | startCA
  | stopClient
  | stopCA
deriving Repr, DecidableEq

/-- The factories and `n` instances.  `calls` and `errors` are history: the
calls of the factories, and how often the counter was found below zero. -/
structure State (n : Nat) where
  count : Int := 0
  mutexLock : Option (Fin n) := none
  place : Fin n → Place := fun _ => .unborn
  clientFactory : Bool := false
  caClientFactory : Bool := false
  calls : List FactoryCall := []
  errors : Nat := 0

variable {n : Nat}

namespace State

def goto (s : State n) (i : Fin n) (place : Place) : State n :=
  { s with place := Function.update s.place i place }

def lock (s : State n) (i : Fin n) (place : Place) : Option (State n) :=
  if s.mutexLock = none then some { s.goto i place with mutexLock := some i } else none

def unlock (s : State n) (i : Fin n) (place : Place) : State n :=
  { s.goto i place with mutexLock := none }

/-- The next step of the constructor or the destructor of an instance. -/
def step (s : State n) (i : Fin n) : Option (State n) :=
  match s.place i with
  | .unborn => s.lock i .locked
  | .locked => some { s.goto i (.counted s.count) with count := s.count + 1 }
  | .counted c =>
      if c = 0 then
        some { s.goto i .started with
          clientFactory := true, calls := s.calls ++ [.startClient] }
      else some (s.unlock i .alive)
  | .started =>
      some { s.unlock i .alive with caClientFactory := true, calls := s.calls ++ [.startCA] }
  | .alive => s.lock i .dying
  | .dying =>
      let c := s.count - 1
      -- the counter itself is not corrected
      if c < 0 then some { s.goto i (.uncounted 0) with count := c, errors := s.errors + 1 }
      else some { s.goto i (.uncounted c) with count := c }
  | .uncounted c =>
      if c = 0 then
        some { s.goto i .stopped with
          clientFactory := false, calls := s.calls ++ [.stopClient] }
      else some (s.unlock i .gone)
  | .stopped =>
      some { s.unlock i .gone with caClientFactory := false, calls := s.calls ++ [.stopCA] }
  | .gone => none

end State

namespace Place

/-- The instance is between the increment and the decrement. -/
def counts : Place → Bool
  | counted _ | started | alive | dying => true
  | _ => false

/-- The instance holds the mutex. -/
def inside : Place → Bool
  | locked | counted _ | started | dying | uncounted _ | stopped => true
  | _ => false

end Place

/-- The call that a complete cycle of starts and stops has at an index. -/
def FactoryCall.cycle : Nat → FactoryCall
  | 0 => .startClient
  | 1 => .startCA
  | 2 => .stopClient
  | _ => .stopCA

namespace State

/-- The calls so far are cycles of both starts and both stops, and `phase` of
the next one. -/
structure Cyclic (s : State n) (phase : Nat) : Prop where
  calls : s.calls = (List.range s.calls.length).map fun k => FactoryCall.cycle (k % 4)
  length : s.calls.length % 4 = phase

/-- What holds of the counter and the factories while the holder of the mutex,
if there is one, is at its place. -/
def Consistent (s : State n) : Option Place → Prop
  | none | some .locked | some .dying =>
      s.clientFactory = decide (0 < s.count) ∧ s.caClientFactory = decide (0 < s.count) ∧
        s.Cyclic (if 0 < s.count then 2 else 0)
  | some (.counted c) =>
      s.count = c + 1 ∧ s.clientFactory = decide (0 < c) ∧
        s.caClientFactory = decide (0 < c) ∧ s.Cyclic (if 0 < c then 2 else 0)
  | some .started =>
      s.count = 1 ∧ s.clientFactory = true ∧ s.caClientFactory = false ∧ s.Cyclic 1
  | some (.uncounted c) =>
      s.count = c ∧ s.clientFactory = true ∧ s.caClientFactory = true ∧ s.Cyclic 2
  | some .stopped =>
      s.count = 0 ∧ s.clientFactory = false ∧ s.caClientFactory = true ∧ s.Cyclic 3
  | _ => False

end State

structure FactoryOk (s : State n) : Prop where
  guards : Guards s.mutexLock fun i => (s.place i).inside = true
  count : s.count = occupants s.place Place.counts
  errors : s.errors = 0
  consistent : s.Consistent (s.mutexLock.map s.place)

variable {s s' : State n} {i : Fin n}

theorem State.Cyclic.append {phase : Nat} (hcyclic : s.Cyclic phase)
    (hcalls : s'.calls = s.calls ++ [FactoryCall.cycle phase]) :
    s'.Cyclic ((phase + 1) % 4) := by
  have hlength : s'.calls.length = s.calls.length + 1 := by
    rw [hcalls, List.length_append, List.length_singleton]
  constructor
  · rw [hlength, List.range_succ, List.map_append, ← hcyclic.calls, hcalls]
    simp only [List.map_cons, List.map_nil, hcyclic.length]
  · rw [hlength, Nat.add_mod, hcyclic.length]

theorem State.Cyclic.congr {phase : Nat} (hcyclic : s.Cyclic phase)
    (hcalls : s'.calls = s.calls) : s'.Cyclic phase := by
  constructor
  · rw [hcalls]
    exact hcyclic.calls
  · rw [hcalls]
    exact hcyclic.length

theorem inside_update_of_ne {other : Fin n} (place : Place) (hother : other ≠ i) :
    (Function.update s.place i place other).inside = true ↔ (s.place other).inside = true := by
  rw [Function.update_of_ne hother]

namespace FactoryOk

/-- Moving one instance changes what the counter has to be. -/
theorem occupants_goto (hok : FactoryOk s) (i : Fin n) (place : Place) :
    (occupants (Function.update s.place i place) Place.counts : Int) +
        (if (s.place i).counts = true then 1 else 0) =
      s.count + if place.counts = true then 1 else 0 := by
  have hupdate := occupants_update s.place Place.counts i place
  have hcount := hok.count
  simp only [List.countP_singleton] at hupdate
  rw [hcount]
  split_ifs at hupdate ⊢ <;> omega

/-- The holder's place is the one that the invariant speaks of. -/
theorem at_place (hok : FactoryOk s) {place : Place} (hplace : s.place i = place)
    (hinside : place.inside = true) :
    s.mutexLock = some i ∧ s.Consistent (some place) := by
  subst hplace
  have hlock := (hok.guards i).mpr hinside
  have hconsistent := hok.consistent
  rw [hlock, Option.map_some] at hconsistent
  exact ⟨hlock, hconsistent⟩

/-- A step that takes the mutex. -/
theorem lock (hok : FactoryOk s) {place : Place} (hinside : place.inside = true)
    (hcounts : place.counts = (s.place i).counts)
    (hplace : place = .locked ∨ place = .dying) (hstep : s.lock i place = some s') :
    FactoryOk s' := by
  unfold State.lock at hstep
  split at hstep
  · rename_i hfree
    cases hstep
    have hguards := hok.guards
    have hconsistent := hok.consistent
    rw [hfree] at hguards hconsistent
    have hcount := hok.occupants_goto i place
    rw [hcounts] at hcount
    refine ⟨hguards.acquire (by simpa [State.goto] using hinside)
      (fun other hother => inside_update_of_ne place hother), ?_, hok.errors, ?_⟩
    · simp only [State.goto]
      omega
    · obtain ⟨hclient, hca, hcyclic⟩ := hconsistent
      rcases hplace with rfl | rfl <;>
        simpa [State.goto, State.Consistent] using ⟨hclient, hca, hcyclic.congr rfl⟩
  · cases hstep

/-- A step that gives the mutex back. -/
theorem unlock (hok : FactoryOk s) (hlocked : s.mutexLock = some i) {place : Place}
    (houtside : place.inside = false) (hcounts : place.counts = (s.place i).counts)
    (hs' : s'.place = Function.update s.place i place) (hlock : s'.mutexLock = none)
    (hcount : s'.count = s.count) (herrors : s'.errors = s.errors)
    (hconsistent : s'.Consistent none) : FactoryOk s' := by
  have hguards := hok.guards
  rw [hlocked] at hguards
  have hmoved := hok.occupants_goto i place
  rw [hcounts] at hmoved
  refine ⟨?_, ?_, herrors.trans hok.errors, ?_⟩
  · rw [hlock, hs']
    refine hguards.release ?_ (fun other hother => inside_update_of_ne place hother)
    simp [houtside]
  · rw [hs', hcount]
    omega
  · rw [hlock]
    exact hconsistent

/-- A step inside the mutex. -/
theorem move (hok : FactoryOk s) (hlocked : s.mutexLock = some i) {place : Place}
    (hstill : place.inside = true) (hs' : s'.place = Function.update s.place i place)
    (hlock : s'.mutexLock = s.mutexLock) (herrors : s'.errors = s.errors)
    (hcount : s'.count + (if (s.place i).counts = true then 1 else 0) =
      s.count + if place.counts = true then 1 else 0)
    (hconsistent : s'.Consistent (some place)) : FactoryOk s' := by
  have hinside := (hok.guards i).mp hlocked
  have hmoved := hok.occupants_goto i place
  refine ⟨?_, ?_, herrors.trans hok.errors, ?_⟩
  · rw [hlock, hs']
    refine hok.guards.frame fun other => ?_
    by_cases hother : other = i
    · rw [hother, Function.update_self]
      exact iff_of_true hstill hinside
    · exact inside_update_of_ne place hother
  · rw [hs']
    omega
  · rw [hlock, hlocked, Option.map_some, hs', Function.update_self]
    exact hconsistent

/-- An instance that counts keeps the counter above zero. -/
theorem count_pos (hok : FactoryOk s) (hcounts : (s.place i).counts = true) : 0 < s.count := by
  have hmoved := hok.occupants_goto i .gone
  rw [if_pos hcounts, if_neg (by decide)] at hmoved
  omega

/-- Two of them keep it above one. -/
theorem one_lt_count (hok : FactoryOk s) {other : Fin n} (hother : other ≠ i)
    (hcounts : (s.place i).counts = true) (hboth : (s.place other).counts = true) :
    1 < s.count := by
  have hmoved := hok.occupants_goto i .gone
  have hrest := countP_le_total (fun thread => [Function.update s.place i .gone thread])
    Place.counts other
  rw [Function.update_of_ne hother, List.countP_singleton, if_pos hboth] at hrest
  rw [if_pos hcounts, if_neg (by decide), occupants] at hmoved
  omega

/-- The factories run for an instance that is alive, wherever the holder of
the mutex is. -/
theorem running (hok : FactoryOk s) (halive : s.place i = .alive) :
    s.clientFactory = true ∧ s.caClientFactory = true := by
  have hpos : 0 < s.count := hok.count_pos (by rw [halive]; rfl)
  have hconsistent := hok.consistent
  cases hlock : s.mutexLock with
  | none =>
      rw [hlock] at hconsistent
      obtain ⟨hclient, hca, -⟩ := hconsistent
      rw [hclient, hca]
      exact ⟨decide_eq_true hpos, decide_eq_true hpos⟩
  | some holder =>
      have hne : holder ≠ i := by
        rintro rfl
        have hinside : (s.place holder).inside = true := (hok.guards holder).mp hlock
        rw [halive] at hinside
        cases hinside
      have htwo : (s.place holder).counts = true → 1 < s.count :=
        hok.one_lt_count hne (by rw [halive]; rfl)
      rw [hlock, Option.map_some] at hconsistent
      cases hplace : s.place holder with
      | locked | dying =>
          rw [hplace] at hconsistent
          obtain ⟨hclient, hca, -⟩ := hconsistent
          rw [hclient, hca]
          exact ⟨decide_eq_true hpos, decide_eq_true hpos⟩
      | counted c =>
          rw [hplace] at hconsistent htwo
          obtain ⟨hcount, hclient, hca, -⟩ := hconsistent
          have hc : 0 < c := by
            have := htwo rfl
            omega
          rw [hclient, hca]
          exact ⟨decide_eq_true hc, decide_eq_true hc⟩
      | started =>
          rw [hplace] at hconsistent htwo
          have := htwo rfl
          have := hconsistent.1
          omega
      | uncounted c =>
          rw [hplace] at hconsistent
          exact ⟨hconsistent.2.1, hconsistent.2.2.1⟩
      | stopped =>
          rw [hplace] at hconsistent
          have := hconsistent.1
          omega
      | unborn | alive | gone =>
          rw [hplace] at hconsistent
          exact hconsistent.elim

/-- With the mutex free the counter is above zero exactly if an instance is
alive. -/
theorem count_pos_iff (hok : FactoryOk s) (hfree : s.mutexLock = none) :
    0 < s.count ↔ ∃ i, s.place i = .alive := by
  constructor
  · intro hpos
    by_contra hnone
    have hcounts : ∀ i, (s.place i).counts = false := by
      intro i
      have houtside : ¬ (s.place i).inside = true := by
        intro hinside
        rw [(hok.guards i).mpr hinside] at hfree
        cases hfree
      cases hplace : s.place i with
      | alive => exact absurd ⟨i, hplace⟩ hnone
      | unborn | locked | uncounted c | stopped | gone => rfl
      | counted c | started | dying => simp [hplace, Place.inside] at houtside
    have hcount := hok.count
    rw [occupants_eq_zero hcounts] at hcount
    omega
  · rintro ⟨i, halive⟩
    exact hok.count_pos (by rw [halive]; rfl)

end FactoryOk

/-- Both factories run for the instances there are. -/
theorem State.consistent_running (hpos : 0 < s.count) (hclient : s.clientFactory = true)
    (hca : s.caClientFactory = true) (hcyclic : s.Cyclic 2) : s.Consistent none := by
  refine ⟨?_, ?_, ?_⟩
  · rw [hclient, decide_eq_true hpos]
  · rw [hca, decide_eq_true hpos]
  · rwa [if_pos hpos]

section Construct

variable (hok : FactoryOk s)
include hok

theorem counted_ok {c : Int} (hplace : s.place i = .counted c) (hstep : s.step i = some s') :
    FactoryOk s' := by
  obtain ⟨hlocked, hcount, hclient, hca, hcyclic⟩ := hok.at_place hplace rfl
  simp only [State.step, hplace] at hstep
  split at hstep
  · rename_i hzero
    subst hzero
    cases hstep
    exact hok.move hlocked rfl rfl rfl rfl (by rw [hplace]; rfl)
      ⟨hcount, rfl, hca, hcyclic.append rfl⟩
  · cases hstep
    have hcounts : 0 < s.count := hok.count_pos (by rw [hplace]; rfl)
    have hpos : 0 < c := by omega
    rw [decide_eq_true hpos] at hclient hca
    rw [if_pos hpos] at hcyclic
    exact hok.unlock hlocked rfl (by rw [hplace]; rfl) rfl rfl rfl rfl
      (State.consistent_running hcounts hclient hca (hcyclic.congr rfl))

theorem started_ok (hplace : s.place i = .started) (hstep : s.step i = some s') :
    FactoryOk s' := by
  obtain ⟨hlocked, hcount, hclient, -, hcyclic⟩ := hok.at_place hplace rfl
  simp only [State.step, hplace, Option.some.injEq] at hstep
  subst hstep
  have hpos : 0 < s.count := by omega
  exact hok.unlock hlocked rfl (by rw [hplace]; rfl) rfl rfl rfl rfl
    (State.consistent_running hpos hclient rfl (hcyclic.append rfl))

end Construct

section Destruct

variable (hok : FactoryOk s)
include hok

/-- The counter of a dying instance is above zero, so no correction is made. -/
theorem dying_ok (hplace : s.place i = .dying) (hstep : s.step i = some s') :
    FactoryOk s' := by
  obtain ⟨hlocked, hclient, hca, hcyclic⟩ := hok.at_place hplace rfl
  have hpos : 0 < s.count := hok.count_pos (by rw [hplace]; rfl)
  rw [decide_eq_true hpos] at hclient hca
  rw [if_pos hpos] at hcyclic
  simp only [State.step, hplace] at hstep
  split at hstep
  · omega
  · cases hstep
    exact hok.move hlocked rfl rfl rfl rfl (by rw [hplace]; simp [Place.counts])
      ⟨rfl, hclient, hca, hcyclic.congr rfl⟩

theorem uncounted_ok {c : Int} (hplace : s.place i = .uncounted c)
    (hstep : s.step i = some s') : FactoryOk s' := by
  obtain ⟨hlocked, hcount, hclient, hca, hcyclic⟩ := hok.at_place hplace rfl
  simp only [State.step, hplace] at hstep
  split at hstep
  · rename_i hzero
    subst hzero
    cases hstep
    exact hok.move hlocked rfl rfl rfl rfl (by rw [hplace]; rfl)
      ⟨hcount, rfl, hca, hcyclic.append rfl⟩
  · cases hstep
    have hall := hok.count
    have hpos : 0 < s.count := by omega
    exact hok.unlock hlocked rfl (by rw [hplace]; rfl) rfl rfl rfl rfl
      (State.consistent_running hpos hclient hca (hcyclic.congr rfl))

theorem stopped_ok (hplace : s.place i = .stopped) (hstep : s.step i = some s') :
    FactoryOk s' := by
  obtain ⟨hlocked, hcount, hclient, -, hcyclic⟩ := hok.at_place hplace rfl
  simp only [State.step, hplace, Option.some.injEq] at hstep
  subst hstep
  refine hok.unlock hlocked rfl (by rw [hplace]; rfl) rfl rfl rfl rfl ?_
  simp only [State.Consistent, State.unlock, State.goto, hcount, hclient]
  exact ⟨rfl, rfl, hcyclic.append rfl⟩

end Destruct

theorem FactoryOk.step (hok : FactoryOk s) (hstep : s.step i = some s') : FactoryOk s' := by
  cases hplace : s.place i with
  | unborn =>
      simp only [State.step, hplace] at hstep
      exact hok.lock rfl (by rw [hplace]; rfl) (Or.inl rfl) hstep
  | locked =>
      obtain ⟨hlocked, hclient, hca, hcyclic⟩ := hok.at_place hplace rfl
      simp only [State.step, hplace, Option.some.injEq] at hstep
      subst hstep
      exact hok.move hlocked rfl rfl rfl rfl (by rw [hplace]; simp [Place.counts])
        ⟨rfl, hclient, hca, hcyclic.congr rfl⟩
  | counted c => exact counted_ok hok hplace hstep
  | started => exact started_ok hok hplace hstep
  | alive =>
      simp only [State.step, hplace] at hstep
      exact hok.lock rfl (by rw [hplace]; rfl) (Or.inr rfl) hstep
  | dying => exact dying_ok hok hplace hstep
  | uncounted c => exact uncounted_ok hok hplace hstep
  | stopped => exact stopped_ok hok hplace hstep
  | gone => simp [State.step, hplace] at hstep

end EpicsToKafka.EpicsClientFactoryInit
