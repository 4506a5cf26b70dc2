/-
Dispatching items from sources to the private queues of several workers.  A
worker takes an item from a source, queues one job for each target of that
source, and later emits its jobs one by one.  The guard `ok` restricts when
items may be taken; accounting holds under every guard, order across workers
only under an exclusive one.
-/
import EpicsToKafka.Threads
import Mathlib.Data.List.Basic
import Mathlib.Data.List.Nodup
import Mathlib.Data.List.Count

namespace Dispatch

open Threads

universe u

set_option linter.unusedSectionVars false

/-- History of one taken item and the targets its source had then. -/
structure Taken (σ π α : Type u) where
  item : α
  source : σ
  targets : List π

/-- Items waiting at the sources, jobs queued at the workers, and the
histories of emitted jobs and taken items. -/
structure Traffic (ι σ π α : Type u) where
  waiting : σ → List (Option α)
  queued : ι → List (α × π)
  emitted : List (ι × α × π)
  dequeued : List (Taken σ π α)

variable {ι σ π α : Type u}

namespace Traffic

def initial : Traffic ι σ π α where
  waiting _ := []
  queued _ := []
  emitted := []
  dequeued := []

/-- The item is not known to the system yet. -/
structure Fresh (t : Traffic ι σ π α) (item : α) : Prop where
  waiting : ∀ source, some item ∉ t.waiting source
  dequeued : ∀ taken ∈ t.dequeued, taken.item ≠ item

variable [DecidableEq ι] [DecidableEq σ] [DecidableEq π] [DecidableEq α]

def enqueue (t : Traffic ι σ π α) (source : σ) (item : Option α) :
    Traffic ι σ π α :=
  { t with waiting := Function.update t.waiting source (t.waiting source ++ [item]) }

/-- Drop the null item at the front of a source. -/
def discard (t : Traffic ι σ π α) (source : σ) (rest : List (Option α)) :
    Traffic ι σ π α :=
  { t with waiting := Function.update t.waiting source rest }

/-- Take an item from a source and queue one job for each target. -/
def distribute (t : Traffic ι σ π α) (worker : ι) (source : σ) (item : α)
    (rest : List (Option α)) (targets : List π) : Traffic ι σ π α where
  waiting := Function.update t.waiting source rest
  queued := Function.update t.queued worker
    (t.queued worker ++ targets.map fun target => (item, target))
  emitted := t.emitted
  dequeued := t.dequeued ++ [⟨item, source, targets⟩]

def emit (t : Traffic ι σ π α) (worker : ι) (job : α × π) (rest : List (α × π)) :
    Traffic ι σ π α :=
  { t with
    queued := Function.update t.queued worker rest
    emitted := t.emitted ++ [(worker, job)] }

/-- The items taken for a target, in order. -/
def dequeuedFor (t : Traffic ι σ π α) (target : π) : List α :=
  (t.dequeued.filter fun taken => target ∈ taken.targets).map Taken.item

/-- The items of the jobs that have the given target, in order. -/
def itemsFor (target : π) (jobs : List (α × π)) : List α :=
  (jobs.filter fun job => job.2 = target).map Prod.fst

/-- The items emitted for a target, in order. -/
def emittedFor (t : Traffic ι σ π α) (target : π) : List α :=
  itemsFor target (t.emitted.map Prod.snd)

/-- The items a worker emitted for a target, in order. -/
def emittedBy (t : Traffic ι σ π α) (worker : ι) (target : π) : List α :=
  itemsFor target ((t.emitted.filter fun e => e.1 = worker).map Prod.snd)

/-- No worker but `worker` has a job for one of the targets. -/
def Exclusive (t : Traffic ι σ π α) (worker : ι) (targets : List π) : Prop :=
  ∀ other, other ≠ worker → ∀ job ∈ t.queued other, job.2 ∉ targets

end Traffic

open Traffic

variable [DecidableEq ι] [DecidableEq σ] [DecidableEq π] [DecidableEq α]

/-- Traffic reached when every item is taken under the guard `ok`. -/
inductive Runs (ok : Traffic ι σ π α → ι → List π → Prop) :
    Traffic ι σ π α → Prop
  | initial : Runs ok Traffic.initial
  | enqueue {t : Traffic ι σ π α} (hruns : Runs ok t) (source : σ)
      (item : Option α) (hfresh : ∀ a, item = some a → t.Fresh a) :
      Runs ok (t.enqueue source item)
  | discard {t : Traffic ι σ π α} {source : σ} {rest : List (Option α)}
      (hruns : Runs ok t) (hfront : t.waiting source = none :: rest) :
      Runs ok (t.discard source rest)
  | distribute {t : Traffic ι σ π α} {worker : ι} {source : σ} {item : α}
      {rest : List (Option α)} {targets : List π} (hruns : Runs ok t)
      (hok : ok t worker targets) (hnodup : targets.Nodup)
      (hfront : t.waiting source = some item :: rest) :
      Runs ok (t.distribute worker source item rest targets)
  | emit {t : Traffic ι σ π α} {worker : ι} {job : α × π} {rest : List (α × π)}
      (hruns : Runs ok t) (hqueue : t.queued worker = job :: rest) :
      Runs ok (t.emit worker job rest)

/-- Every item is at one place at most: once at one source, or taken once. -/
structure Distinct (t : Traffic ι σ π α) : Prop where
  waiting_once : ∀ source item, (t.waiting source).count (some item) ≤ 1
  waiting_apart : ∀ source other item, some item ∈ t.waiting source →
    some item ∈ t.waiting other → source = other
  waiting_dequeued : ∀ source item, some item ∈ t.waiting source →
    ∀ taken ∈ t.dequeued, taken.item ≠ item
  dequeued_nodup : (t.dequeued.map Taken.item).Nodup

namespace Distinct

variable {t : Traffic ι σ π α} {source : σ} {rest : List (Option α)}

theorem enqueue (hdistinct : Distinct t) (source : σ) (item : Option α)
    (hfresh : ∀ a, item = some a → t.Fresh a) :
    Distinct (t.enqueue source item) := by
  have hmem : ∀ other a, some a ∈ (t.enqueue source item).waiting other →
      some a ∈ t.waiting other ∨ (other = source ∧ item = some a) := by
    intro other a ha
    by_cases hother : other = source
    · subst hother
      simpa [Traffic.enqueue, eq_comm] using ha
    · simpa [Traffic.enqueue, hother] using ha
  refine ⟨?_, ?_, ?_, hdistinct.dequeued_nodup⟩
  · intro other a
    by_cases hother : other = source
    · subst hother
      simp only [Traffic.enqueue, Function.update_self, List.count_append,
        List.count_singleton]
      by_cases ha : item = some a
      · have hnone := List.count_eq_zero.mpr ((hfresh a ha).waiting other)
        simp [ha, hnone]
      · simpa [ha] using hdistinct.waiting_once other a
    · simpa [Traffic.enqueue, hother] using hdistinct.waiting_once other a
  · intro left right a hleft hright
    rcases hmem left a hleft with holdLeft | ⟨hl, ha⟩
    · rcases hmem right a hright with holdRight | ⟨-, ha⟩
      · exact hdistinct.waiting_apart left right a holdLeft holdRight
      · exact absurd holdLeft ((hfresh a ha).waiting left)
    · rcases hmem right a hright with holdRight | ⟨hr, -⟩
      · exact absurd holdRight ((hfresh a ha).waiting right)
      · rw [hl, hr]
  · intro other a ha
    rcases hmem other a ha with hold | ⟨-, ha⟩
    · exact hdistinct.waiting_dequeued other a hold
    · exact (hfresh a ha).dequeued

/-- Removing the front of a source keeps the rest distinct. -/
theorem pop (hdistinct : Distinct t) {front : Option α}
    (hfront : t.waiting source = front :: rest) :
    Distinct (t.discard source rest) := by
  have hsub : ∀ other, ((t.discard source rest).waiting other).Sublist
      (t.waiting other) := by
    intro other
    by_cases hother : other = source
    · subst hother
      simp [Traffic.discard, hfront]
    · simp [Traffic.discard, hother]
  refine ⟨?_, ?_, ?_, hdistinct.dequeued_nodup⟩
  · intro other a
    exact Nat.le_trans ((hsub other).count_le _) (hdistinct.waiting_once other a)
  · intro left right a hleft hright
    exact hdistinct.waiting_apart left right a ((hsub left).subset hleft)
      ((hsub right).subset hright)
  · intro other a ha
    exact hdistinct.waiting_dequeued other a ((hsub other).subset ha)

theorem distribute (hdistinct : Distinct t) {item : α} (worker : ι)
    (targets : List π) (hfront : t.waiting source = some item :: rest) :
    Distinct (t.distribute worker source item rest targets) := by
  have hpop := hdistinct.pop hfront
  have hhead : some item ∈ t.waiting source := by
    rw [hfront]
    exact List.mem_cons_self
  -- the taken item was only at the front of its source
  have hgone : ∀ other, some item ∉ (t.discard source rest).waiting other := by
    intro other hmem
    by_cases hother : other = source
    · subst hother
      have honce := hdistinct.waiting_once other item
      have hrest : some item ∈ rest := by
        simpa [Traffic.discard] using hmem
      rw [hfront, List.count_cons_self] at honce
      have := List.count_pos_iff.mpr hrest
      omega
    · have hmem' : some item ∈ t.waiting other := by
        simpa [Traffic.discard, hother] using hmem
      exact hother (hdistinct.waiting_apart other source item hmem' hhead)
  refine ⟨hpop.waiting_once, hpop.waiting_apart, ?_, ?_⟩
  · intro other a ha taken htaken
    rcases List.mem_append.mp htaken with hold | hnew
    · exact hpop.waiting_dequeued other a ha taken hold
    · rw [List.mem_singleton.mp hnew]
      rintro rfl
      exact hgone other ha
  · have happend : (t.distribute worker source item rest targets).dequeued.map
        Taken.item = t.dequeued.map Taken.item ++ [item] := by
      simp [Traffic.distribute]
    rw [happend]
    refine List.nodup_append.mpr ⟨hdistinct.dequeued_nodup, List.nodup_singleton _, ?_⟩
    intro a ha b hb
    obtain ⟨taken, htaken, rfl⟩ := List.mem_map.mp ha
    rw [List.mem_singleton.mp hb]
    exact hdistinct.waiting_dequeued source item hhead taken htaken

end Distinct

namespace Runs

variable {ok : Traffic ι σ π α → ι → List π → Prop} {t : Traffic ι σ π α}

theorem distinct (hruns : Runs ok t) : Distinct t := by
  induction hruns with
  | initial =>
      constructor <;> simp [Traffic.initial]
  | enqueue _ source item hfresh ih => exact ih.enqueue source item hfresh
  | discard _ hfront ih => exact ih.pop hfront
  | distribute _ _ _ hfront ih => exact ih.distribute _ _ hfront
  | emit _ _ ih =>
      exact ⟨ih.waiting_once, ih.waiting_apart, ih.waiting_dequeued,
        ih.dequeued_nodup⟩

end Runs

/-- The jobs of one item: one for each target. -/
theorem count_jobs {targets : List π} (hnodup : targets.Nodup) (item a : α)
    (target : π) :
    (targets.map fun other => (item, other)).count (a, target) =
      if item = a ∧ target ∈ targets then 1 else 0 := by
  induction targets with
  | nil => simp
  | cons first rest ih =>
      obtain ⟨hfirst, hrest⟩ := List.nodup_cons.mp hnodup
      rw [List.map_cons, List.count_cons, ih hrest]
      by_cases hitem : item = a
      · subst hitem
        by_cases htarget : first = target
        · subst htarget
          simp [hfirst]
        · simp [htarget, Ne.symm htarget]
      · simp [hitem]

theorem itemsFor_append (target : π) (front back : List (α × π)) :
    itemsFor target (front ++ back) = itemsFor target front ++ itemsFor target back := by
  simp [itemsFor]

theorem itemsFor_cons (target : π) (job : α × π) (rest : List (α × π)) :
    itemsFor target (job :: rest) = itemsFor target [job] ++ itemsFor target rest :=
  itemsFor_append target [job] rest

theorem itemsFor_jobs {targets : List π} (hnodup : targets.Nodup) (item : α)
    (target : π) :
    itemsFor target (targets.map fun other => (item, other)) =
      if target ∈ targets then [item] else [] := by
  induction targets with
  | nil => simp [itemsFor]
  | cons first rest ih =>
      obtain ⟨hfirst, hrest⟩ := List.nodup_cons.mp hnodup
      rw [List.map_cons, itemsFor_cons, ih hrest]
      by_cases htarget : first = target
      · subst htarget
        simp [itemsFor, hfirst]
      · simp [itemsFor, htarget, Ne.symm htarget]

theorem count_itemsFor (target : π) (jobs : List (α × π)) (a : α) :
    (itemsFor target jobs).count a = jobs.count (a, target) := by
  rw [itemsFor, List.count, List.countP_map, List.countP_filter, List.count]
  apply List.countP_congr
  intro job _
  simp [Prod.ext_iff]

theorem count_dequeuedFor (t : Traffic ι σ π α) (target : π) (a : α) :
    (t.dequeuedFor target).count a =
      t.dequeued.countP fun taken => taken.item = a ∧ target ∈ taken.targets := by
  rw [dequeuedFor, List.count, List.countP_map, List.countP_filter]
  apply List.countP_congr
  intro taken _
  simp

theorem emittedFor_emit (t : Traffic ι σ π α) (worker : ι) (job : α × π)
    (rest : List (α × π)) (target : π) :
    (t.emit worker job rest).emittedFor target =
      t.emittedFor target ++ itemsFor target [job] := by
  simp [emittedFor, Traffic.emit, itemsFor_append]

theorem emittedBy_emit (t : Traffic ι σ π α) (emitter worker : ι) (job : α × π)
    (rest : List (α × π)) (target : π) :
    (t.emit emitter job rest).emittedBy worker target =
      t.emittedBy worker target ++
        if emitter = worker then itemsFor target [job] else [] := by
  by_cases hworker : emitter = worker
  · simp [emittedBy, Traffic.emit, itemsFor_append, hworker]
  · simp [emittedBy, Traffic.emit, hworker]

theorem dequeuedFor_distribute (t : Traffic ι σ π α) (worker : ι) (source : σ)
    (item : α) (rest : List (Option α)) (targets : List π) (target : π) :
    (t.distribute worker source item rest targets).dequeuedFor target =
      t.dequeuedFor target ++ if target ∈ targets then [item] else [] := by
  by_cases htarget : target ∈ targets
  · simp [dequeuedFor, Traffic.distribute, htarget]
  · simp [dequeuedFor, Traffic.distribute, htarget]

namespace Runs

variable {ok : Traffic ι σ π α → ι → List π → Prop} {t : Traffic ι σ π α}

/-- Conservation: a job is queued or emitted as often as it was taken. -/
theorem conserved [Fintype ι] (hruns : Runs ok t) (a : α) (target : π) :
    total t.queued (· == (a, target)) +
        (t.emitted.map Prod.snd).count (a, target) =
      t.dequeued.countP fun taken => taken.item = a ∧ target ∈ taken.targets := by
  induction hruns with
  | initial => simp [Traffic.initial, total]
  | enqueue _ _ _ _ ih => exact ih
  | discard _ _ ih => exact ih
  | @distribute t worker source item rest targets _ _ hnodup _ ih =>
      have hqueued := total_update t.queued (· == (a, target)) worker
        (t.queued worker ++ targets.map fun other => (item, other))
      have hjobs := count_jobs hnodup item a target
      rw [List.countP_append] at hqueued
      rw [List.count] at hjobs
      simp only [Traffic.distribute, List.countP_append, List.countP_singleton,
        decide_eq_true_eq]
      omega
  | @emit t worker job rest _ hqueue ih =>
      have hqueued := total_update t.queued (· == (a, target)) worker rest
      rw [hqueue, List.countP_cons] at hqueued
      simp only [Traffic.emit, List.map_append, List.map_cons, List.map_nil,
        List.count_append, List.count_singleton]
      omega

/-- A job of a taken item is queued once at one worker, or emitted once. -/
theorem accounted [Fintype ι] (hruns : Runs ok t) {taken : Taken σ π α}
    (htaken : taken ∈ t.dequeued) {target : π} (htarget : target ∈ taken.targets) :
    (∃ worker, (t.queued worker).count (taken.item, target) = 1 ∧
        (∀ other, other ≠ worker → (t.queued other).count (taken.item, target) = 0) ∧
        (t.emitted.map Prod.snd).count (taken.item, target) = 0) ∨
      ((∀ worker, (t.queued worker).count (taken.item, target) = 0) ∧
        (t.emitted.map Prod.snd).count (taken.item, target) = 1) := by
  have hconserved := hruns.conserved taken.item target
  have hle : t.dequeued.countP (fun other => other.item = taken.item ∧
      target ∈ other.targets) ≤ (t.dequeued.map Taken.item).count taken.item := by
    rw [List.count, List.countP_map]
    apply List.countP_mono_left
    intro other _ hother
    simpa using (of_decide_eq_true hother).1
  have honce : (t.dequeued.map Taken.item).count taken.item ≤ 1 :=
    List.nodup_iff_count_le_one.mp hruns.distinct.dequeued_nodup _
  have hpos : 0 < t.dequeued.countP (fun other => other.item = taken.item ∧
      target ∈ other.targets) :=
    List.countP_pos_iff.mpr ⟨taken, htaken, by simpa using htarget⟩
  by_cases hemitted : (t.emitted.map Prod.snd).count (taken.item, target) = 0
  · obtain ⟨worker, hworker, hother⟩ := total_eq_one
      (show total t.queued (· == (taken.item, target)) = 1 by omega)
    exact Or.inl ⟨worker, hworker, hother, hemitted⟩
  · refine Or.inr ⟨fun worker => ?_, by omega⟩
    have hqueued := countP_le_total t.queued (· == (taken.item, target)) worker
    rw [List.count]
    omega

/-- Each worker handles the items of a target in the order they were taken. -/
theorem handled_sublist (hruns : Runs ok t) (worker : ι) (target : π) :
    (t.emittedBy worker target ++ itemsFor target (t.queued worker)).Sublist
      (t.dequeuedFor target) := by
  induction hruns with
  | initial => simp [emittedBy, itemsFor, Traffic.initial]
  | enqueue _ _ _ _ ih => exact ih
  | discard _ _ ih => exact ih
  | @distribute t taker source item rest targets _ _ hnodup _ ih =>
      rw [dequeuedFor_distribute]
      by_cases hworker : worker = taker
      · subst hworker
        simp only [Traffic.distribute, Function.update_self, itemsFor_append,
          itemsFor_jobs hnodup, ← List.append_assoc]
        exact ih.append (List.Sublist.refl _)
      · simp only [Traffic.distribute, Function.update_of_ne hworker]
        exact ih.trans (List.sublist_append_left _ _)
  | @emit t emitter job rest _ hqueue ih =>
      change ((t.emit emitter job rest).emittedBy worker target ++
        itemsFor target (Function.update t.queued emitter rest worker)).Sublist
          (t.dequeuedFor target)
      rw [emittedBy_emit]
      by_cases hworker : worker = emitter
      · subst hworker
        rw [hqueue, itemsFor_cons] at ih
        rwa [if_pos rfl, Function.update_self, List.append_assoc]
      · rwa [if_neg (Ne.symm hworker), Function.update_of_ne hworker, List.append_nil]

theorem emittedBy_sublist (hruns : Runs ok t) (worker : ι) (target : π) :
    (t.emittedBy worker target).Sublist (t.dequeuedFor target) :=
  (List.sublist_append_left _ _).trans (hruns.handled_sublist worker target)

end Runs

/-- One worker at a time has jobs for the target, and what has been emitted
continues with that worker's queue. -/
structure InOrder (t : Traffic ι σ π α) (target : π) : Prop where
  emitted : (t.emittedFor target).Sublist (t.dequeuedFor target)
  handled : ∀ worker,
    (t.emittedFor target ++ itemsFor target (t.queued worker)).Sublist
      (t.dequeuedFor target)
  single : ∀ worker other, worker ≠ other →
    itemsFor target (t.queued worker) = [] ∨ itemsFor target (t.queued other) = []

namespace InOrder

variable {t : Traffic ι σ π α} {target : π}

theorem distribute (horder : InOrder t target) {worker : ι} {source : σ}
    {item : α} {rest : List (Option α)} {targets : List π}
    (hexclusive : Exclusive t worker targets) (hnodup : targets.Nodup) :
    InOrder (t.distribute worker source item rest targets) target := by
  have hself : itemsFor target
      ((t.distribute worker source item rest targets).queued worker) =
      itemsFor target (t.queued worker) ++ if target ∈ targets then [item] else [] := by
    simp only [Traffic.distribute, Function.update_self, itemsFor_append,
      itemsFor_jobs hnodup]
  have hother : ∀ other, other ≠ worker →
      (t.distribute worker source item rest targets).queued other = t.queued other :=
    fun other hne => Function.update_of_ne hne _ _
  have hnone : target ∈ targets → ∀ other, other ≠ worker →
      itemsFor target (t.queued other) = [] := by
    intro htarget other hne
    simp only [itemsFor, List.map_eq_nil_iff, List.filter_eq_nil_iff, decide_eq_true_eq]
    rintro job hjob rfl
    exact hexclusive other hne job hjob htarget
  have hprefix : (t.dequeuedFor target).Sublist
      ((t.distribute worker source item rest targets).dequeuedFor target) := by
    rw [dequeuedFor_distribute]
    exact List.sublist_append_left _ _
  refine ⟨horder.emitted.trans hprefix, ?_, ?_⟩
  · intro w
    by_cases hw : w = worker
    · subst hw
      rw [hself, dequeuedFor_distribute, ← List.append_assoc]
      exact (horder.handled w).append (List.Sublist.refl _)
    · rw [hother w hw]
      exact (horder.handled w).trans hprefix
  · intro left right hne
    by_cases htarget : target ∈ targets
    · by_cases hleft : left = worker
      · right
        rw [hother right (fun hright => hne (hleft.trans hright.symm))]
        exact hnone htarget right fun hright => hne (hleft.trans hright.symm)
      · left
        rw [hother left hleft]
        exact hnone htarget left hleft
    · have hsame : ∀ w, itemsFor target
          ((t.distribute worker source item rest targets).queued w) =
          itemsFor target (t.queued w) := by
        intro w
        by_cases hw : w = worker
        · rw [hw, hself, if_neg htarget, List.append_nil]
        · rw [hother w hw]
      rw [hsame, hsame]
      exact horder.single left right hne

theorem emit (horder : InOrder t target) {worker : ι} {job : α × π}
    {rest : List (α × π)} (hqueue : t.queued worker = job :: rest) :
    InOrder (t.emit worker job rest) target := by
  have hother : ∀ other, other ≠ worker →
      (t.emit worker job rest).queued other = t.queued other :=
    fun other hne => Function.update_of_ne hne _ _
  have hself : (t.emit worker job rest).queued worker = rest :=
    Function.update_self _ _ _
  have hworker := horder.handled worker
  rw [hqueue, itemsFor_cons, ← List.append_assoc] at hworker
  have hemitted : ((t.emit worker job rest).emittedFor target).Sublist
      (t.dequeuedFor target) := by
    rw [emittedFor_emit]
    exact (List.sublist_append_left _ _).trans hworker
  refine ⟨hemitted, ?_, ?_⟩
  · intro w
    change ((t.emit worker job rest).emittedFor target ++ _).Sublist
      (t.dequeuedFor target)
    by_cases hw : w = worker
    · rw [hw, hself, emittedFor_emit]
      exact hworker
    · rw [hother w hw]
      -- either this worker has nothing for the target, or the job is not for it
      rcases horder.single w worker hw with hnone | hnone
      · rw [hnone, List.append_nil]
        exact hemitted
      · rw [hqueue, itemsFor_cons, List.append_eq_nil_iff] at hnone
        rw [emittedFor_emit, hnone.1, List.append_nil]
        exact horder.handled w
  · intro left right hne
    have hsub : ∀ w, itemsFor target (t.queued w) = [] →
        itemsFor target ((t.emit worker job rest).queued w) = [] := by
      intro w hnone
      by_cases hw : w = worker
      · subst hw
        rw [hqueue, itemsFor_cons, List.append_eq_nil_iff] at hnone
        rw [hself]
        exact hnone.2
      · rwa [hother w hw]
    exact (horder.single left right hne).imp (hsub left) (hsub right)

end InOrder

/-- If a worker only takes items while no other worker has jobs for the same
targets, the items of each target are emitted in the order they were taken. -/
theorem Runs.inOrder {t : Traffic ι σ π α} (hruns : Runs Exclusive t)
    (target : π) : InOrder t target := by
  induction hruns with
  | initial =>
      constructor <;> simp [emittedFor, itemsFor, Traffic.initial]
  | enqueue _ _ _ _ ih => exact ⟨ih.emitted, ih.handled, ih.single⟩
  | discard _ _ ih => exact ⟨ih.emitted, ih.handled, ih.single⟩
  | distribute _ hexclusive hnodup _ ih => exact ih.distribute hexclusive hnodup
  | emit _ hqueue ih => exact ih.emit hqueue

/-- A single worker emits the items of each target in the order they were
taken, and its queue continues that order. -/
theorem Runs.single_worker [Subsingleton ι] {ok : Traffic ι σ π α → ι → List π → Prop}
    {t : Traffic ι σ π α} (hruns : Runs ok t) (worker : ι) (target : π) :
    t.emittedFor target ++ itemsFor target (t.queued worker) = t.dequeuedFor target := by
  induction hruns with
  | initial => simp [emittedFor, dequeuedFor, itemsFor, Traffic.initial]
  | enqueue _ _ _ _ ih => exact ih
  | discard _ _ ih => exact ih
  | @distribute t taker source item rest targets _ _ hnodup _ ih =>
      obtain rfl : worker = taker := Subsingleton.elim _ _
      rw [dequeuedFor_distribute, ← ih]
      simp only [Traffic.distribute, Function.update_self, itemsFor_append,
        itemsFor_jobs hnodup, List.append_assoc]
      rfl
  | @emit t emitter job rest _ hqueue ih =>
      obtain rfl : worker = emitter := Subsingleton.elim _ _
      change (t.emit worker job rest).emittedFor target ++
        itemsFor target (Function.update t.queued worker rest worker) = t.dequeuedFor target
      rw [emittedFor_emit, Function.update_self, ← ih, hqueue, itemsFor_cons target job rest,
        List.append_assoc]

namespace Traffic

/-- The items taken from a source, in order. -/
def takenFrom (t : Traffic ι σ π α) (source : σ) : List α :=
  (t.dequeued.filter fun taken => taken.source = source).map Taken.item

/-- The items that came to a source: those taken from it and those that
wait. -/
def arrivedAt (t : Traffic ι σ π α) (source : σ) : List α :=
  t.takenFrom source ++ (t.waiting source).filterMap id

theorem arrivedAt_enqueue (t : Traffic ι σ π α) (source : σ) (item : Option α)
    (other : σ) :
    (t.enqueue source item).arrivedAt other =
      t.arrivedAt other ++ if source = other then item.toList else [] := by
  by_cases hother : source = other
  · subst hother
    cases item <;> simp [arrivedAt, takenFrom, Traffic.enqueue]
  · simp [arrivedAt, takenFrom, Traffic.enqueue, hother, Ne.symm hother]

theorem arrivedAt_discard {t : Traffic ι σ π α} {source : σ} {rest : List (Option α)}
    (hfront : t.waiting source = none :: rest) (other : σ) :
    (t.discard source rest).arrivedAt other = t.arrivedAt other := by
  by_cases hother : other = source
  · subst hother
    simp [arrivedAt, takenFrom, Traffic.discard, hfront]
  · simp [arrivedAt, takenFrom, Traffic.discard, hother]

theorem arrivedAt_distribute {t : Traffic ι σ π α} {source : σ} {item : α}
    {rest : List (Option α)} (hfront : t.waiting source = some item :: rest)
    (worker : ι) (targets : List π) (other : σ) :
    (t.distribute worker source item rest targets).arrivedAt other =
      t.arrivedAt other := by
  by_cases hother : other = source
  · subst hother
    simp [arrivedAt, takenFrom, Traffic.distribute, hfront]
  · simp [arrivedAt, takenFrom, Traffic.distribute, hother, Ne.symm hother]

end Traffic

end Dispatch
