/-
Facts about threads that share locks and own private queues: exclusive locks
as a correspondence with a critical section, totals of a count over all
private queues, and queues in which one tagged element stands for a batch.
-/
import Mathlib.Algebra.BigOperators.Group.Finset.Basic
import Mathlib.Algebra.BigOperators.Group.Finset.Piecewise
import Mathlib.Algebra.Order.BigOperators.Group.Finset

namespace Threads

universe u v

variable {ι : Type u}

/-- The lock is held by exactly the thread that is inside the section. -/
def Guards (lock : Option ι) (inside : ι → Prop) : Prop :=
  ∀ thread, lock = some thread ↔ inside thread

namespace Guards

variable {lock : Option ι} {inside inside' : ι → Prop} {thread other : ι}

theorem frame (hguards : Guards lock inside)
    (hsame : ∀ thread, inside' thread ↔ inside thread) : Guards lock inside' :=
  fun thread => (hguards thread).trans (hsame thread).symm

theorem acquire (hguards : Guards none inside) (henter : inside' thread)
    (hother : ∀ other, other ≠ thread → (inside' other ↔ inside other)) :
    Guards (some thread) inside' := by
  intro other
  by_cases heq : other = thread
  · subst heq
    simpa using henter
  · have hout : ¬ inside other := by simpa using (hguards other).not
    simp [hother other heq, hout, Ne.symm heq]

theorem release (hguards : Guards (some thread) inside)
    (hleave : ¬ inside' thread)
    (hother : ∀ other, other ≠ thread → (inside' other ↔ inside other)) :
    Guards none inside' := by
  intro other
  by_cases heq : other = thread
  · subst heq
    simpa using hleave
  · have hout : ¬ inside other := by
      rw [← hguards other]
      simpa using Ne.symm heq
    simp [hother other heq, hout]

theorem exclusive (hguards : Guards lock inside) (hthread : inside thread)
    (hother : inside other) : thread = other :=
  Option.some.inj (((hguards thread).mpr hthread).symm.trans
    ((hguards other).mpr hother))

end Guards

section Totals

variable [Fintype ι] {α : Type v}

/-- How many elements of all private queues satisfy `p`. -/
def total (queues : ι → List α) (p : α → Bool) : Nat :=
  ∑ thread, (queues thread).countP p

theorem total_update [DecidableEq ι] (queues : ι → List α) (p : α → Bool) (thread : ι)
    (queue : List α) :
    total (Function.update queues thread queue) p + (queues thread).countP p =
      total queues p + queue.countP p := by
  have hold := Finset.add_sum_erase Finset.univ
    (fun other => (queues other).countP p) (Finset.mem_univ thread)
  have hnew := Finset.add_sum_erase Finset.univ
    (fun other => (Function.update queues thread queue other).countP p)
    (Finset.mem_univ thread)
  have hrest : ∑ other ∈ Finset.univ.erase thread,
      (Function.update queues thread queue other).countP p =
      ∑ other ∈ Finset.univ.erase thread, (queues other).countP p := by
    apply Finset.sum_congr rfl
    intro other hother
    rw [Function.update_of_ne (Finset.ne_of_mem_erase hother)]
  simp only [Function.update_self] at hnew
  unfold total
  omega

theorem countP_le_total (queues : ι → List α) (p : α → Bool) (thread : ι) :
    (queues thread).countP p ≤ total queues p :=
  Finset.single_le_sum (f := fun other => (queues other).countP p)
    (fun _ _ => Nat.zero_le _) (Finset.mem_univ thread)

theorem total_eq_zero_iff (queues : ι → List α) (p : α → Bool) :
    total queues p = 0 ↔ ∀ thread, ∀ a ∈ queues thread, ¬ p a = true := by
  simp [total, List.countP_eq_zero]

/-- A single element sits in a single queue. -/
theorem total_eq_one [DecidableEq ι] {queues : ι → List α} {p : α → Bool}
    (hone : total queues p = 1) :
    ∃ thread, (queues thread).countP p = 1 ∧
      ∀ other, other ≠ thread → (queues other).countP p = 0 := by
  have hsome : ∃ thread, (queues thread).countP p ≠ 0 := by
    by_contra hnone
    simp only [not_exists, not_not] at hnone
    simp [total, hnone] at hone
  obtain ⟨thread, hthread⟩ := hsome
  have hle := countP_le_total queues p thread
  have hrest := total_update queues p thread []
  rw [List.countP_nil] at hrest
  refine ⟨thread, by omega, fun other hother => ?_⟩
  have hother' := countP_le_total (Function.update queues thread []) p other
  rw [Function.update_of_ne hother] at hother'
  omega

theorem total_append (front back : ι → List α) (p : α → Bool) :
    total (fun thread => front thread ++ back thread) p = total front p + total back p := by
  simp only [total, List.countP_append, Finset.sum_add_distrib]

/-- Elements sorted by the thread they belong to are still counted once. -/
theorem total_filter [DecidableEq ι] {β : Type v} (elements : List β) (owner : β → ι)
    (f : β → α) (p : α → Bool) :
    total (fun thread => (elements.filter fun b => owner b = thread).map f) p =
      (elements.map f).countP p := by
  induction elements with
  | nil => simp [total]
  | cons b rest ih =>
      have hqueues : (fun thread => ((b :: rest).filter fun b => owner b = thread).map f) =
          Function.update (fun thread => (rest.filter fun b => owner b = thread).map f)
            (owner b) (f b :: (rest.filter fun c => owner c = owner b).map f) := by
        funext thread
        by_cases hthread : thread = owner b
        · subst hthread
          simp
        · simp [hthread, Ne.symm hthread]
      have hupdate := total_update
        (fun thread => (rest.filter fun b => owner b = thread).map f) p (owner b)
        (f b :: (rest.filter fun c => owner c = owner b).map f)
      rw [hqueues, List.map_cons, List.countP_cons]
      rw [ih, List.countP_cons] at hupdate
      omega

/-- How many threads stand at a place that satisfies `p`. -/
def occupants (place : ι → α) (p : α → Bool) : Nat :=
  total (fun thread => [place thread]) p

theorem occupants_update [DecidableEq ι] (place : ι → α) (p : α → Bool) (thread : ι)
    (next : α) :
    occupants (Function.update place thread next) p + [place thread].countP p =
      occupants place p + [next].countP p := by
  have hlists : (fun other => [Function.update place thread next other]) =
      Function.update (fun other => [place other]) thread [next] := by
    funext other
    by_cases hother : other = thread
    · rw [hother, Function.update_self, Function.update_self]
    · rw [Function.update_of_ne hother, Function.update_of_ne hother]
  rw [occupants, hlists]
  exact total_update _ p thread [next]

theorem occupants_eq_zero {place : ι → α} {p : α → Bool}
    (hnone : ∀ thread, p (place thread) = false) : occupants place p = 0 := by
  rw [occupants, total_eq_zero_iff]
  intro thread a ha
  simp [List.mem_singleton.mp ha, hnone thread]

end Totals

section Covering

variable {α : Type v} (hit tag : α → Bool)

/-- Every hit in the queue is tagged or has a tagged hit behind it, so the
last hit stands for all of them. -/
def Covered : List α → Prop
  | [] => True
  | a :: rest =>
      (hit a = true → ∃ b ∈ a :: rest, hit b = true ∧ tag b = true) ∧ Covered rest

variable {hit tag}

theorem Covered.of_no_hit {queue : List α} (hnone : ∀ a ∈ queue, hit a = false) :
    Covered hit tag queue := by
  induction queue with
  | nil => trivial
  | cons a rest ih =>
      constructor
      · intro hhit
        simp [hnone a List.mem_cons_self] at hhit
      · exact ih fun b hb => hnone b (List.mem_cons_of_mem a hb)

theorem Covered.of_all_tagged {queue : List α} (htagged : ∀ a ∈ queue, tag a = true) :
    Covered hit tag queue := by
  induction queue with
  | nil => trivial
  | cons a rest ih =>
      constructor
      · intro hhit
        exact ⟨a, List.mem_cons_self, hhit, htagged a List.mem_cons_self⟩
      · exact ih fun b hb => htagged b (List.mem_cons_of_mem a hb)

theorem Covered.append {front back : List α} (hfront : Covered hit tag front)
    (hback : Covered hit tag back) : Covered hit tag (front ++ back) := by
  induction front with
  | nil => exact hback
  | cons a rest ih =>
      constructor
      · intro hhit
        obtain ⟨b, hb, hhitb, htagb⟩ := hfront.1 hhit
        exact ⟨b, List.mem_append_left back hb, hhitb, htagb⟩
      · exact ih hfront.2

/-- A tagged hit at the back covers whatever stands in front of it. -/
theorem Covered.append_of_tagged {back : List α} (front : List α)
    (hback : Covered hit tag back)
    (hlast : ∃ b ∈ back, hit b = true ∧ tag b = true) :
    Covered hit tag (front ++ back) := by
  induction front with
  | nil => exact hback
  | cons a rest ih =>
      constructor
      · intro _
        obtain ⟨b, hb, hhitb, htagb⟩ := hlast
        exact ⟨b, List.mem_append_right (a :: rest) hb, hhitb, htagb⟩
      · exact ih

end Covering

end Threads
