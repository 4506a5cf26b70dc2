/-
Lists that are collected element by element, where an element is dropped if
one with the same key is already there.
-/
import Mathlib.Data.List.Induction
import Mathlib.Data.List.Nodup

namespace Distinct

universe u v

variable {α : Type u} {κ : Type v} [DecidableEq κ] (key : α → κ)

/-- Append an element unless one with its key is there. -/
def add (kept : List α) (x : α) : List α :=
  if kept.any fun y => key x = key y then kept else kept ++ [x]

/-- The elements that are not dropped. -/
def collect (elements : List α) : List α :=
  elements.foldl (add key) []

variable {key}

variable [DecidableEq α]

end Distinct
