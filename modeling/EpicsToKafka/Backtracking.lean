/-
Backtracking regular expressions with capture groups, as ECMAScript defines
them: a repetition is greedy, the alternatives of a choice are tried from left
to right, and the first way that consumes the whole word is the match.  A
pattern denotes the list of its ways to match the front of a word, in the
order in which they are tried.
-/
import Mathlib.Data.List.Basic

namespace Backtracking

universe u

inductive Pattern (α : Type u) where
  | empty
  | one (accepts : α → Bool)
  | seq (first second : Pattern α)
  | alt (first second : Pattern α)
  | star (body : Pattern α)
  | group (index : Nat) (body : Pattern α)

/-- What the groups have captured, in the order in which they were closed. -/
abbrev Captures (α : Type u) := List (Nat × List α)

/-- One way to match: the captures and the rest of the word. -/
abbrev Way (α : Type u) := Captures α × List α

variable {α : Type u}

/-- Greedy repetition.  A round that consumes nothing is given up, so a word
bounds the number of rounds by its length. -/
def rounds (body : List α → List (Way α)) : Nat → List α → List (Way α)
  | 0, word => [([], word)]
  | bound + 1, word =>
      (((body word).filter fun way => way.2.length < word.length).flatMap fun way =>
        (rounds body bound way.2).map fun next => (way.1 ++ next.1, next.2)) ++
          [([], word)]

namespace Pattern

def ways : Pattern α → List α → List (Way α)
  | .empty, word => [([], word)]
  | .one _, [] => []
  | .one accepts, symbol :: word => if accepts symbol then [([], word)] else []
  | .seq first second, word =>
      (first.ways word).flatMap fun way =>
        (second.ways way.2).map fun next => (way.1 ++ next.1, next.2)
  | .alt first second, word => first.ways word ++ second.ways word
  | .star body, word => rounds body.ways word.length word
  | .group index body, word =>
      (body.ways word).map fun way =>
        (way.1 ++ [(index, word.take (word.length - way.2.length))], way.2)

def plus (body : Pattern α) : Pattern α :=
  .seq body (.star body)

def opt (body : Pattern α) : Pattern α :=
  .alt body .empty

def literal [DecidableEq α] : List α → Pattern α
  | [] => .empty
  | symbol :: word => .seq (.one (· = symbol)) (literal word)

/-- The captures of the match of a whole word. -/
def fullMatch (pattern : Pattern α) (word : List α) : Option (Captures α) :=
  ((pattern.ways word).find? fun way => way.2.isEmpty).map Prod.fst

end Pattern

/-- The text of a group; a group in a repetition keeps its last text. -/
def Captures.submatch (captures : Captures α) (index : Nat) : Option (List α) :=
  captures.reverse.lookup index

end Backtracking
