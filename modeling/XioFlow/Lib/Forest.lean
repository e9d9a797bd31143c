/-
  XioFlow.Lib.Forest

  Forests that grow one member at a time, each with the parent it came under.

  The members stand newest first, so a parent stands behind its children and
  the way up ends by structural recursion.  The way down goes generation by
  generation.
-/

import Mathlib.Data.List.Basic

namespace XioFlow.Lib

variable {α : Type}

/-- The members with their parents, the last first. -/
abbrev Forest (α : Type) : Type := List (α × Option α)

namespace Forest

def members (f : Forest α) : List α := f.map Prod.fst

variable [DecidableEq α]

/-- A member and those above it, in order. -/
def ancestry : Forest α → α → List α
  | [], _ => []
  | (member, parent) :: older, a =>
    if member = a then
      member :: match parent with
        | some p => ancestry older p
        | none => []
    else ancestry older a

/-- The member at the top. -/
def root (f : Forest α) (a : α) : α := (ancestry f a).getLast?.getD a

/-- The members directly below, the first first. -/
def children (f : Forest α) (a : α) : List α :=
  (f.reverse.filter fun member => member.2 = some a).map Prod.fst

/-- The members of a level and of `n - 1` generations below it. -/
def generations (f : Forest α) : Nat → List α → List α
  | 0, _ => []
  | n + 1, level => level ++ generations f n (level.flatMap (children f))

/-- A member and all below it, generation by generation. -/
def scope (f : Forest α) (a : α) : List α := generations f f.length [a]

end Forest
end XioFlow.Lib
