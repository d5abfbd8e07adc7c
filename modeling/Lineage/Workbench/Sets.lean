import Lineage.Category

/-!
# Changing category sets

A set of categories is changed step by step from the empty set, and every set on the way is compared
with those before it.
-/

namespace Lineage.Workbench

inductive SetStep where
  | clear
  | single (c : Category)
  | insert (c : Category)
  | collect (cs : List Category)
  deriving DecidableEq, Repr

namespace SetStep

def apply (s : CategorySet) : SetStep → CategorySet
  | clear => .empty
  | single c => .single c
  | insert c => s.insert c
  | collect cs => .ofList cs

/-- The set after each step, with the place of the first equal set in `earlier` and those that were
    added to it. -/
def trail (earlier : List CategorySet) (s : CategorySet) :
    List SetStep → List (CategorySet × Option Nat)
  | [] => []
  | step :: rest =>
      let s := step.apply s
      (s, earlier.findIdx? (· = s)) :: trail (earlier ++ [s]) s rest

end SetStep

end Lineage.Workbench
