import Lineage.Node.Slice

/-!
# Outlines

The graph below a node as indented text, for people. Nodes are numbered by first appearance; a node
met again is a reference back to its number, so that shared origins are written once. A depth limit
replaces the origins of the nodes at that depth by their count.
-/

namespace Lineage.Node

variable {V : Type}

/-- One line of an outline. -/
inductive OutlineLine where
  /-- A node met for the first time. -/
  | full (depth ordinal : Nat) (header : String)
  /-- A node met before. -/
  | back (depth ordinal : Nat)
  /-- The origins that the depth limit leaves out. -/
  | elided (depth count : Nat)
  deriving DecidableEq, Repr

namespace OutlineLine

def indent (depth : Nat) : String := String.ofList (List.replicate (2 * depth) ' ')

def text : OutlineLine → String
  | full depth ordinal header => s!"{indent depth}[{ordinal}] {header}"
  | back depth ordinal => s!"{indent depth}^[{ordinal}]"
  | elided depth count => s!"{indent depth}  ... {count} origin(s)"

end OutlineLine

/-- The ordinal of a node among the numbers seen so far, the first seen standing last. -/
def ordinal? (seen : List Nat) (seq : Nat) : Option Nat :=
  match seen with
  | [] => none
  | s :: older => if s = seq then some (older.length + 1) else ordinal? older seq

/-- The lines of the pending nodes, each with its depth, after the nodes numbered `seen`. -/
def outlineLines (inspect : V → String) (limit : Option Nat) (seen : List Nat) :
    List (Node V × Nat) → List OutlineLine
  | [] => []
  | (node, depth) :: rest =>
      match ordinal? seen node.seq with
      | some ordinal => .back depth ordinal :: outlineLines inspect limit seen rest
      | none =>
          let line := OutlineLine.full depth (seen.length + 1) (node.header inspect)
          let seen := node.seq :: seen
          if node.origins.isEmpty then line :: outlineLines inspect limit seen rest
          else if limit.any (· ≤ depth) then
            line :: .elided depth node.origins.length :: outlineLines inspect limit seen rest
          else
            line :: outlineLines inspect limit seen (node.origins.map (·, depth + 1) ++ rest)
  termination_by work => sizeOf (work.map Prod.fst)
  decreasing_by
    · simp only [List.map_cons, List.cons.sizeOf_spec]; omega
    · simp only [List.map_cons, List.cons.sizeOf_spec]; omega
    · simp only [List.map_cons, List.cons.sizeOf_spec]; omega
    · have := sizeOf_expand_lt node (rest.map Prod.fst)
      simpa [Function.comp_def] using this

/-- The graph below `node`, one line per visit, down to the depth `limit` if one is given. -/
def outline (inspect : V → String) (limit : Option Nat) (node : Node V) : String :=
  String.join ((outlineLines inspect limit [] [(node, 0)]).map fun line => line.text ++ "\n")

end Lineage.Node
