import Lineage.Fault
import Lineage.Text.Quoted

/-!
# Provenance nodes

A node records which syntax site produced a value, the value, and the nodes it was computed from.
Nodes are numbered in the order in which they are made, and a node can only be made from nodes that
exist already; the number is the identity of the node.
-/

namespace Lineage

/-- The syntax site that produced a node. -/
structure Creator where
  site : SiteId
  label : String
  deriving DecidableEq, Repr

namespace Creator

def text (creator : Creator) : String := creator.site.text ++ " " ++ creator.label

end Creator

/-- One node of the provenance graph. An absent creator or value is an unknown one. -/
structure Node (V : Type) where
  seq : Nat
  creator : Option Creator
  value : Option V
  origins : List (Node V)

namespace Node

variable {V : Type}

/-- A node of which nothing is known but that it exists. -/
def unknown (seq : Nat) : Node V := ⟨seq, none, none, []⟩

/-- Neither creator nor value is known. -/
def isUnknown (node : Node V) : Bool := node.creator.isNone && node.value.isNone

def creatorText (node : Node V) : String := (node.creator.map Creator.text).getD "<unknown>"

/-- The value, shown by `inspect`. -/
def valueText (inspect : V → String) (node : Node V) : String :=
  (node.value.map inspect).getD "<unknown>"

/-- What stands beside the node's number wherever a graph is written out. -/
def header (inspect : V → String) (node : Node V) : String :=
  node.creatorText ++ " = " ++ node.valueText inspect

/-- Nodes are the same if they have the same number. -/
def isSame (a b : Node V) : Bool := a.seq == b.seq

/-- The node in one line, with its origins by number. -/
def describe (inspect : V → String) (node : Node V) : String :=
  let creator := match node.creator with
    | some c => s!"Site \x7b id: SiteId({c.site.number}), label: {Text.quote c.label} \x7d"
    | none => "Unknown"
  let value := match node.value with
    | some v => s!"Known({inspect v})"
    | none => "Unknown"
  let origins := ", ".intercalate (node.origins.map fun origin => toString origin.seq)
  s!"ProvenanceNode \x7b seq: {node.seq}, creator: {creator}, value: {value}, origins: [{origins}] \x7d"

theorem sizeOf_origin_lt {node origin : Node V} (h : origin ∈ node.origins) :
    sizeOf origin < sizeOf node := by
  have := List.sizeOf_lt_of_mem h
  cases node
  simp only [mk.sizeOf_spec] at *
  omega

end Node

end Lineage
