import Lineage.Node.Slice

/-!
# Snapshots

A snapshot writes the graph below some roots as plain data: one entry per node of their backward
slice, the links between nodes being their numbers. An unknown creator has no site, an unknown value
no text.
-/

namespace Lineage

/-- A node as plain data. -/
structure Snapshot.Entry where
  seq : Nat
  site : Option Nat
  label : String
  value : Option String
  origins : List Nat
  deriving DecidableEq, Repr

structure Snapshot where
  roots : List Nat
  entries : List Snapshot.Entry
  deriving DecidableEq, Repr

namespace Snapshot

variable {V : Type}

namespace Entry

def ofNode (inspect : V → String) (node : Node V) : Entry :=
  { seq := node.seq
    site := node.creator.map (·.site.number)
    label := (node.creator.map (·.label)).getD "<unknown>"
    value := node.value.map inspect
    origins := node.origins.map (·.seq) }

end Entry

def ofRoots (inspect : V → String) (roots : List (Node V)) : Snapshot :=
  ⟨roots.map (·.seq), (Node.slice roots).map (Entry.ofNode inspect)⟩

/-- The entry with that number. -/
def entry? (s : Snapshot) (seq : Nat) : Option Entry := s.entries.find? (·.seq = seq)

end Snapshot

end Lineage
