import Lineage.Dict
import Lineage.Kinds
import Lineage.Node

/-!
# Hosts

A `Host` is what an interpreter shows of itself at one moment. Besides answering the tracer's
questions it says which of its entities have an owner, given the nodes that the shadow state keeps:
a node owns its value and its origins, and a value may own an object. Where in memory its entities lie
decides in which order a sweep comes to their entries; nothing is assumed of that order.
-/

namespace Lineage

/-- The entities that still have an owner. -/
structure Survivors (K : Kinds) where
  frame : K.Frame → Bool
  object : K.Object → Bool
  scope : K.Scope → Bool

/-- The orders in which a sweep comes to the entries of the tables. -/
structure SweepOrder (K : Kinds) where
  frames : KeyOrder K.Frame := .asListed
  objects : KeyOrder K.Object := .asListed
  scopes : KeyOrder K.Scope := .asListed

structure Host (K : Kinds) where
  /-- The frame that called this one, if it is not the outermost. -/
  callerOf : K.Frame → Option K.Frame
  /-- The number of arguments passed into a frame. -/
  argumentCount : K.Frame → Nat
  /-- The heap object a value refers to. -/
  objectOf : K.Value → Option K.Object
  /-- The entities that have an owner as long as the shadow state keeps just these nodes. -/
  survivors : List (Node K.Value) → Survivors K
  order : SweepOrder K := {}

end Lineage
