import Lineage.Host
import Lineage.Record
import Lineage.Table

/-!
# The shadow store

Three ephemeral tables hold the shadows of frames, objects and scopes; the globals have no owner and
stay for good. The store owns the nodes in all its entries, also in those whose key has died, so that
an entry which a sweep drops can take the last owner from a key of the same table or of another one.
-/

namespace Lineage

/-- The latest node of each named slot of an object or scope. -/
abbrev Slots (V : Type) := Dict String (Node V)

structure Store (K : Kinds) where
  frames : Table K.Frame (Record K.Value) := {}
  objects : Table K.Object (Slots K.Value) := {}
  scopes : Table K.Scope (Slots K.Value) := {}
  globals : Slots K.Value := {}

/-- Entries dropped by one sweep of the store. -/
structure SweepReport where
  frames : Nat
  objects : Nat
  scopes : Nat
  deriving DecidableEq, Repr

/-- Live entries of each table. -/
structure StoreStats where
  frames : Nat
  objects : Nat
  scopes : Nat
  globals : Nat
  deriving DecidableEq, Repr

namespace SweepReport

def total (r : SweepReport) : Nat := r.frames + r.objects + r.scopes

end SweepReport

namespace Store

variable {K : Kinds}

/-- An empty store whose tables sweep every `interval` insertions. -/
def ofInterval (interval : Nat) : Store K :=
  { frames := .ofInterval interval
    objects := .ofInterval interval
    scopes := .ofInterval interval }

/-- The nodes that the store owns. -/
def nodes (s : Store K) : List (Node K.Value) :=
  s.frames.contents.flatMap Record.nodes ++ s.objects.contents.flatMap Dict.values ++
    s.scopes.contents.flatMap Dict.values ++ s.globals.values

/-- The entities that have an owner while the store is as it is and the nodes `inHand` are in use. The
    host is put to the trouble of finding them when the first one is asked for, and only then. -/
def survivors (s : Store K) (host : Host K) (inHand : List (Node K.Value)) : Survivors K :=
  let found := Thunk.mk fun _ => host.survivors (inHand ++ s.nodes)
  { frame := fun frame => found.get.frame frame
    object := fun object => found.get.object object
    scope := fun scope => found.get.scope scope }

theorem survivors_eq (s : Store K) (host : Host K) (inHand : List (Node K.Value)) :
    s.survivors host inHand = host.survivors (inHand ++ s.nodes) := rfl

/-- How the frames are swept while the nodes `inHand` are in use. -/
def sweepingFrames (s : Store K) (host : Host K) (inHand : List (Node K.Value)) :
    Sweeping (Survivors K) K.Frame (Record K.Value) where
  census frames := { s with frames }.survivors host inHand
  alive := Survivors.frame
  order := host.order.frames

/-- How the objects are swept while the nodes `inHand` are in use. -/
def sweepingObjects (s : Store K) (host : Host K) (inHand : List (Node K.Value)) :
    Sweeping (Survivors K) K.Object (Slots K.Value) where
  census objects := { s with objects }.survivors host inHand
  alive := Survivors.object
  order := host.order.objects

/-- How the scopes are swept while the nodes `inHand` are in use. -/
def sweepingScopes (s : Store K) (host : Host K) (inHand : List (Node K.Value)) :
    Sweeping (Survivors K) K.Scope (Slots K.Value) where
  census scopes := { s with scopes }.survivors host inHand
  alive := Survivors.scope
  order := host.order.scopes

/-- Drops the entries of dead frames. -/
def sweepFrames (s : Store K) (host : Host K) : Nat × Store K :=
  let (dropped, frames) := s.frames.sweep (s.sweepingFrames host [])
  (dropped, { s with frames })

/-- Drops the entries of dead objects. -/
def sweepObjects (s : Store K) (host : Host K) : Nat × Store K :=
  let (dropped, objects) := s.objects.sweep (s.sweepingObjects host [])
  (dropped, { s with objects })

/-- Drops the entries of dead scopes. -/
def sweepScopes (s : Store K) (host : Host K) : Nat × Store K :=
  let (dropped, scopes) := s.scopes.sweep (s.sweepingScopes host [])
  (dropped, { s with scopes })

/-- Sweeps the frames, then the objects, then the scopes. -/
def sweep (s : Store K) (host : Host K) : SweepReport × Store K :=
  let (frames, s) := s.sweepFrames host
  let (objects, s) := s.sweepObjects host
  let (scopes, s) := s.sweepScopes host
  (⟨frames, objects, scopes⟩, s)

def stats (s : Store K) (host : Host K) : StoreStats :=
  let live := s.survivors host []
  { frames := s.frames.liveSize live.frame
    objects := s.objects.liveSize live.object
    scopes := s.scopes.liveSize live.scope
    globals := s.globals.size }

end Store

/-- The node of a slot. A slot that was never written gets an unknown node, numbered `fresh`; the
    second component is the next number. -/
def Slots.current {V : Type} (slots : Slots V) (name : String) (fresh : Nat) :
    Node V × Nat × Slots V :=
  match slots.get? name with
  | some node => (node, fresh, slots)
  | none => (.unknown fresh, fresh + 1, slots.set name (.unknown fresh))

end Lineage
