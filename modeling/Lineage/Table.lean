import Lineage.Dict

/-!
# Ephemeral tables

A table keyed by host entities that does not keep its keys alive. An entry whose key has died stays
until a sweep drops it; every `interval`-th insertion sweeps first (never, if the interval is zero).
Whether a key is alive is told to the table by its caller, who is also the one to say that a key it
looks up is alive. A sweep goes over the entries one by one. What an entry owns goes with it, so that
a key can lose its last owner in the middle of a sweep: its entry is dropped in the same sweep if it is
still to come, and waits for the next one if it has been passed over (`Table.visitAll`). Each binding is
a new instance, numbered in the order of creation.
-/

namespace Lineage

/-- One binding of a table. -/
structure Entry (E : Type) where
  /-- Tells this instance from every other one of its table. -/
  instanceNumber : Nat
  /-- A listener broke off while it held this entry; it can be replaced, but no longer used. -/
  poisoned : Bool := false
  content : E

structure Table (κ E : Type) where
  bindings : Dict κ (Entry E) := {}
  /-- Insertions since the last sweep. -/
  inserts : Nat := 0
  interval : Nat := 0
  created : Nat := 0

/-- How a table is swept. -/
structure Sweeping (σ κ E : Type) where
  /-- Finds out who is alive as long as the table is as it is. -/
  census : Table κ E → σ
  alive : σ → κ → Bool
  /-- The order in which the sweep comes to the entries. -/
  order : KeyOrder κ := .asListed

namespace Table

variable {σ κ E : Type}

def ofInterval (interval : Nat) : Table κ E := { interval }

/-- The contents of all entries, dead ones included. -/
def contents (t : Table κ E) : List E := t.bindings.values.map (·.content)

/-- The number of entries whose key is alive. -/
def liveSize (t : Table κ E) (alive : κ → Bool) : Nat := (t.bindings.filterKeys alive).size

variable [DecidableEq κ]

def find? (t : Table κ E) (key : κ) : Option (Entry E) := t.bindings.get? key

/-- Forgets the binding of `key`; the first component tells whether there was one. -/
def remove (t : Table κ E) (key : κ) : Bool × Table κ E :=
  ((t.find? key).isSome, { t with bindings := t.bindings.erase key })

/-- Comes to the entries of `keys` one after the other; `found` tells who is alive as long as none is
    dropped. When one has been dropped that is found out anew, and only then. -/
def visitAll (sweeping : Sweeping σ κ E) (t : Table κ E) (found : σ) : List κ → Table κ E
  | [] => t
  | key :: rest =>
    if sweeping.alive found key then visitAll sweeping t found rest
    else
      let t := (t.remove key).2
      visitAll sweeping t (sweeping.census t) rest

/-- Drops the entries of dead keys; the first component counts them. -/
def sweep (t : Table κ E) (sweeping : Sweeping σ κ E) : Nat × Table κ E :=
  let left := visitAll sweeping t (sweeping.census t) (sweeping.order.arrange t.bindings.keys)
  (t.bindings.size - left.bindings.size, { left with inserts := 0 })

/-- Counts an insertion about to happen and sweeps if it is due. -/
def beforeInsert (t : Table κ E) (sweeping : Sweeping σ κ E) : Nat × Table κ E :=
  let counted := { t with inserts := t.inserts + 1 }
  if 0 < t.interval ∧ t.interval ≤ counted.inserts then counted.sweep sweeping else (0, counted)

/-- Binds `key` to a new instance in place of any earlier one. The first component counts the
    entries swept on this occasion. -/
def insert (t : Table κ E) (sweeping : Sweeping σ κ E) (key : κ) (content : E) :
    Nat × Entry E × Table κ E :=
  let (dropped, t) := t.beforeInsert sweeping
  let entry : Entry E := { instanceNumber := t.created, content }
  (dropped, entry, { t with bindings := t.bindings.set key entry, created := t.created + 1 })

/-- The entry of `key`, which is bound to `content` first if it has none. -/
def findOrInsert (t : Table κ E) (sweeping : Sweeping σ κ E) (key : κ) (content : E) :
    Nat × Entry E × Table κ E :=
  match t.find? key with
  | some entry => (0, entry, t)
  | none => t.insert sweeping key content

/-- Changes the entry of `key`, if it has one, in its place. -/
def modify (t : Table κ E) (key : κ) (change : Entry E → Entry E) : Table κ E :=
  match t.find? key with
  | some entry => { t with bindings := t.bindings.set key (change entry) }
  | none => t

end Table

end Lineage
