import Lineage.Site

/-!
# Checkpoints

The host reports three moments of every tagged syntax site: when it is entered, when it returns the
value it produced, and when it is left by an exception.
-/

namespace Lineage

inductive MomentKind where
  | enter
  | leave
  | unwind
  deriving DecidableEq, Repr

namespace MomentKind

def name : MomentKind → String
  | enter => "enter"
  | leave => "return"
  | unwind => "unwind"

end MomentKind

inductive Moment (V : Type) where
  | enter
  | leave (value : V)
  /-- The exception comes as the text that reports show. -/
  | unwind (exception : String)
  deriving DecidableEq, Repr

namespace Moment

variable {V : Type}

def kind : Moment V → MomentKind
  | enter => .enter
  | leave _ => .leave
  | unwind _ => .unwind

def name (moment : Moment V) : String := moment.kind.name

end Moment

structure Checkpoint (K : Kinds) where
  site : Site K
  frame : K.Frame
  moment : Moment K.Value

namespace Checkpoint

/-- The fields by which events name the site of a checkpoint. -/
def siteFields {K : Kinds} (site : Site K) : List (String × String) :=
  [("site", site.id.text), ("label", site.label)]

end Checkpoint

end Lineage
