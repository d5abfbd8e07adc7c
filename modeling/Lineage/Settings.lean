import Lineage.Fault
import Lineage.Text.Blank

/-!
# Settings

What an embedding program can set for a tracing session: how often dead entries are swept, whether
writes are logged as outlines, which events are logged, and which sources are instrumented.
-/

namespace Lineage

/-- Decides which sources are instrumented. -/
structure SourceFilter where
  /-- Sources whose name contains one of these are left out. -/
  excludedInfixes : List String := ["truffle/src/main/ruby", "lib/ruby/truffle"]
  /-- Sources with just these names are left out. -/
  excludedNames : List String := ["main", "context"]
  /-- Leave out sources whose name starts with a parenthesis, such as evaluated text. -/
  skipSynthetic : Bool := true
  /-- Leave out sources that the host marks as its own. -/
  skipInternal : Bool := true
  deriving DecidableEq, Repr

namespace SourceFilter

def acceptAll : SourceFilter :=
  { excludedInfixes := [], excludedNames := [], skipSynthetic := false, skipInternal := false }

/-- `part` stands somewhere in the text. -/
def occursIn (part : List Char) : List Char → Bool
  | [] => part.isEmpty
  | c :: rest => part.isPrefixOf (c :: rest) || occursIn part rest

/-- Whether a source is instrumented; `internal` tells that it is the host's own. -/
def accepts (filter : SourceFilter) (source : String) (internal : Bool) : Bool :=
  !filter.excludedInfixes.any (fun part => occursIn part.toList source.toList) &&
    !filter.excludedNames.contains source &&
    !(filter.skipSynthetic && source.toList.head? == some '(') &&
    !(filter.skipInternal && internal)

end SourceFilter

structure Settings where
  /-- Insertions into a table between two sweeps of it; zero leaves sweeping to the host. -/
  sweepInterval : Nat := 1024
  outlineWrites : Bool := false
  logFilter : String := "info"
  sourceFilter : SourceFilter := {}
  deriving DecidableEq, Repr

namespace Settings

/-- Refuses a blank log filter, and an infix that would leave out every source. -/
def validate (settings : Settings) : Except Fault Settings :=
  if Text.isBlank settings.logFilter then .error (.configuration .blankLogFilter)
  else if settings.sourceFilter.excludedInfixes.contains "" then
    .error (.configuration .emptyInfix)
  else .ok settings

end Settings

end Lineage
