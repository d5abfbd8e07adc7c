import Lineage.Category
import Lineage.Json.Reader
import Lineage.Json.Value
import Lineage.SessionId
import Lineage.Settings
import Lineage.Site

/-!
# Documents

How the data of the library are written as JSON and read back. Settings and source filters may be
given in part, the defaults standing for what is missing; an argument slot has to be complete.
-/

namespace Lineage

open Json

/-! ### Source filters -/

namespace SourceFilter

/-- The members of a source filter that a document gives. -/
structure Given where
  excludedInfixes : Option (List String) := none
  excludedNames : Option (List String) := none
  skipSynthetic : Option Bool := none
  skipInternal : Option Bool := none
  deriving DecidableEq, Repr

/-- The filter with everything that is not given taken from `base`. -/
def Given.over (given : Given) (base : SourceFilter) : SourceFilter where
  excludedInfixes := given.excludedInfixes.getD base.excludedInfixes
  excludedNames := given.excludedNames.getD base.excludedNames
  skipSynthetic := given.skipSynthetic.getD base.skipSynthetic
  skipInternal := given.skipInternal.getD base.skipInternal

def toValue (filter : SourceFilter) : Value :=
  .object [
    ("excluded_infixes", .list (filter.excludedInfixes.map .text)),
    ("excluded_names", .list (filter.excludedNames.map .text)),
    ("skip_synthetic", .bool filter.skipSynthetic),
    ("skip_internal", .bool filter.skipInternal)]

def member : String → Reader.Member Given
  | "excluded_infixes" =>
      Reader.once (·.excludedInfixes) (Reader.list Reader.text)
        fun v given => { given with excludedInfixes := some v }
  | "excluded_names" =>
      Reader.once (·.excludedNames) (Reader.list Reader.text)
        fun v given => { given with excludedNames := some v }
  | "skip_synthetic" =>
      Reader.once (·.skipSynthetic) Reader.bool
        fun v given => { given with skipSynthetic := some v }
  | "skip_internal" =>
      Reader.once (·.skipInternal) Reader.bool
        fun v given => { given with skipInternal := some v }
  | _ => Reader.unknownMember

/-- The members in their order, as far as the list goes. -/
def inOrder (given : Given) : Reader Given := do
  let some excludedInfixes ← Reader.nextItem true (Reader.list Reader.text) | return given
  let given := { given with excludedInfixes := some excludedInfixes }
  let some excludedNames ← Reader.nextItem false (Reader.list Reader.text) | return given
  let given := { given with excludedNames := some excludedNames }
  let some skipSynthetic ← Reader.nextItem false Reader.bool | return given
  let given := { given with skipSynthetic := some skipSynthetic }
  let some skipInternal ← Reader.nextItem false Reader.bool | return given
  return { given with skipInternal := some skipInternal }

def reader : Reader SourceFilter :=
  Reader.record {} member inOrder fun given => .ok (given.over {})

end SourceFilter

/-! ### Settings -/

namespace Settings

/-- The members of the settings that a document gives. -/
structure Given where
  sweepInterval : Option Nat := none
  outlineWrites : Option Bool := none
  logFilter : Option String := none
  sourceFilter : Option SourceFilter := none
  deriving DecidableEq, Repr

/-- The settings with everything that is not given taken from `base`. -/
def Given.over (given : Given) (base : Settings) : Settings where
  sweepInterval := given.sweepInterval.getD base.sweepInterval
  outlineWrites := given.outlineWrites.getD base.outlineWrites
  logFilter := given.logFilter.getD base.logFilter
  sourceFilter := given.sourceFilter.getD base.sourceFilter

def toValue (settings : Settings) : Value :=
  .object [
    ("sweep_interval", .natural settings.sweepInterval),
    ("dump_on_write", .bool settings.outlineWrites),
    ("log_filter", .text settings.logFilter),
    ("source_filter", settings.sourceFilter.toValue)]

def member : String → Reader.Member Given
  | "sweep_interval" =>
      Reader.once (·.sweepInterval) Reader.natural
        fun v given => { given with sweepInterval := some v }
  | "dump_on_write" =>
      Reader.once (·.outlineWrites) Reader.bool
        fun v given => { given with outlineWrites := some v }
  | "log_filter" =>
      Reader.once (·.logFilter) Reader.text fun v given => { given with logFilter := some v }
  | "source_filter" =>
      Reader.once (·.sourceFilter) SourceFilter.reader
        fun v given => { given with sourceFilter := some v }
  | _ => Reader.unknownMember

/-- The members in their order, as far as the list goes. -/
def inOrder (given : Given) : Reader Given := do
  let some sweepInterval ← Reader.nextItem true Reader.natural | return given
  let given := { given with sweepInterval := some sweepInterval }
  let some outlineWrites ← Reader.nextItem false Reader.bool | return given
  let given := { given with outlineWrites := some outlineWrites }
  let some logFilter ← Reader.nextItem false Reader.text | return given
  let given := { given with logFilter := some logFilter }
  let some sourceFilter ← Reader.nextItem false SourceFilter.reader | return given
  return { given with sourceFilter := some sourceFilter }

def reader : Reader Settings :=
  Reader.record {} member inOrder fun given => .ok (given.over {})

/-- The settings of a document, which have to be valid. -/
def parse (source : String) : Except Fault Settings :=
  match Reader.document reader source with
  | .ok settings => settings.validate
  | .error defect => .error (.document defect)

/-- The settings of a file, given its bytes; there are none if the file does not exist. -/
def load (file : Option ByteArray) : Except Fault Settings :=
  match file with
  | none => .error (.file .notFound)
  | some bytes =>
      match String.fromUTF8? bytes with
      | none => .error (.file .notText)
      | some source => parse source

end Settings

/-! ### Categories and arguments -/

namespace Category

def toValue (c : Category) : Value := .text c.name

def reader : Reader Category := Reader.choice fun name => (ofName? name).map .plain

end Category

namespace ArgumentCount

def toValue : ArgumentCount → Value
  | declared count => .object [("Declared", .natural count)]
  | fromFrame => .text "FromFrame"

def reader : Reader ArgumentCount :=
  Reader.choice fun
    | "Declared" => some (.holding (declared <$> Reader.natural))
    | "FromFrame" => some (.plain fromFrame)
    | _ => none

end ArgumentCount

namespace ArgumentSlot

/-- The members of an argument slot that a document gives. -/
structure Given where
  index : Option Nat := none
  count : Option ArgumentCount := none
  deriving DecidableEq, Repr

def toValue (slot : ArgumentSlot) : Value :=
  .object [("index", .natural slot.index), ("count", slot.count.toValue)]

def member : String → Reader.Member Given
  | "index" => Reader.once (·.index) Reader.natural fun v given => { given with index := some v }
  | "count" =>
      Reader.once (·.count) ArgumentCount.reader fun v given => { given with count := some v }
  | _ => Reader.unknownMember

/-- The members in their order, as far as the list goes. -/
def inOrder (given : Given) : Reader Given := do
  let some index ← Reader.nextItem true Reader.natural | return given
  let given := { given with index := some index }
  let some count ← Reader.nextItem false ArgumentCount.reader | return given
  return { given with count := some count }

def reader : Reader ArgumentSlot :=
  Reader.record {} member inOrder fun given =>
    match given.index, given.count with
    | some index, some count => .ok ⟨index, count⟩
    | _, _ => .error .mistyped

end ArgumentSlot

/-! ### Identities -/

namespace SiteId

def toValue (id : SiteId) : Value := .natural id.number

def reader : Reader SiteId := SiteId.mk <$> Reader.natural

end SiteId

namespace SessionId

def toValue (id : SessionId) : Value := .text id.grouped

def reader : Reader SessionId := do
  let some id := parse? (← Reader.text) | throw .mistyped
  return id

end SessionId

end Lineage
