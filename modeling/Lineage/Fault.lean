/-!
# Faults

What can go wrong while provenance is traced, as causes. The wording of every fault is in
`Fault.message` and the functions it calls; nothing else in the library composes error text.
-/

namespace Lineage

/-- The identity of one syntax site, assigned by the host. -/
structure SiteId where
  number : Nat
  deriving DecidableEq, Repr

namespace SiteId

def text (id : SiteId) : String := "site-" ++ toString id.number

end SiteId

/-- What a category may need to know about its site. -/
inductive Capability where
  | localSlot
  | propertyName
  | classVariable
  | globalName
  | argumentSlot
  deriving DecidableEq, Repr

namespace Capability

def text : Capability → String
  | localSlot => "local slot"
  | propertyName => "property name"
  | classVariable => "class variable"
  | globalName => "global name"
  | argumentSlot => "argument slot"

end Capability

/-- The ways in which a host can break the bookkeeping it shares with the shadow state. -/
inductive Violation where
  /-- A category of the site needs a capability that the site does not have. -/
  | missingCapability (site : SiteId) (label : String) (what : Capability)
  /-- The site binds an argument that its own declared count excludes. -/
  | argumentOutOfRange (site : SiteId) (index count : Nat)
  /-- An invocation began while another one of the same frame had not ended. -/
  | nestedInvocation (requested outstanding : Nat)
  /-- An invocation ended that had not begun. -/
  | noInvocation
  /-- A site returned that had noted no stack depth. -/
  | noDepthMark (site : SiteId)
  /-- A site returned with fewer operands than it had found on enter. -/
  | belowEntryDepth (site : SiteId) (label : String) (depth marked : Nat)
  /-- A property was assigned, but the operands held no receiver. -/
  | writeWithoutReceiver (site : SiteId) (label : String)
  /-- A property was read, but the operands held no receiver. -/
  | readWithoutReceiver (site : SiteId) (label : String)
  /-- A listener's own complaint. -/
  | reported (text : String)
  deriving DecidableEq, Repr

namespace Violation

/-- A site as the texts of violations name it. -/
def named (site : SiteId) (label : String) : String := site.text ++ " (" ++ label ++ ")"

def text : Violation → String
  | missingCapability site label what =>
      s!"{named site label} has no {what.text} capability"
  | argumentOutOfRange site index count =>
      s!"{site.text} binds argument {index} of {count}"
  | nestedInvocation requested outstanding =>
      s!"invocation with {requested} argument(s) started while one with {outstanding} is outstanding"
  | noInvocation => "no outstanding invocation to end"
  | noDepthMark site => s!"{site.text} returned without a recorded stack depth"
  | belowEntryDepth site label depth marked =>
      s!"{named site label} returned with stack depth {depth} below its entry depth {marked}"
  | writeWithoutReceiver site label =>
      s!"{named site label} assigned a property without a receiver on the stack"
  | readWithoutReceiver site label =>
      s!"{named site label} read a property without a receiver on the stack"
  | reported text => text

end Violation

/-- What a lock protects. -/
inductive Guarded where
  | record
  | object
  | scope
  deriving DecidableEq, Repr

namespace Guarded

def text : Guarded → String
  | record => "activation record"
  | object => "object"
  | scope => "scope"

end Guarded

/-- Why a configuration is refused. -/
inductive ConfigurationFault where
  | blankLogFilter
  | emptyInfix
  | invalidLogFilter (directives : String)
  | alreadyInitialized
  | reported (text : String)
  deriving DecidableEq, Repr

namespace ConfigurationFault

def text : ConfigurationFault → String
  | blankLogFilter => "log_filter must not be empty"
  | emptyInfix =>
      "source_filter.excluded_infixes contains an empty entry, which would exclude every source"
  | invalidLogFilter directives => "invalid log filter '" ++ directives ++ "'"
  | alreadyInitialized => "tracing already initialized"
  | reported text => text

end ConfigurationFault

/-- Why a file could not be read. -/
inductive FileFault where
  | notFound
  /-- The bytes of the file are not UTF-8. -/
  | notText
  | other (text : String)
  deriving DecidableEq, Repr

namespace FileFault

def text : FileFault → String
  | notFound => "no such file"
  | notText => "the file is not valid UTF-8"
  | other text => text

end FileFault

/-- The three ways in which a document can fail to be read. -/
inductive Defect where
  /-- The text is not JSON, or not where a value of this type would have it so. -/
  | malformed
  /-- A well-formed token of the wrong type, out of range, unknown, missing or repeated. -/
  | mistyped
  /-- The text ends inside a value. -/
  | truncated
  deriving DecidableEq, Repr

namespace Defect

def text : Defect → String
  | malformed => "malformed document"
  | mistyped => "unexpected data"
  | truncated => "unexpected end of document"

end Defect

inductive Fault where
  /-- The stack of a frame held fewer entries than were asked for; `site` is absent as long as the
      fault has not been traced to one. -/
  | underflow (site : Option SiteId) (requested available : Nat)
  | violation (cause : Violation)
  /-- A listener broke off while it held the lock. -/
  | poisoned (what : Guarded)
  | configuration (cause : ConfigurationFault)
  | file (cause : FileFault)
  | document (defect : Defect)
  deriving DecidableEq, Repr

namespace Fault

def message : Fault → String
  | underflow site requested available =>
      let place := (site.map SiteId.text).getD "<no site>"
      s!"shadow stack underflow at {place}: requested {requested}, available {available}"
  | violation cause => "invalid shadow state: " ++ cause.text
  | poisoned what => "shadow lock poisoned: " ++ what.text
  | configuration cause => "configuration error: " ++ cause.text
  | file cause => "IO error: " ++ cause.text
  | document defect => "JSON error: " ++ defect.text

/-- Names the site of an underflow that has none yet; every other fault stays as it is. -/
def atSite (fault : Fault) (id : SiteId) : Fault :=
  match fault with
  | underflow none requested available => underflow (some id) requested available
  | other => other

/-- The two classes that blame the host's tagging of its syntax sites. -/
def isContractViolation : Fault → Bool
  | underflow .. | violation _ => true
  | _ => false

theorem atSite_atSite (fault : Fault) (a b : SiteId) :
    (fault.atSite a).atSite b = fault.atSite a := by
  rcases fault with ⟨_ | _, _, _⟩ | _ | _ | _ | _ | _ <;> rfl

end Fault

end Lineage
