/-!
# Event log

Structured events by severity. A log keeps the events up to its limit; an event that arises inside a
span carries the span, and spans exist only in a log that keeps everything.
-/

namespace Lineage

inductive Severity where
  | error
  | warn
  | info
  | debug
  | trace
  deriving DecidableEq, Repr

namespace Severity

/-- Grows as events get less severe. -/
def rank : Severity → Nat
  | error => 0
  | warn => 1
  | info => 2
  | debug => 3
  | trace => 4

def name : Severity → String
  | error => "ERROR"
  | warn => "WARN"
  | info => "INFO"
  | debug => "DEBUG"
  | trace => "TRACE"

def all : List Severity := [error, warn, info, debug, trace]

end Severity

/-- Named texts, in the order in which they were given. -/
abbrev Fields := List (String × String)

/-- A stretch of work that events can arise in. -/
structure Span where
  name : String
  fields : Fields
  deriving DecidableEq, Repr

structure Event where
  severity : Severity
  message : String
  fields : Fields
  span : Option Span
  deriving DecidableEq, Repr

structure Log where
  /-- The least severe events still kept; none are without a limit. -/
  limit : Option Severity := none
  span : Option Span := none
  /-- The events kept, most recent first. -/
  events : List Event := []

namespace Log

def keeps (log : Log) (severity : Severity) : Bool :=
  log.limit.any fun limit => severity.rank ≤ limit.rank

def add (log : Log) (severity : Severity) (message : String) (fields : Fields) : Log :=
  if log.keeps severity then
    { log with events := ⟨severity, message, fields, log.span⟩ :: log.events }
  else log

/-- Work now happens inside `span`, if this log has spans. -/
def enterSpan (log : Log) (span : Span) : Log :=
  if log.keeps .trace then { log with span := some span } else log

def leaveSpan (log : Log) : Log := { log with span := none }

/-- The events so far, oldest first, and the log without them. -/
def drain (log : Log) : List Event × Log := (log.events.reverse, { log with events := [] })

end Log

end Lineage
