import Lineage.Fault
import Lineage.Text.Alphanumeric
import Lineage.Text.Blank

/-!
# Log filters

A log filter is a list of directives with commas between them; empty directives are passed over. A
directive names a target, a span between brackets, or a target and one of its spans, and may say after
an equals sign from which severity on their events are kept. The severity may be left out, and a
severity alone is a directive too: its form is that of a target. A span may hold one field between
braces.

Blanks around a directive are passed over, but one with an equals sign must not have any.
-/

namespace Lineage.LogFilter

/-- The names of the severities, `off` included. -/
def severities : List (List Char) :=
  ["trace", "debug", "info", "warn", "error", "off"].map String.toList

/-- A severity as a number from 0 to 5, before which a plus sign and zeros may stand. -/
def isSeverityNumber (cs : List Char) : Bool :=
  let digits := match cs with
    | '+' :: rest => rest
    | _ => cs
  match digits.reverse with
  | [] => false
  | last :: zeros => '0' ≤ last && last ≤ '5' && zeros.all (· = '0')

/-- A severity by name, in any case, or by number. -/
def isSeverity (cs : List Char) : Bool :=
  severities.contains (cs.map Char.toLower) || isSeverityNumber cs

/-- The characters that the name of a target can start with; any may follow. -/
def startsTarget (c : Char) : Bool := Text.isAlphanumeric c || c = '_' || c = ':' || c = '-'

/-- What a directive says of severities. -/
inductive Clause where
  | absent
  /-- The text after the equals sign. -/
  | present (severity : List Char)
  deriving DecidableEq, Repr

/-- The clause after a span, whose closing bracket has been read. -/
def afterSpan : List Char → Option Clause
  | '=' :: severity => some (.present severity)
  | rest => if rest.all Text.isSpace then some .absent else none

/-- The clause of a directive whose opening bracket has been read. -/
def inSpan (cs : List Char) : Option Clause :=
  match cs.span fun c => c ≠ ']' && c ≠ '\x7b' with
  | (_, ']' :: rest) => afterSpan rest
  | (_, '\x7b' :: rest) =>
      match rest.span (· ≠ '\x7d') with
      | (field, '\x7d' :: ']' :: rest) => if field.isEmpty then none else afterSpan rest
      | _ => none
  | _ => none

/-- The clause of a directive, or `none` if it is not well formed. -/
def clause? : List Char → Option Clause
  | [] => none
  | '[' :: rest => inSpan rest
  | c :: rest =>
      if startsTarget c then
        match rest.span fun c => c ≠ '=' && c ≠ '[' with
        | (_, '=' :: severity) => some (.present severity)
        | (_, '[' :: rest) => inSpan rest
        | _ => some .absent
      else none

def isDirective (cs : List Char) : Bool :=
  let body := cs.dropWhile Text.isSpace
  match clause? body with
  | none => false
  | some .absent => true
  | some (.present severity) => body = cs && (severity.isEmpty || isSeverity severity)

/-- The texts between the commas of `cs`. -/
def split (cs : List Char) : List (List Char) :=
  cs.foldr (fun c parts =>
    if c = ',' then [] :: parts
    else match parts with
      | part :: rest => (c :: part) :: rest
      | [] => [[c]]) [[]]

/-- Refuses a text that is not a list of directives. -/
def check (directives : String) : Except Fault Unit :=
  if (split directives.toList).all fun part => part.isEmpty || isDirective part then .ok ()
  else .error (.configuration (.invalidLogFilter directives))

/-- Puts a log filter into force. The one filter of a process cannot be replaced; an invalid one is
    refused for that reason first. -/
def install (installed : Bool) (directives : String) : Except Fault Unit := do
  check directives
  if installed then throw (.configuration .alreadyInitialized)

end Lineage.LogFilter
