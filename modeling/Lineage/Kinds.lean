/-!
# Host kinds

The tracer never looks inside the frames, objects, scopes and values of the interpreter it serves. It
compares the first three by identity and can show a value; `Kinds` bundles what it needs to know of
them.
-/

namespace Lineage

structure Kinds where
  /-- One activation of a function or block. -/
  Frame : Type
  /-- A heap object that can carry properties. -/
  Object : Type
  /-- A lexical or class scope that owns class variables. -/
  Scope : Type
  /-- A runtime value as a syntax node produces it. -/
  Value : Type
  [frameEq : DecidableEq Frame]
  [objectEq : DecidableEq Object]
  [scopeEq : DecidableEq Scope]
  /-- The value as reports show it. -/
  inspect : Value → String

attribute [instance] Kinds.frameEq Kinds.objectEq Kinds.scopeEq

end Lineage
