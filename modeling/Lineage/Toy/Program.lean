import Lineage.Site
import Lineage.Toy.World

/-!
# Toy programs

The source form of toy programs and the code they are compiled to. Compiling a traced definition wraps
every piece of code in a tag with its syntax site; the sites are numbered in source order from 1, a
piece before its parts. An untraced definition is compiled to the same code without the tags.

The code keeps the promises that the categories make about the operand stack: a property assignment
runs its value before its receiver, a body consumes all that its statements leave behind, and the
parameters are bound by assignments at the start of the body.
-/

namespace Lineage.Toy

inductive Expr where
  | int (n : Int)
  | str (s : String)
  | nil
  /-- A new object of a class. -/
  | new (className : String)
  | getLocal (name : String)
  | setLocal (name : String) (value : Expr)
  /-- An argument of the invocation under way. -/
  | arg (index : Nat)
  | add (left right : Expr)
  | call (function : String) (args : List Expr)
  | getProperty (receiver : Expr) (name : String)
  | setProperty (receiver : Expr) (name : String) (value : Expr)
  | getGlobal (name : String)
  | setGlobal (name : String) (value : Expr)
  | getClassVariable (name : String)
  | setClassVariable (name : String) (value : Expr)
  | ret (value : Expr)

/-- What is run: the expression forms, the bodies of functions, and tagged code. -/
inductive Code where
  | int (n : Int)
  | str (s : String)
  | nil
  | new (className : String)
  | getLocal (name : String)
  | setLocal (name : String) (value : Code)
  | arg (index : Nat)
  | add (left right : Code)
  | call (function : String) (args : List Code)
  | getProperty (receiver : Code) (name : String)
  | setProperty (receiver : Code) (name : String) (value : Code)
  | getGlobal (name : String)
  | setGlobal (name : String) (value : Code)
  | getClassVariable (name : String)
  | setClassVariable (name : String) (value : Code)
  | ret (value : Code)
  /-- Runs the statements in order and catches a `return` in them. -/
  | body (statements : List Code)
  /-- Code whose checkpoints are reported. -/
  | tagged (site : Site kinds) (code : Code)

/-- A function as it is written. -/
structure Definition where
  name : String
  params : List String := []
  body : List Expr
  traced : Bool := true

/-- A program as it is written. -/
structure Source where
  functions : List Definition
  main : Option Definition

/-- A compiled program. -/
structure Program where
  /-- The code of each function; of several with one name the last one counts. -/
  functions : Dict String Code
  main : Code
  siteCount : Nat
  /-- The scope that owns the class variables of the program. -/
  scope : ScopeId

/-! ### Compiling -/

/-- Compiling counts the sites made so far. -/
abbrev Compile := StateM Nat

namespace Compile

/-- Gives `code` the next site, if `traced`; the parts of the code are compiled after that. -/
def tag (traced : Bool) (label : String) (traits : List (Site.Trait kinds)) (code : Compile Code) :
    Compile Code := do
  if traced then
    let id ← modifyGet fun count => (count + 1, count + 1)
    return .tagged (Site.ofTraits ⟨id⟩ label traits) (← code)
  else code

mutual

def expr (scope : ScopeId) (traced : Bool) : Expr → Compile Code
  | .int n => tag traced (toString n) [.category .noUseDefStack] (pure (.int n))
  | .str s => tag traced (Text.quote s) [.category .noUseDefStack] (pure (.str s))
  | .nil => tag traced "nil" [.category .noUseDefStack] (pure .nil)
  | .new className =>
      tag traced (className ++ ".new") [.category .noUseDefStack] (pure (.new className))
  | .getLocal name =>
      tag traced name [.category .useLocalDefStack, .localSlot name] (pure (.getLocal name))
  | .setLocal name value =>
      tag traced ("set " ++ name) [.category .useStackDefLocalStack, .localSlot name]
        (return .setLocal name (← expr scope traced value))
  | .arg index =>
      tag traced s!"arg[{index}]" [.category .useArgDefStack, .argument index .fromFrame]
        (pure (.arg index))
  | .add left right =>
      tag traced "+" [.category .useStackDefStack] do
        let left ← expr scope traced left
        let right ← expr scope traced right
        return .add left right
  | .call function args =>
      tag traced (function ++ "()") [.category .useStackDefStack, .category .callNode]
        (return .call function (← exprs scope traced args))
  | .getProperty receiver name =>
      tag traced ("." ++ name) [.category .usePropertyStackDefStack, .property name]
        (return .getProperty (← expr scope traced receiver) name)
  | .setProperty receiver name value =>
      tag traced ("set ." ++ name) [.category .useStackDefPropertyStack, .property name] do
        let value ← expr scope traced value
        let receiver ← expr scope traced receiver
        return .setProperty receiver name value
  | .getGlobal name =>
      tag traced ("$" ++ name) [.category .useGlobalDefStack, .globalName name]
        (pure (.getGlobal name))
  | .setGlobal name value =>
      tag traced ("set $" ++ name) [.category .useStackDefGlobal, .globalName name]
        (return .setGlobal name (← expr scope traced value))
  | .getClassVariable name =>
      tag traced ("@@" ++ name) [.category .useClassVarDefStack, .classVariable name scope]
        (pure (.getClassVariable name))
  | .setClassVariable name value =>
      tag traced ("set @@" ++ name) [.category .useStackDefClassVar, .classVariable name scope]
        (return .setClassVariable name (← expr scope traced value))
  | .ret value =>
      tag traced "return" [.category .useStackDefReturn]
        (return .ret (← expr scope traced value))

def exprs (scope : ScopeId) (traced : Bool) : List Expr → Compile (List Code)
  | [] => return []
  | e :: rest => do
      let code ← expr scope traced e
      return code :: (← exprs scope traced rest)

end

/-- The assignments that bind the parameters, the first of which has the given index. -/
def parameters (index : Nat) : List String → List Expr
  | [] => []
  | name :: rest => .setLocal name (.arg index) :: parameters (index + 1) rest

/-- A definition becomes a body inside the boundary of the function. -/
def definition (scope : ScopeId) (d : Definition) : Compile Code :=
  let boundary := if d.name = "main" then "main" else "def " ++ d.name
  tag d.traced boundary [.category .functionBoundary] <|
    tag d.traced (d.name ++ " body") [.category .useStackDefStack] do
      return .body (← exprs scope d.traced (parameters 0 d.params ++ d.body))

/-- The functions in the order in which they are written. -/
def functions (scope : ScopeId) : List Definition → Dict String Code → Compile (Dict String Code)
  | [], done => return done
  | d :: rest, done => do
      let code ← definition scope d
      functions scope rest (done.set d.name code)

end Compile

/-- Compiles a program, its main part first; `none` if it has none. The class variables belong to
    `scope`. -/
def Source.compile (source : Source) (scope : ScopeId) : Option Program :=
  source.main.map fun main =>
    let work : Compile (Code × Dict String Code) := do
      let main ← Compile.definition scope main
      let functions ← Compile.functions scope source.functions {}
      return (main, functions)
    let ((main, functions), siteCount) := work.run 0
    { functions, main, siteCount, scope }

end Lineage.Toy
