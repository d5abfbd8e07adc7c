import Lineage.Category
import Lineage.Fault
import Lineage.Kinds
import Lineage.Text.Quoted

/-!
# Syntax sites

A site is a syntax node as the tracer sees it: its identity, its label, its categories and the
capabilities those categories read. Everything is fixed when the host makes the node. `Site.build`
accepts a site only if each category finds what it needs, so that no rule can miss it later.
-/

namespace Lineage

/-- Where the number of arguments of a call comes from. -/
inductive ArgumentCount where
  /-- The construct knows its count; zero stands for a count it leaves open. -/
  | declared (count : Nat)
  /-- The host is asked for the frame's actual count. -/
  | fromFrame
  deriving DecidableEq, Repr

/-- The argument that a site binds. -/
structure ArgumentSlot where
  index : Nat
  count : ArgumentCount
  deriving DecidableEq, Repr

/-- A class variable together with the scope that owns it. -/
structure ClassVariable (K : Kinds) where
  name : String
  scope : K.Scope

structure Site (K : Kinds) where
  id : SiteId
  label : String
  categories : CategorySet := .empty
  localSlot : Option String := none
  property : Option String := none
  classVariable : Option (ClassVariable K) := none
  globalName : Option String := none
  argument : Option ArgumentSlot := none

namespace Site

variable {K : Kinds}

/-- One statement about a site under construction. -/
inductive Trait (K : Kinds) where
  | category (c : Category)
  /-- Replaces the categories stated so far. -/
  | categories (s : CategorySet)
  | localSlot (name : String)
  | property (name : String)
  | classVariable (name : String) (scope : K.Scope)
  | globalName (name : String)
  | argument (index : Nat) (count : ArgumentCount)

/-- The site after one more statement; a later statement replaces an earlier one of its kind. -/
def state (site : Site K) : Trait K → Site K
  | .category c => { site with categories := site.categories.insert c }
  | .categories s => { site with categories := s }
  | .localSlot name => { site with localSlot := some name }
  | .property name => { site with property := some name }
  | .classVariable name scope => { site with classVariable := some ⟨name, scope⟩ }
  | .globalName name => { site with globalName := some name }
  | .argument index count => { site with argument := some ⟨index, count⟩ }

/-- The site that the statements describe, complete or not. -/
def ofTraits (id : SiteId) (label : String) (traits : List (Trait K)) : Site K :=
  traits.foldl state { id, label }

/-- A capability of the site, or the fault of not having it. -/
def demand {α : Type} (site : Site K) (what : Capability) (found : Option α) : Except Fault α :=
  match found with
  | some a => .ok a
  | none => .error (.violation (.missingCapability site.id site.label what))

def requireLocal (site : Site K) : Except Fault String := site.demand .localSlot site.localSlot

def requireProperty (site : Site K) : Except Fault String := site.demand .propertyName site.property

def requireClassVariable (site : Site K) : Except Fault (ClassVariable K) :=
  site.demand .classVariable site.classVariable

def requireGlobal (site : Site K) : Except Fault String := site.demand .globalName site.globalName

def requireArgument (site : Site K) : Except Fault ArgumentSlot :=
  site.demand .argumentSlot site.argument

/-- A declared count admits the indices below it, and every index if it is zero. -/
def admits (slot : ArgumentSlot) : Bool :=
  match slot.count with
  | .declared count => slot.index < count || count = 0
  | .fromFrame => true

/-- Refuses a site on which a rule of `category` would miss what it reads. -/
def check (site : Site K) (category : Category) : Except Fault Unit :=
  match category with
  | .useLocalDefStack | .useStackDefLocalStack => discard site.requireLocal
  | .useStackDefPropertyStack | .usePropertyStackDefStack => discard site.requireProperty
  | .useClassVarDefStack | .useStackDefClassVar => discard site.requireClassVariable
  | .useGlobalDefStack | .useStackDefGlobal => discard site.requireGlobal
  | .useArgDefStack => do
      let slot ← site.requireArgument
      match slot.count with
      | .declared count =>
          if admits slot then pure ()
          else throw (.violation (.argumentOutOfRange site.id slot.index count))
      | .fromFrame => pure ()
  | _ => pure ()

/-- The site that the statements describe, or the fault of its first category that is not served. -/
def build (id : SiteId) (label : String) (traits : List (Trait K)) : Except Fault (Site K) := do
  let site := ofTraits id label traits
  site.categories.toList.forM site.check
  return site

end Site

/-! ## Sites in reports -/

namespace ArgumentCount

def text : ArgumentCount → String
  | declared count => s!"Declared({count})"
  | fromFrame => "FromFrame"

end ArgumentCount

namespace Site

variable {K : Kinds}

/-- A record of named fields. -/
def recordText (name : String) (fields : List (String × String)) : String :=
  name ++ " \x7b " ++ ", ".intercalate (fields.map fun field => field.1 ++ ": " ++ field.2) ++ " \x7d"

/-- A value that may be absent, shown by `inside`. -/
def optionText {α : Type} (inside : α → String) : Option α → String
  | some a => s!"Some({inside a})"
  | none => "None"

/-- A name under the kind of thing it names. -/
def nameText (kind name : String) : String := s!"{kind}({Text.quote name})"

/-- The whole site in one line. The scope of a class variable has no name of its own. -/
def describe (site : Site K) : String :=
  recordText "SyntaxSite" [
    ("id", s!"SiteId({site.id.number})"),
    ("label", Text.quote site.label),
    ("categories", s!"CategorySet({site.categories.code})"),
    ("local", optionText (nameText "LocalId") site.localSlot),
    ("property", optionText (nameText "PropertyName") site.property),
    ("class_var", optionText
      (fun v => recordText "ClassVarSlot" [("name", nameText "ClassVarName" v.name), ("scope", "<ptr>")])
      site.classVariable),
    ("global", optionText (nameText "GlobalName") site.globalName),
    ("argument", optionText
      (fun slot => recordText "ArgumentSlot"
        [("index", toString slot.index), ("count", slot.count.text)])
      site.argument)]

end Site

end Lineage
