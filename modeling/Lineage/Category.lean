/-!
# Use and definition categories

A syntax site is classified by what it uses and what it defines: the operand stack, a local, an
argument, a property, a class variable, a global, or the result of its function. A site may carry
several categories; their order here is the order in which their rules are applied.
-/

namespace Lineage

inductive Category where
  | functionBoundary
  | noUseDefStack
  | useStackDefStack
  | useLocalDefStack
  | useStackDefLocalStack
  | useArgDefStack
  | useStackDefPropertyStack
  | usePropertyStackDefStack
  | useStackDefReturn
  | useClassVarDefStack
  | useStackDefClassVar
  | useGlobalDefStack
  | useStackDefGlobal
  | callNode
  deriving DecidableEq, Repr

namespace Category

/-- Every category once, in the order in which rules are applied. -/
def all : List Category :=
  [functionBoundary, noUseDefStack, useStackDefStack, useLocalDefStack, useStackDefLocalStack,
   useArgDefStack, useStackDefPropertyStack, usePropertyStackDefStack, useStackDefReturn,
   useClassVarDefStack, useStackDefClassVar, useGlobalDefStack, useStackDefGlobal, callNode]

theorem mem_all (c : Category) : c ∈ all := by cases c <;> decide

theorem nodup_all : all.Nodup := by decide

def name : Category → String
  | functionBoundary => "FunctionBoundary"
  | noUseDefStack => "NoUseDefStack"
  | useStackDefStack => "UseStackDefStack"
  | useLocalDefStack => "UseLocalDefStack"
  | useStackDefLocalStack => "UseStackDefLocalStack"
  | useArgDefStack => "UseArgDefStack"
  | useStackDefPropertyStack => "UseStackDefPropertyStack"
  | usePropertyStackDefStack => "UsePropertyStackDefStack"
  | useStackDefReturn => "UseStackDefReturn"
  | useClassVarDefStack => "UseClassVarDefStack"
  | useStackDefClassVar => "UseStackDefClassVar"
  | useGlobalDefStack => "UseGlobalDefStack"
  | useStackDefGlobal => "UseStackDefGlobal"
  | callNode => "CallNode"

/-- The category of that name. -/
def ofName? (text : String) : Option Category := all.find? fun c => c.name = text

/-- The categories whose rule consumes everything pushed since the site was entered, and which
    therefore note the stack depth on enter. -/
def marksDepth : Category → Bool
  | useStackDefStack | useStackDefPropertyStack | usePropertyStackDefStack => true
  | _ => false

end Category

/-- The categories of one site. -/
structure CategorySet where
  contains : Category → Bool

namespace CategorySet

theorem ext_iff_all (s t : CategorySet) :
    s = t ↔ ∀ c ∈ Category.all, s.contains c = t.contains c := by
  constructor
  · rintro rfl _ _
    rfl
  · intro h
    obtain ⟨f⟩ := s
    obtain ⟨g⟩ := t
    congr
    funext c
    exact h c (Category.mem_all c)

instance : DecidableEq CategorySet := fun s t => decidable_of_iff' _ (ext_iff_all s t)

def empty : CategorySet := ⟨fun _ => false⟩

/-- The set with `c` added. -/
def insert (s : CategorySet) (c : Category) : CategorySet := ⟨fun d => d = c || s.contains d⟩

def single (c : Category) : CategorySet := empty.insert c

def ofList (cs : List Category) : CategorySet := cs.foldl insert empty

/-- The members in the order in which their rules are applied. -/
def toList (s : CategorySet) : List Category := Category.all.filter s.contains

def size (s : CategorySet) : Nat := s.toList.length

def isEmpty (s : CategorySet) : Bool := s.toList.isEmpty

/-- The names of the members between brackets. -/
def text (s : CategorySet) : String := "[" ++ ", ".intercalate (s.toList.map Category.name) ++ "]"

/-- The set as a number: the category at place `i` of the rule order weighs `2 ^ i`. -/
def code (s : CategorySet) : Nat :=
  Category.all.foldr (fun c rest => (if s.contains c then 1 else 0) + 2 * rest) 0

theorem mem_toList {s : CategorySet} {c : Category} : c ∈ s.toList ↔ s.contains c = true := by
  simp [toList, Category.mem_all]

theorem contains_insert (s : CategorySet) (c d : Category) :
    (s.insert c).contains d = (d = c || s.contains d) := rfl

end CategorySet

end Lineage
