import AnnotationGraph.Data.OrderedMap
import AnnotationGraph.Number.Shortest
import AnnotationGraph.Program.Reference

/-!
# Annotation arguments

The values that annotations carry, and annotations as they stand on a class.

* `Constant` — a constant of one of the nine kinds;
* `ElementTree` — a constant, an enum constant, a class, a nested annotation or an array;
* `Element` — an element tree whose nested annotations name their arguments in ascending order;
* `AnnotationUse` — an annotation with its arguments by name.

Each has a rendering, `text`, in which floating-point numbers are written as the platform does.
-/

namespace AnnotationGraph

inductive Constant where
  | byte (value : Int8)
  | char (value : Char)
  | short (value : Int16)
  | int (value : Int32)
  | long (value : Int64)
  | float (value : Binary32)
  | double (value : Binary64)
  | boolean (value : Bool)
  | string (value : String)
  deriving DecidableEq

namespace Constant

/-- Numbers from a thousandth up to ten million are written plainly, all others as a mantissa with a
fraction and a power of ten.  Of two equally near shortest decimals the greater is written. -/
def numberLayout : Layout := ⟨-2, 7, true, .up⟩

def exponentStyle : ExponentStyle := ⟨'E', false⟩

def floatText {f : BinaryFormat} (x : Binary f) : String :=
  match x.numeral? numberLayout with
  | some n => String.ofList (n.text exponentStyle)
  | none =>
    match x.datum with
    | .infinite true => "-Infinity"
    | .infinite false => "Infinity"
    | _ => "NaN"

def text : Constant → String
  | .byte n => toString n.toInt
  | .char c => String.singleton c
  | .short n => toString n.toInt
  | .int n => toString n.toInt
  | .long n => toString n.toInt
  | .float x => floatText x
  | .double x => floatText x
  | .boolean true => "true"
  | .boolean false => "false"
  | .string s => s

end Constant

/-- The value of an annotation argument, the arguments of nested annotations in any order. -/
inductive ElementTree where
  | constant (value : Constant)
  | enumConstant (type : ClassName) (name : String)
  | classLiteral (name : ClassName)
  | nested (type : ClassName) (arguments : List (String × ElementTree))
  | array (items : List ElementTree)

namespace ElementTree

mutual

/-- Every nested annotation has each argument once, in ascending order of the names. -/
def Ordered : ElementTree → Prop
  | .nested _ arguments =>
    arguments.Pairwise (fun a b => compare a.1 b.1 = .lt) ∧ OrderedArguments arguments
  | .array items => OrderedItems items
  | _ => True

def OrderedItems : List ElementTree → Prop
  | [] => True
  | item :: items => item.Ordered ∧ OrderedItems items

def OrderedArguments : List (String × ElementTree) → Prop
  | [] => True
  | (_, value) :: arguments => value.Ordered ∧ OrderedArguments arguments

end

mutual

def text : ElementTree → String
  | .constant c => c.text
  | .enumConstant type name => type ++ "." ++ name
  | .classLiteral name => name
  | .nested type _ => "@" ++ type
  | .array items => "[" ++ ", ".intercalate (texts items) ++ "]"

def texts : List ElementTree → List String
  | [] => []
  | item :: items => item.text :: texts items

end

theorem orderedItems_iff {items : List ElementTree} :
    OrderedItems items ↔ ∀ item ∈ items, item.Ordered := by
  induction items with
  | nil => simp [OrderedItems]
  | cons item items ih => simp [OrderedItems, ih]

theorem orderedArguments_iff {arguments : List (String × ElementTree)} :
    OrderedArguments arguments ↔ ∀ a ∈ arguments, a.2.Ordered := by
  induction arguments with
  | nil => simp [OrderedArguments]
  | cons a arguments ih => simp [OrderedArguments, ih]

end ElementTree

structure Element where
  tree : ElementTree
  ordered : tree.Ordered

structure AnnotationUse where
  type : ClassName
  arguments : OrderedMap String Element

namespace Element

def text (e : Element) : String := e.tree.text

def constant (c : Constant) : Element := ⟨.constant c, by simp [ElementTree.Ordered]⟩

def enumConstant (type : ClassName) (name : String) : Element :=
  ⟨.enumConstant type name, by simp [ElementTree.Ordered]⟩

def classLiteral (name : ClassName) : Element :=
  ⟨.classLiteral name, by simp [ElementTree.Ordered]⟩

def nested (use : AnnotationUse) : Element where
  tree := .nested use.type (use.arguments.entries.map fun a => (a.1, a.2.tree))
  ordered := by
    refine ⟨List.pairwise_map.2 use.arguments.ascending, ElementTree.orderedArguments_iff.2 ?_⟩
    intro a ha
    obtain ⟨b, _, rfl⟩ := List.mem_map.1 ha
    exact b.2.ordered

def array (items : List Element) : Element where
  tree := .array (items.map tree)
  ordered := by
    refine ElementTree.orderedItems_iff.2 fun t ht => ?_
    obtain ⟨e, _, rfl⟩ := List.mem_map.1 ht
    exact e.ordered

end Element

end AnnotationGraph
