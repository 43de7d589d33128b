import MapStyle.Declaration
import MapStyle.Element
import MapStyle.Value.Scope
/-!
Stylesheets as trees: the bindings of variables, and rulesets with selectors, declarations and nested rulesets.
-/
namespace MapStyle

inductive SelectorPart where
  | element (element : Element)
  | filter (key : String) (op : Comparison) (value : Expression)
  | zoom (op : Comparison) (value : Expression)
  | attachment (name : String)

/-- A selector as written, its variables not yet resolved. -/
structure WrittenSelector where
  parts : List SelectorPart
  index : Nat
  place : Place

/-- A list of selectors with its declarations and nested rulesets. -/
inductive Ruleset where
  | mk (selectors : List WrittenSelector) (declarations : List Declaration) (children : List Ruleset) (place : Place)

namespace Ruleset

def selectors : Ruleset → List WrittenSelector
  | mk selectors _ _ _ => selectors

def declarations : Ruleset → List Declaration
  | mk _ declarations _ _ => declarations

def children : Ruleset → List Ruleset
  | mk _ _ children _ => children

def place : Ruleset → Place
  | mk _ _ _ place => place

mutual
def span : Ruleset → Nat
  | mk selectors declarations children _ => selectors.length + declarations.length + spanAll children

def spanAll : List Ruleset → Nat
  | [] => 0
  | ruleset :: rest => span ruleset + spanAll rest
end

end Ruleset

structure Sheet where
  file : String
  bindings : List (String × Expression)
  rulesets : List Ruleset

namespace Sheet

def indexSpan (sheet : Sheet) : Nat := Ruleset.spanAll sheet.rulesets

def defineVariables (sheet : Sheet) (scope : Scope) : Scope := scope.defineAll sheet.bindings

end Sheet
end MapStyle
