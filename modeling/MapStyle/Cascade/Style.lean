import MapStyle.Cascade.Inheritance
import MapStyle.Number.Decimal
import MapStyle.Task
/-!
Styles: the definitions of one attachment of a layer, in the order in which a renderer tries them.
-/
namespace MapStyle

/-- How a renderer walks the rules of a style: to the first that fits a feature, or through all. -/
inductive FilterMode where
  | first
  | all
deriving DecidableEq

def FilterMode.name : FilterMode → String
  | first => "first"
  | all => "all"

def FilterMode.ofName? (name : String) : Option FilterMode :=
  [FilterMode.first, .all].find? fun mode => mode.name == name

structure Style where
  attachment : String
  definitions : List Definition

namespace Style

def isDefault (style : Style) : Bool := style.attachment == defaultAttachment

def noIndex : Nat := twoTo 32 - 1

def index (style : Style) : Nat := (style.definitions.filterMap Definition.minIndex?).min?.getD noIndex

def sort (styles : List Style) : List Style := styles.mergeSort fun a b => a.index ≤ b.index

/-- The styles of a piece of work, in the order in which their attachments first occur. -/
def ofWork (work : Inheritance.Work) : List Style :=
  let placed := work.placed.reverse
  (placed.map Prod.fst).eraseDups.map fun attachment =>
    ⟨attachment, (placed.filter fun entry => entry.1 == attachment).filterMap fun entry => work.arena[entry.2]?⟩

def evaluateFilters (scope : Scope) (definition : Definition) : Except StyleError Definition := do
  return { definition with filters := ← definition.filters.reevaluate scope }

def inherit (scope : Scope) (definitions : List Definition) : Except StyleError (List Style) := do
  return ofWork (Inheritance.resolve (← definitions.mapM (evaluateFilters scope)))

def modeDeclaration? (style : Style) : Option Declaration :=
  (style.definitions.flatMap Definition.declarations).find? fun declaration => declaration.property == "filter-mode"

def filterMode (style : Style) : Job FilterMode :=
  match style.modeDeclaration? with
  | none => pure .first
  | some declaration => do
    let value ← Job.value declaration.value
    match FilterMode.ofName? (Text.strip Text.isQuote value) with
    | some mode => pure mode
    | none => throw (.invalidValue declaration.property value "expected 'first' or 'all'" declaration.place)

def covers (earlier later : Definition) : Bool := later.filters.implies earlier.filters

def foldFrom (kept : List Definition) : (definitions : List Definition) → List Definition
  | [] => []
  | definition :: rest =>
    if kept.any fun earlier => covers earlier definition then foldFrom kept rest
    else definition :: foldFrom (kept ++ [definition]) rest

/-- Where only the first rule that fits draws, a definition that an earlier one covers is dropped. -/
def fold (style : Style) (mode : FilterMode) : Style :=
  match mode with
  | .all => style
  | .first => { style with definitions := foldFrom [] style.definitions }

def dropped (style : Style) (mode : FilterMode) : Nat :=
  style.definitions.length - (style.fold mode).definitions.length

end Style
end MapStyle
