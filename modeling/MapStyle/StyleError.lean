import MapStyle.Filter.Comparison
/-!
What can be wrong with a stylesheet and where it was written. A `Flaw` is a cause found while reading or
resolving; a `StyleError` is any failure of the compiler. The wording stands in `message` alone.
-/
namespace MapStyle

/-- A line of a stylesheet file, counted from one. -/
structure Place where
  file : String
  line : Nat
deriving DecidableEq

def Place.text (place : Place) : String := place.file ++ ":" ++ toString place.line

inductive Flaw where
  | variableWithoutColon (name : String)
  | missingClassName
  | missingAttachmentName
  | strayInSelector (text : String)
  | emptySelector
  | filterWithoutComparison
  | filterWithoutKey
  | unknownComparison (symbol : String)
  | declarationWithoutColon (text : String)
  | unnamedDeclaration
  | missingValue
  | invalidNumber (text : String)
  | strayInValue (text : String)
  | looseDeclaration (name : String)
  | recursiveVariable (name : String)
  | zoomComparison (op : Comparison)
  | zoomNotWhole (text : String)
deriving DecidableEq

def quoted (text : String) : String := "'" ++ text ++ "'"

def Flaw.message : Flaw → String
  | variableWithoutColon name => "expected ':' after " ++ quoted ("@" ++ name)
  | missingClassName => "expected class name after '.'"
  | missingAttachmentName => "expected '::attachment'"
  | strayInSelector text => "unexpected " ++ quoted text ++ " in selector"
  | emptySelector => "empty selector"
  | filterWithoutComparison => "filter has no comparison operator"
  | filterWithoutKey => "filter has no key"
  | unknownComparison symbol => "unknown filter operator " ++ quoted symbol
  | declarationWithoutColon text => "expected ':' in declaration " ++ quoted text
  | unnamedDeclaration => "declaration has no property name"
  | missingValue => "missing value"
  | invalidNumber text => "invalid number " ++ quoted text
  | strayInValue text => "unexpected " ++ quoted text ++ " in value"
  | looseDeclaration name => "declaration " ++ quoted name ++ " outside of a ruleset"
  | recursiveVariable name => "variable " ++ quoted ("@" ++ name) ++ " is defined recursively"
  | zoomComparison op => "operator " ++ quoted op.symbol ++ " cannot be used with zoom"
  | zoomNotWhole text => "zoom level " ++ quoted text ++ " is not a number"

inductive StyleError where
  | flawed (flaw : Flaw) (place : Place)
  | zoomOutOfRange (level : Int) (place : Place)
  | undefinedVariable (name : String) (place : Place)
  | unknownProperty (property : String) (place : Place)
  | missingProperty (property symbolizer : String) (place : Place)
  | invalidValue (property value reason : String) (place : Place)
  | unsupported (operation : String)
deriving DecidableEq

namespace StyleError

def place? : StyleError → Option Place
  | flawed _ place | zoomOutOfRange _ place | undefinedVariable _ place | unknownProperty _ place
  | missingProperty _ _ place | invalidValue _ _ _ place => some place
  | unsupported _ => none

def description : StyleError → String
  | flawed flaw _ => flaw.message
  | zoomOutOfRange level _ => "zoom level " ++ toString level ++ " is outside of 0..22"
  | undefinedVariable name _ => "variable " ++ quoted ("@" ++ name) ++ " is undefined"
  | unknownProperty property _ => "Unknown property " ++ quoted property ++ "."
  | missingProperty property symbolizer _ =>
    "A required property " ++ quoted property ++ " is missing in " ++ symbolizer ++ "."
  | invalidValue property value reason _ =>
    "invalid value " ++ quoted value ++ " for " ++ quoted property ++ ": " ++ reason
  | unsupported operation => "operation " ++ quoted operation ++ " is not implemented"

/-- The place, if there is one, in front of the description. -/
def message (error : StyleError) : String :=
  match error.place? with
  | some place => place.text ++ ": " ++ error.description
  | none => error.description

end StyleError
end MapStyle
