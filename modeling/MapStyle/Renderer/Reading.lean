import MapStyle.Color.Notation
import MapStyle.Number.Decimal
import MapStyle.Renderer.Basic
/-!
Reading the values of properties: numbers, colors, words and paths.
-/
namespace MapStyle
open Text

def readWord32? (cs : List Char) : Option Nat := (Decimal.readNatural? cs).filter fun value => value < twoTo 32

/-- A compositing operation by its name; `property` is where it was asked for. -/
def readCompositing (property value : String) : Except RenderError Compositing :=
  match Compositing.ofName? (unquote value) with
  | some mode => .ok mode
  | none => .error (.invalidValue property value "unknown compositing operation")

namespace Property

def invalid {α : Type} (p : Property) (reason : String) : Except RenderError α :=
  .error (.invalidValue p.name p.value reason)

def expect {α : Type} (p : Property) (reason : String) : Option α → Except RenderError α
  | some a => .ok a
  | none => p.invalid reason

def isUnitChar (c : Char) : Bool := c.isAlpha || c == '%'

def number (p : Property) : Except RenderError Number :=
  p.expect "expected a number" (Number.readChars? (dropEndWhile isUnitChar (unquoteChars p.value.toList)))

def numbers (p : Property) : Except RenderError (List Number) :=
  p.expect "expected a list of numbers"
    ((fieldsFrom (fun c => c == ',' || isBlank c) [] p.value.toList).mapM Number.readChars?)

def boolean (p : Property) : Except RenderError Bool :=
  match unquote p.value with
  | "true" => .ok true
  | "false" => .ok false
  | _ => p.invalid "expected true or false"

def color (p : Property) : Except RenderError Color := p.expect "expected a color" (Color.read? p.value)

def word (p : Property) : Except RenderError String := .ok (unquote p.value)

def compositing (p : Property) : Except RenderError Compositing := readCompositing p.name p.value

/-- What is between `url(` and the parenthesis that ends it. -/
def insideUrl (cs : List Char) : List Char :=
  match dropPrefix? "url(".toList cs with
  | some rest => if rest.getLast? == some ')' then rest.dropLast else cs
  | none => cs

def path (p : Property) : Except RenderError String :=
  .ok (String.ofList (unquoteChars (insideUrl (unquoteChars p.value.toList))))

def choice {α : Type} (choices : List (String × α)) (p : Property) : Except RenderError α :=
  p.expect ("expected one of " ++ String.intercalate ", " (choices.map Prod.fst)) (choices.lookup (unquote p.value))

/-- A whole number that is not negative, kept to 32 bits. -/
def count (p : Property) : Except RenderError Nat := do
  let n ← p.number
  match n.toInt? with
  | some (.ofNat n) => return min n (twoTo 32 - 1)
  | _ => p.invalid "expected a positive integer"

end Property
end MapStyle
