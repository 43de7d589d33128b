import MapStyle.Document.Basic
import MapStyle.Number.Decimal
import MapStyle.Text.Characters
/-!
What a scalar without quotes stands for: nothing, a truth value, a number, or its text. Each question that a reader can
ask has its own grammar.
-/
namespace MapStyle.Document.Plain
open Text

def isNull (s : String) : Bool := ["", "~", "null", "Null", "NULL"].contains s

def boolean? (s : String) : Option Bool :=
  if ["true", "True", "TRUE"].contains s then some true
  else if ["false", "False", "FALSE"].contains s then some false
  else none

def isPadded (cs : List Char) : Bool :=
  match (Decimal.splitSign cs).2 with
  | '0' :: d :: rest => (d :: rest).all Char.isDigit
  | _ => false

def digitsIn? (base : Nat) (cs : List Char) : Option Nat :=
  if cs.isEmpty then none
  else cs.foldlM (fun n c => (hexValue? c).bind fun d => if d < base then some (base * n + d) else none) 0

/-- A number without a sign: hexadecimal, octal or binary after its mark, else decimal. -/
def unsigned? (cs : List Char) : Option Nat :=
  match cs with
  | '0' :: 'x' :: digits => digitsIn? 16 digits
  | '0' :: 'o' :: digits => digitsIn? 8 digits
  | '0' :: 'b' :: digits => digitsIn? 2 digits
  | digits => digitsIn? 10 digits

/-- A whole number of any size, behind whether it has a minus sign. -/
def anyWhole? (s : String) : Option (Bool × Nat) :=
  if isPadded s.toList then none
  else
    let (negative, digits) := Decimal.splitSign s.toList
    (unsigned? digits).map (negative, ·)

def natural? (s : String) : Option Nat :=
  (anyWhole? s).bind fun number => if number.1 then none else some number.2

/-- A whole number that fits in so many bits, one of which is for the sign where it is negative. -/
def fits (bits : Nat) (negative : Bool) (size : Nat) : Bool :=
  if negative then size ≤ twoTo (bits - 1) else size < twoTo bits

def whole? (s : String) : Option Document :=
  (anyWhole? s).bind fun (negative, size) =>
    if fits 64 negative size then some (.whole negative size)
    else if fits 128 negative size then some .unusable
    else none

def isFinite : Number → Bool
  | .finite _ _ => true
  | _ => false

def word? (s : String) : Option Number :=
  if [".inf", ".Inf", ".INF", "+.inf", "+.Inf", "+.INF"].contains s then some (.infinite false)
  else if ["-.inf", "-.Inf", "-.INF"].contains s then some (.infinite true)
  else if [".nan", ".NaN", ".NAN"].contains s then some .nan
  else none

def fraction? (s : String) : Option Number :=
  (word? s).orElse fun _ => (Number.read? s).bind fun n => if isFinite n then some n else none

def number? (s : String) : Option Document :=
  (fraction? s).map fun x => if isFinite x then .fraction x else .null

def settle (s : String) : Document :=
  if isNull s then .null
  else match boolean? s, whole? s with
    | some b, _ => .boolean b
    | none, some n => n
    | none, none => if isPadded s.toList then .text s else (number? s).getD (.text s)

def kindTag (kind : String) : String := "tag:yaml.org,2002:" ++ kind

def settleAs? (tag s : String) : Option Document :=
  if tag == kindTag "bool" then (boolean? s).map .boolean
  else if tag == kindTag "int" then whole? s
  else if tag == kindTag "float" then number? s
  else if tag == kindTag "null" then (if isNull s && s != "" then some .null else none)
  else some (.text s)

end MapStyle.Document.Plain
