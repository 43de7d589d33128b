import MapStyle.Color.Named
import MapStyle.Number.Basic
import MapStyle.Number.Decimal
import MapStyle.Text.Characters
import MapStyle.Text.Split
/-!
The notations of CSS for colors: names, hexadecimal digits, and functions of a color space. Channels are computed in
single precision.
-/
namespace MapStyle.Color
open Text

/-- A whole number of steps of `2 ^ -149` as a number of single precision. -/
def singleOfSteps (negative : Bool) (steps : Nat) : Float32 :=
  let shift := steps.log2 - 23
  let magnitude := (Float32.ofNat (steps >>> shift)).scaleB ((shift : Int) - 149)
  if negative then -magnitude else magnitude

def infiniteSingle (negative : Bool) : Float32 := (if negative then -1.0 else 1.0) / 0.0

def single? (cs : List Char) : Option Float32 :=
  let (negative, rest) := Decimal.splitSign cs
  match Decimal.read? rest with
  | some d => some (match Format.binary32.ofDecimal? d with
    | some steps => singleOfSteps negative steps
    | none => infiniteSingle negative)
  | none => (Number.readWord? (String.ofList (rest.map Char.toLower))).map fun
    | word => match word negative with
      | .infinite negative => infiniteSingle negative
      | _ => 0.0 / 0.0

/-- The remainder of the truncating division by a whole number. It is exact. -/
def remainder (x : Float32) (n : Nat) : Float32 :=
  let bits := x.toBits.toNat
  let biased := bits / twoTo 23 % 256
  if biased = 255 then 0.0 / 0.0
  else
    let significand := if biased = 0 then bits % twoTo 23 else bits % twoTo 23 + twoTo 23
    let scale := max biased 1 - 1
    let rest := significand * twoTo scale % (n * twoTo 149)
    singleOfSteps (bits ≥ twoTo 31) rest

def modulo (x : Float32) (n : Nat) : Float32 := remainder (remainder x n + Float32.ofNat n) n

def unit (x : Float32) : Float32 := if x < 0.0 then 0.0 else if 1.0 < x then 1.0 else x

def nonnegative (x : Float32) : Float32 := if 0.0 < x then x else 0.0

def channel (x : Float32) : UInt8 := (x * 255.0 + 0.5).toUInt8

/-- A percentage, as a fraction and marked as one, or a plain number divided by `whole`. -/
def quantity? (whole : Float32) (cs : List Char) : Option (Float32 × Bool) :=
  let fraction := if cs.getLast? == some '%' then single? cs.dropLast else none
  match fraction with
  | some x => some (x / 100.0, true)
  | none => (single? cs).map fun x => (x / whole, false)

def pi : Float32 := 3.14159265358979323846

def degreesPerRadian : Float32 := 57.2957795130823208767981548141051703

def dropSuffix? (suffix cs : List Char) : Option (List Char) :=
  let front := cs.take (cs.length - suffix.length)
  if (cs.drop front.length).map Char.toLower == suffix then some front else none

def inUnit? (suffix : String) (toDegrees : Float32 → Float32) (cs : List Char) : Option Float32 :=
  ((dropSuffix? suffix.toList cs).bind single?).map toDegrees

def angle? (cs : List Char) : Option Float32 :=
  [inUnit? "deg" id cs, inUnit? "grad" (fun t => t * 360.0 / 400.0) cs, inUnit? "rad" (fun t => t * degreesPerRadian) cs,
    inUnit? "turn" (fun t => t * 360.0) cs, single? cs].findSome? id

structure Channels where
  red : Float32
  green : Float32
  blue : Float32

def Channels.map (f : Float32 → Float32) (c : Channels) : Channels := ⟨f c.red, f c.green, f c.blue⟩

def Channels.toColor (c : Channels) (alpha : Float32) : Color :=
  ⟨channel c.red, channel c.green, channel c.blue, channel alpha⟩

/-- One channel of a hue in sixths of a turn, between the levels `low` and `high`. -/
def hueChannel (low high hue : Float32) : Float32 :=
  let h := modulo hue 6
  if h < 1.0 then low + ((high - low) * h)
  else if h < 3.0 then high
  else if h < 4.0 then low + ((high - low) * (4.0 - h))
  else low

def ofHsl (hue saturation lightness : Float32) : Channels :=
  if saturation == 0.0 then ⟨lightness, lightness, lightness⟩
  else
    let high := if lightness < 0.5 then lightness * (1.0 + saturation)
      else lightness + saturation - (lightness * saturation)
    let low := 2.0 * lightness - high
    let h := hue / 60.0
    ⟨hueChannel low high (h + 2.0), hueChannel low high h, hueChannel low high (h - 2.0)⟩

def ofHwb (hue white black : Float32) : Channels :=
  if 1.0 ≤ white + black then
    let grey := white / (white + black)
    ⟨grey, grey, grey⟩
  else (ofHsl hue 1.0 0.5).map fun x => x * (1.0 - white - black) + white

def ofHsv (hue saturation value : Float32) : Channels :=
  let lightness := (2.0 - saturation) * value / 2.0
  let spread := if lightness == 0.0 then saturation
    else if lightness == 1.0 then 0.0
    else if lightness < 0.5 then saturation * value / (lightness * 2.0)
    else saturation * value / (2.0 - lightness * 2.0)
  ofHsl hue spread lightness

def cube (x : Float32) : Float32 := x * x * x

def gammaEncode (x : Float32) : Float32 :=
  if 0.0031308 ≤ x then 1.055 * x.pow (1.0 / 2.4) - 0.055 else 12.92 * x

def ofOklab (lightness a b : Float32) : Channels :=
  let l := cube (lightness + 0.3963377774 * a + 0.2158037573 * b)
  let m := cube (lightness - 0.1055613458 * a - 0.0638541728 * b)
  let s := cube (lightness - 0.0894841775 * a - 1.2914855480 * b)
  (Channels.mk (4.0767416621 * l - 3.3077115913 * m + 0.2309699292 * s)
    (-1.2684380046 * l + 2.6097574011 * m - 0.3413193965 * s)
    (-0.0041960863 * l - 0.7034186147 * m + 1.7076147010 * s)).map gammaEncode

def ofOklch (lightness chroma hue : Float32) : Channels :=
  let radians := hue * (pi / 180.0)
  ofOklab lightness (chroma * radians.cos) (chroma * radians.sin)

def alike (a b : Float32 × Bool) : Bool := a.2 == b.2

def rgbOf (x y z : List Char) : Option Channels := do
  let red ← quantity? 255.0 x
  let green ← quantity? 255.0 y
  let blue ← quantity? 255.0 z
  if alike red green && alike green blue then some ⟨unit red.1, unit green.1, unit blue.1⟩ else none

def hueOf (build : Float32 → Float32 → Float32 → Channels) (x y z : List Char) : Option Channels := do
  let hue ← angle? x
  let second ← quantity? 1.0 y
  let third ← quantity? 1.0 z
  if alike second third then some (build (modulo hue 360) (unit second.1) (unit third.1)) else none

def distance (quantity : Float32 × Bool) : Float32 := if quantity.2 then quantity.1 * 0.4 else quantity.1

/-- A place on an axis: percentages from -100 to 100 are mapped to the range from -0.4 to 0.4, counted from its lower
end. -/
def axis (quantity : Float32 × Bool) : Float32 := if quantity.2 then (quantity.1 + 1.0) * 0.4 - 0.4 else quantity.1

def oklabOf (x y z : List Char) : Option Channels := do
  let lightness ← quantity? 1.0 x
  let a ← quantity? 1.0 y
  let b ← quantity? 1.0 z
  some (ofOklab (nonnegative lightness.1) (axis a) (axis b))

def oklchOf (x y z : List Char) : Option Channels := do
  let lightness ← quantity? 1.0 x
  let chroma ← quantity? 1.0 y
  let hue ← angle? z
  some (ofOklch (nonnegative lightness.1) (nonnegative (distance chroma)) hue)

def spaceTable : List (String × (List Char → List Char → List Char → Option Channels)) :=
  [("rgb", rgbOf), ("rgba", rgbOf), ("hsl", hueOf ofHsl), ("hsla", hueOf ofHsl), ("hwb", hueOf ofHwb),
   ("hwba", hueOf ofHwb), ("hsv", hueOf ofHsv), ("hsva", hueOf ofHsv), ("oklab", oklabOf), ("oklch", oklchOf)]

def isArgumentSpace (c : Char) : Bool :=
  c == ',' || c == '/' || c == ' ' || c == '\t' || c == '\n' || c == '\x0c' || c == '\r'

def call? (name args : List Char) : Option Color := do
  let (channels, alpha) ← match fieldsFrom isArgumentSpace [] args with
    | [x, y, z] => some ((x, y, z), (1.0 : Float32))
    | [x, y, z, a] => (quantity? 1.0 a).map fun alpha => ((x, y, z), unit alpha.1)
    | _ => none
  let space ← spaceTable.lookup (lower (String.ofList (dropEndWhile isBlank name)))
  let (x, y, z) := channels
  return (← space x y z).toColor alpha

def byte? (a b : Char) : Option UInt8 := do
  let high ← if a == '+' then some 0 else hexValue? a
  return UInt8.ofNat (16 * high + (← hexValue? b))

def nibble? (a : Char) : Option UInt8 := do
  let n ← hexValue? a
  return UInt8.ofNat (17 * n)

/-- One or two digits for each channel, the alpha channel last where there are four. -/
def hex? : List Char → Option Color
  | [r, g, b] => do return rgb (← nibble? r) (← nibble? g) (← nibble? b)
  | [r, g, b, a] => do return ⟨← nibble? r, ← nibble? g, ← nibble? b, ← nibble? a⟩
  | [r, r', g, g', b, b'] => do return rgb (← byte? r r') (← byte? g g') (← byte? b b')
  | [r, r', g, g', b, b', a, a'] => do return ⟨← byte? r r', ← byte? g g', ← byte? b b', ← byte? a a'⟩
  | _ => none

/-- A trimmed color: a function where there is an opening parenthesis and a closing one ends it, else hexadecimal
digits or a name. -/
def readChars? (cs : List Char) : Option Color :=
  let name := lower (String.ofList cs)
  if name == "transparent" then some ⟨0, 0, 0, 0⟩
  else match cs with
    | '#' :: digits => hex? digits
    | cs =>
      match splitOnce? '(' cs, cs.getLast? with
      | some (fn, rest), some ')' => call? fn rest.dropLast
      | _, _ => (hex? cs).orElse fun _ => named? name

def read? (s : String) : Option Color :=
  readChars? (stripBoth isBlank (stripBoth isQuote (stripBoth isBlank s.toList)))

end MapStyle.Color
