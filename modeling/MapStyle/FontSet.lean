import MapStyle.Number.Decimal
import MapStyle.Text.Split
/-!
Font sets: each list of faces is registered once, under a generated name.
-/
namespace MapStyle
open Text

/-- Faces in order of preference. -/
structure FontSet where
  name : String
  faces : List String
deriving DecidableEq

namespace FontSet

/-- One face of a list, blanks and quotes around it taken off; none when nothing is left. -/
def face? (cs : List Char) : Option (List Char) :=
  match stripBoth isBlank (stripBoth isQuote (stripBoth isBlank cs)) with
  | [] => none
  | face => some face

def faceNames (value : String) : List String :=
  ((splitBy (· == ',') value.toList).filterMap face?).map String.ofList

def key (value : String) : String := String.intercalate ", " (faceNames value)

def nameOf (n : Nat) : String := "fontset-" ++ toString n

def noNumber : Nat := twoTo 64 - 1

def number (set : FontSet) : Nat :=
  ((splitBy (· == '-') set.name.toList).getLast?.bind Decimal.readNatural?).getD noNumber

def sort (sets : List FontSet) : List FontSet := sets.mergeSort fun a b => a.number ≤ b.number

end FontSet

/-- The registered font sets with their keys, in the order of registration. -/
structure FontSets where
  entries : List (String × FontSet)

namespace FontSets

def empty : FontSets := ⟨[]⟩

def find? (sets : FontSets) (value : String) : Option FontSet := sets.entries.lookup (FontSet.key value)

def size (sets : FontSets) : Nat := sets.entries.length

def nextName (sets : FontSets) : String := FontSet.nameOf (sets.size + 1)

def getOrCreate (sets : FontSets) (value : String) : FontSet × FontSets :=
  match sets.find? value with
  | some set => (set, sets)
  | none =>
    let key := FontSet.key value
    let set : FontSet := ⟨sets.nextName, FontSet.faceNames key⟩
    (set, ⟨sets.entries ++ [(key, set)]⟩)

def list (sets : FontSets) : List FontSet := FontSet.sort (sets.entries.map Prod.snd)

end FontSets
end MapStyle
