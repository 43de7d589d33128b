import MapStyle.Symbolizer.Basic
/-!
The properties that a renderer knows: those of a whole style, and those of each kind of symbolizer.
-/
namespace MapStyle

/-- What a property configures. -/
inductive Target where
  | style
  | symbolizer (kind : Kind)
deriving DecidableEq

structure KnownProperty where
  name : String
  required : Bool
deriving DecidableEq

def optional (name : String) : KnownProperty := ⟨name, false⟩

def required (name : String) : KnownProperty := ⟨name, true⟩

structure Vocabulary where
  style : List String
  kinds : List (Kind × List KnownProperty)

namespace Vocabulary

def known (vocabulary : Vocabulary) (kind : Kind) : List KnownProperty :=
  (vocabulary.kinds.lookup kind).getD []

/-- Style properties come first, then the kinds in order; none for a property that is not known. -/
def target? (vocabulary : Vocabulary) (property : String) : Option Target :=
  if vocabulary.style.contains property then some .style
  else (vocabulary.kinds.find? fun entry => entry.2.any fun known => known.name == property).map fun entry =>
    .symbolizer entry.1

def isValid (vocabulary : Vocabulary) (kind : Kind) (property : String) : Bool :=
  (vocabulary.known kind).any fun known => known.name == property

def missing? (vocabulary : Vocabulary) (kind : Kind) (names : List String) : Option String :=
  ((vocabulary.known kind).find? fun known => known.required && !names.contains known.name).map KnownProperty.name

def size (vocabulary : Vocabulary) : Nat :=
  (vocabulary.style ++ vocabulary.kinds.flatMap fun entry => entry.2.map KnownProperty.name).eraseDups.length

end Vocabulary
end MapStyle
