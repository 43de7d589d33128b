/-!
The comparison operators of filters and their symbols.
-/
namespace MapStyle

inductive Comparison where
  | equal
  | different
  | regex
  | modulo
  | greater
  | atLeast
  | less
  | atMost
deriving DecidableEq

namespace Comparison

def symbol : Comparison → String
  | equal => "="
  | different => "!="
  | regex => "=~"
  | modulo => "%"
  | greater => ">"
  | atLeast => ">="
  | less => "<"
  | atMost => "<="

def all : List Comparison := [equal, different, regex, modulo, greater, atLeast, less, atMost]

def ofSymbol? (s : String) : Option Comparison := all.find? fun op => op.symbol == s

theorem symbol_injective : ∀ a b : Comparison, a.symbol = b.symbol → a = b := by
  intro a b; cases a <;> cases b <;> decide

end Comparison
end MapStyle
