/-!
Blank characters, text with what is blank at its ends taken off, and hexadecimal digits in either case. Trimming at one
end or both is stated for any class of characters, since quotes are trimmed the same way.
-/
namespace MapStyle.Text

def isBlank (c : Char) : Bool :=
  let n := c.toNat
  (9 ≤ n && n ≤ 13) || n == 0x20 || n == 0x85 || n == 0xA0 || n == 0x1680 ||
    (0x2000 ≤ n && n ≤ 0x200A) || n == 0x2028 || n == 0x2029 || n == 0x202F || n == 0x205F || n == 0x3000

def dropEndWhile (p : Char → Bool) (cs : List Char) : List Char :=
  (cs.reverse.dropWhile p).reverse

def stripBoth (p : Char → Bool) (cs : List Char) : List Char :=
  dropEndWhile p (cs.dropWhile p)

/-- `s` without the characters of the class `p` at its two ends. -/
def strip (p : Char → Bool) (s : String) : String :=
  String.ofList (stripBoth p s.toList)

def trim (s : String) : String := strip isBlank s

def removeBlanks (s : String) : String :=
  String.ofList (s.toList.filter fun c => !isBlank c)

/-- The maximal runs of characters outside the class `p`; `run` is the one being read. -/
def fieldsFrom (p : Char → Bool) (run : List Char) : List Char → List (List Char)
  | [] => if run.isEmpty then [] else [run]
  | c :: cs =>
    if p c then (if run.isEmpty then [] else [run]) ++ fieldsFrom p [] cs
    else fieldsFrom p (run ++ [c]) cs

def words (s : String) : List String :=
  (fieldsFrom isBlank [] s.toList).map String.ofList

def lower (s : String) : String := String.ofList (s.toList.map Char.toLower)

def isQuote (c : Char) : Bool := c == '"' || c == '\''

def hexValue? (c : Char) : Option Nat :=
  if c.isDigit then some (c.toNat - '0'.toNat)
  else if 'a' ≤ c.toLower && c.toLower ≤ 'f' then some (c.toLower.toNat - 'a'.toNat + 10)
  else none

def isHexDigit (c : Char) : Bool := (hexValue? c).isSome

/-- The value of a run of digits, most significant first; a character that is no digit counts as zero. -/
def hexNumber (cs : List Char) : Nat := cs.foldl (fun n c => 16 * n + (hexValue? c).getD 0) 0

theorem dropEndWhile_sublist (p : Char → Bool) (cs : List Char) : (dropEndWhile p cs).Sublist cs := by
  unfold dropEndWhile
  exact (List.reverse_sublist.mpr (List.dropWhile_sublist p)).trans (by simp)

theorem stripBoth_sublist (p : Char → Bool) (cs : List Char) : (stripBoth p cs).Sublist cs :=
  (dropEndWhile_sublist p _).trans (List.dropWhile_sublist p)

end MapStyle.Text
