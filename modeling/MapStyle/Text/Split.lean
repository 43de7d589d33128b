import MapStyle.Text.Characters
/-!
Splitting at separators, joining, and the comma lists whose items may hold commas in parentheses.
-/
namespace MapStyle.Text

/-- The parts between the elements for which `p` holds; there is always one more part than separators. -/
def splitBy {α : Type} (p : α → Bool) : List α → List (List α)
  | [] => [[]]
  | x :: xs =>
    if p x then [] :: splitBy p xs
    else match splitBy p xs with
      | part :: parts => (x :: part) :: parts
      | [] => [[x]]

theorem splitBy_ne_nil {α : Type} (p : α → Bool) (xs : List α) : splitBy p xs ≠ [] := by
  cases xs with
  | nil => simp [splitBy]
  | cons x xs =>
    unfold splitBy
    split
    · simp
    · split <;> simp

def splitAt (separator : Char) (s : String) : List String :=
  (splitBy (· == separator) s.toList).map String.ofList

/-- Splits at the first `separator`; none when there is no such character. -/
def splitOnce? (separator : Char) (cs : List Char) : Option (List Char × List Char) :=
  match cs.dropWhile (· != separator) with
  | [] => none
  | _ :: rest => some (cs.takeWhile (· != separator), rest)

def dropPrefix? : (start text : List Char) → Option (List Char)
  | [], cs => some cs
  | _ :: _, [] => none
  | a :: start, c :: cs => if a == c then dropPrefix? start cs else none

def afterPrefix? (start s : String) : Option String :=
  (dropPrefix? start.toList s.toList).map String.ofList

/-- The items between the commas outside parentheses. `depth` counts the parentheses that are open, and a closing one
too many is ignored; `item` is what was read of the current item, last character first. -/
def topLevelFrom (depth : Nat) (item : List Char) : List Char → List (List Char)
  | [] => [item.reverse]
  | c :: cs =>
    if c == ',' && depth == 0 then item.reverse :: topLevelFrom 0 [] cs
    else topLevelFrom (if c == '(' then depth + 1 else if c == ')' then depth - 1 else depth) (c :: item) cs

def splitTopLevelChars (cs : List Char) : List (List Char) :=
  let items := (topLevelFrom 0 [] cs).map (stripBoth isBlank)
  if items.getLast? == some [] then items.dropLast else items

def splitTopLevel (s : String) : List String := (splitTopLevelChars s.toList).map String.ofList

def stripQuote? (quote : Char) : List Char → Option (List Char)
  | c :: rest => if c == quote && rest.getLast? == some quote then some rest.dropLast else none
  | [] => none

def unquoteChars (cs : List Char) : List Char :=
  let trimmed := stripBoth isBlank cs
  ((stripQuote? '"' trimmed).orElse fun _ => stripQuote? '\'' trimmed).getD trimmed

def unquote (s : String) : String := String.ofList (unquoteChars s.toList)

def replaceChars (target replacement : List Char) (cs : List Char) : List Char :=
  match cs with
  | [] => []
  | c :: rest =>
    match dropPrefix? target (c :: rest) with
    | some after =>
      if after.length < rest.length + 1 then replacement ++ replaceChars target replacement (rest.drop (target.length - 1))
      else c :: replaceChars target replacement rest
    | none => c :: replaceChars target replacement rest
termination_by cs.length
decreasing_by all_goals (simp only [List.length_drop, List.length_cons]; omega)

def replace (target replacement s : String) : String :=
  String.ofList (replaceChars target.toList replacement.toList s.toList)

end MapStyle.Text
