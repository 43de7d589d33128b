/-!
Line comments. `//` hides the rest of its line, except in a string, in a block comment, or after a colon, where it
belongs to a url. Line breaks stay, so a line keeps its number.
-/
namespace MapStyle.LineComment

/-- What the characters read so far are part of; `plain` and `block` remember the character before. -/
inductive Mode where
  | plain (before : Char)
  | quoted (quote : Char)
  | escaped (quote : Char)
  | block (before : Char)
  | line

def stripFrom : Mode → List Char → List Char
  | _, [] => []
  | .plain before, c :: cs =>
    if c == '"' || c == '\'' then c :: stripFrom (.quoted c) cs
    else if c == '/' && cs.head? == some '*' then c :: stripFrom (.block '\x00') cs
    else if c == '/' && cs.head? == some '/' && before != ':' then stripFrom .line cs
    else c :: stripFrom (.plain c) cs
  | .quoted quote, c :: cs =>
    if c == '\\' then c :: stripFrom (.escaped quote) cs
    else if c == quote then c :: stripFrom (.plain c) cs
    else c :: stripFrom (.quoted quote) cs
  | .escaped quote, c :: cs => c :: stripFrom (.quoted quote) cs
  | .block before, c :: cs =>
    if before == '*' && c == '/' then c :: stripFrom (.plain '/') cs
    else c :: stripFrom (.block c) cs
  | .line, c :: cs =>
    if c == '\n' then c :: stripFrom (.plain '/') cs
    else stripFrom .line cs

def strip (cs : List Char) : List Char := stripFrom (.plain '\n') cs

end MapStyle.LineComment
