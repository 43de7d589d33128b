import MapStyle.Project.Reading
import MapStyle.Text.Split
/-!
The files of a project: texts by their paths, which are relative to one directory.
-/
namespace MapStyle

namespace Path

def steps (path : String) : List String :=
  (Text.splitAt '/' path).filter fun step => step != "" && step != "."

/-- Whether the path can be that of a file below the directory: it starts there and ends with a name. -/
def namesFile (path : String) : Bool :=
  path.toList.head? != some '/' && match (Text.splitAt '/' path).getLast? with
    | some last => last != "" && last != "."
    | none => false

def join (directory path : String) : String :=
  if path.toList.head? == some '/' || directory.isEmpty then path else directory ++ "/" ++ path

def directory (path : String) : String := String.intercalate "/" (steps path).dropLast

/-- What follows the last point of the file's name, if something precedes it. -/
def extension? (path : String) : Option String :=
  match (steps path).getLast?.map (Text.splitAt '.') with
  | some parts => if parts.length ≤ 1 || parts.dropLast == [""] then none else parts.getLast?
  | none => none

end Path

structure Files where
  entries : List (String × String)

namespace Files

def empty : Files := ⟨[]⟩

def read? (files : Files) (path : String) : Option String :=
  if Path.namesFile path then
    (files.entries.find? fun entry => Path.steps entry.1 == Path.steps path).map Prod.snd
  else none

end Files

def ProjectFormat.ofPath (path : String) : ProjectFormat :=
  match (Path.extension? path).map Text.lower with
  | some "yml" | some "yaml" => .yaml
  | _ => .json

inductive ProjectError where
  | unreadable (path : String)
  | malformed (format : ProjectFormat)
deriving DecidableEq

namespace Project

def read (format : ProjectFormat) (text : String) : Except ProjectError Project :=
  match ofText? format text with
  | some project => .ok project
  | none => .error (.malformed format)

def load (files : Files) (path : String) : Except ProjectError Project :=
  match files.read? path with
  | some text => read (ProjectFormat.ofPath path) text
  | none => .error (.unreadable path)

end Project
end MapStyle
