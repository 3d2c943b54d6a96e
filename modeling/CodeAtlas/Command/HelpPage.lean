import CodeAtlas.Text.Search

/-!
# Help pages

A page shows how a program is called and what its arguments mean. The call stands on one line if it
fits; else the options and the positional arguments start a line each, and lines are filled up to
the width of a page.
-/

namespace CodeAtlas

/-- A page: the parts of a call, and the lines that explain it. -/
structure HelpPage where
  options : List String
  positionals : List String := []
  body : List String

namespace HelpPage

def width : Nat := 78

def callMark : String := "usage: "

/-- Fills lines with parts, where the last line already takes `taken` characters. -/
def fill (indent : Nat) : (taken : Nat) → (line : List String) → List String → List (List String)
  | _, [], [] => []
  | _, line, [] => [line.reverse]
  | taken, line, part :: rest =>
    if width < taken + 1 + part.length && !line.isEmpty then
      line.reverse :: fill indent (indent + part.length) [part] rest
    else fill indent (taken + 1 + part.length) (part :: line) rest

def indented (indent : Nat) (line : List String) : String :=
  String.ofList (List.replicate indent ' ') ++ String.intercalate " " line

def call (p : HelpPage) (program : String) : List String :=
  let whole := callMark ++ String.intercalate " " (program :: p.options ++ p.positionals)
  if whole.length ≤ width then [whole]
  else
    let indent := callMark.length + program.length + 1
    let filled := fill indent (callMark.length - 1) [] (program :: p.options)
    let options := match filled with
      | first :: rest => (callMark ++ String.intercalate " " first) :: rest.map (indented indent)
      | [] => []
    options ++ (fill indent (indent - 1) [] p.positionals).map (indented indent)

def text (p : HelpPage) (program : String) : String :=
  String.intercalate "\n" (p.call program ++ "" :: p.body)

/-- The lines of a row: a name, and what it means from a column on. A name that comes near the
column has a line of its own. -/
def row (column : Nat) (name meaning : String) : List String :=
  if meaning.isEmpty then ["  " ++ name]
  else if name.length + 4 ≤ column then ["  " ++ name ++ indented (column - 2 - name.length) [meaning]]
  else ["  " ++ name, indented column [meaning]]

/-- The page of a program with positional arguments and options, all but the first of which may be
left out. -/
def page (about : List String) (positionals options : List (String × String)) : HelpPage :=
  let options := ("-h, --help", "show this help message and exit") :: options
  let widest := ((positionals ++ options).map fun e ↦ e.1.length).foldl max 0
  let rows (title : String) (part : List (String × String)) : List String :=
    if part.isEmpty then [] else title :: part.flatMap fun e ↦ row (min 24 (widest + 4)) e.1 e.2
  let parts := [about, rows "positional arguments:" positionals, rows "options:" options]
  { options := "[-h]" :: options.tail.map fun e ↦ "[" ++ e.1 ++ "]"
    positionals := positionals.map Prod.fst
    body := List.intercalate [""] (parts.filter fun part ↦ !part.isEmpty) }

end HelpPage

end CodeAtlas
