import CodeAtlas.Text.Search

/-!
# Faults

What can go wrong while a document, a source text or a file is worked on, by cause, and the one
sentence that is reported for each cause.
-/

namespace CodeAtlas

inductive Kind
  | null
  | bool
  | int
  | float
  | str
  | list
  | dict
deriving DecidableEq, Repr

def Kind.name : Kind → String
  | .null => "NoneType"
  | .bool => "bool"
  | .int => "int"
  | .float => "float"
  | .str => "str"
  | .list => "list"
  | .dict => "dict"

inductive Fault
  /-- A required key is absent; the text is the key as it is shown in reports. -/
  | missingKey (shown : String)
  /-- A value of this kind has no member of this name. -/
  | noMember (kind : Kind) (member : String)
  /-- Operands of a kind that the operation does not take. -/
  | badOperand (detail : String)
  | malformedJson (detail : String)
  | undecodable (detail : String)
  | malformedSource
  /-- A markup declaration of an unknown keyword. -/
  | malformedMarkup (detail : String)
  /-- A number out of the range that its text form allows. -/
  | badValue (detail : String)
  /-- A number beyond the range of the kind it is turned into. -/
  | tooLarge (detail : String)
  /-- Something that nests too deep, with the work at which this was met if it is known. -/
  | tooDeep (work : String)
  | outOfRange
  | badGroup
  | noSuchFile (path : String)
  | isDirectory (path : String)
  | notDirectory (path : String)
  | alreadyExists (path : String)
  | nameTooLong (path : String)
deriving DecidableEq, Repr

def Fault.message : Fault → String
  | .missingKey shown => shown
  | .noMember kind member => s!"'{kind.name}' object has no attribute '{member}'"
  | .badOperand detail => detail
  | .malformedJson detail => detail
  | .undecodable detail => detail
  | .malformedSource => "SyntaxError"
  | .malformedMarkup detail => detail
  | .badValue detail => detail
  | .tooLarge detail => detail
  | .tooDeep work => "maximum recursion depth exceeded" ++ (if work = "" then "" else " " ++ work)
  | .outOfRange => "list index out of range"
  | .badGroup => "no such group"
  | .noSuchFile path => s!"[Errno 2] No such file or directory: {Text.shownText path}"
  | .isDirectory path => s!"[Errno 21] Is a directory: {Text.shownText path}"
  | .notDirectory path => s!"[Errno 20] Not a directory: {Text.shownText path}"
  | .alreadyExists path => s!"[Errno 17] File exists: {Text.shownText path}"
  | .nameTooLong path => s!"[Errno 36] File name too long: {Text.shownText path}"

/-- A computation that may fail is a step of one that also has a state. -/
instance liftExcept {ε σ : Type} : MonadLift (Except ε) (EStateM ε σ) where
  monadLift
    | .ok a => pure a
    | .error e => throw e

end CodeAtlas
