import AccessibleMarkup.Text.Blank

/-! Failures of a command, with the chain of their causes. -/
namespace AccessibleMarkup

/-- What failed, and why, from the outermost cause to the innermost. -/
structure Failure where
  message : String
  causes : List String := []
  deriving DecidableEq, Repr

namespace Failure

/-- The failure of something larger because of this one. -/
def within (failure : Failure) (message : String) : Failure :=
  { message, causes := failure.message :: failure.causes }

/-- A text with a mark before its first line and blanks before the others. -/
def indent (mark following : String) (text : String) : String :=
  String.intercalate ("\n" ++ following)
    (((mark ++ text).toList.splitOn '\n').map String.ofList)

def numbered (cause : String) (number : Nat) : String := indent s!"    {number}: " "       " cause

def causeLines : List String → List String
  | [] => []
  | [cause] => [indent "    " "    " cause]
  | causes => causes.zipIdx.map fun (cause, number) => numbered cause number

def text (failure : Failure) : String :=
  s!"Error: {failure.message}" ++
    if failure.causes.isEmpty then ""
    else "\n\nCaused by:\n" ++ String.intercalate "\n" (causeLines failure.causes)

end Failure

end AccessibleMarkup
