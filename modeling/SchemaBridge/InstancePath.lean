/-!
Paths into an instance: the steps that lead from the whole value to one of its parts, and the text
that shows them after a dollar sign.
-/

namespace SchemaBridge

/-- A step into a value. -/
inductive Segment where
  | key (name : String)
  | index (position : Nat)
deriving DecidableEq

/-- The text of a step. -/
def Segment.text : Segment → String
  | key name => "." ++ name
  | index position => "[" ++ toString position ++ "]"

/-- The steps to a part of a value, the first step first. -/
abbrev InstancePath := List Segment

namespace InstancePath

/-- The path to a part of the value that a path leads to. -/
def child (path : InstancePath) (segment : Segment) : InstancePath :=
  path ++ [segment]

def text (path : InstancePath) : String :=
  "$" ++ String.join (path.map Segment.text)

end InstancePath

end SchemaBridge
