/-! Paths as text.

    A path is a text of segments with slashes between. Blank segments and segments of one dot say
    nothing, save a dot in front. These functions work on the text alone and never look at what a
    path leads to. -/

namespace ButtonDialog.PathText

/-- The segments of a path, those that say nothing included. -/
def segments (path : String) : List String := (path.toList.splitOn '/').map String.ofList

/-- A segment that says nothing, save in front. -/
def isIdle (segment : String) : Bool := segment.isEmpty || segment == "."

/-- The segments of a path that say something. -/
def steps (path : String) : List String := (segments path).filter fun s => !isIdle s

/-- A path that starts at the root. -/
def isRooted (path : String) : Bool := path.toList.head? == some '/'

/-- Segments without those at the end that say nothing; the first one stays. -/
def trimmed : List String → List String
  | [] => []
  | first :: rest =>
    first :: (rest.reverse.dropWhile isIdle).reverse

/-- Segments in writing; the lone segment in front of the root slash is the root. -/
def ofSegments (rooted : Bool) (segments : List String) : String :=
  if rooted && segments == [""] then "/" else String.intercalate "/" segments

/-- The path of the directory around, unless the path is blank or the root. -/
def parent? (path : String) : Option String :=
  let all := trimmed (segments path)
  if all == [""] then none
  else some (ofSegments (isRooted path) (trimmed all.dropLast))

/-- The name that a path ends in, unless it ends in dots or at the root. -/
def fileName? (path : String) : Option String :=
  (trimmed (segments path)).getLast?.filter fun s => !(isIdle s || s == "..")

/-- A path taken from a base; a path from the root stands for itself. -/
def join (base path : String) : String :=
  if isRooted path || base.isEmpty then path
  else if base.toList.getLast? == some '/' then base ++ path
  else base ++ "/" ++ path

/-- A path that ends in a name, without what says nothing after the name. -/
def toName? (path : String) : Option String := do
  return join (← parent? path) (← fileName? path)

end ButtonDialog.PathText
