import CommandPack.Text.Segments

namespace CommandPack.FilePath

/-- One path below another. An absolute path stands for itself; no second slash is written. -/
def join (base path : String) : String :=
  if path.toList.head? = some '/' then path
  else if base = "" ∨ base.toList.getLast? = some '/' then base ++ path
  else base ++ "/" ++ path

def isSkipped (segment : List Char) : Bool := segment.isEmpty || segment == ['.']

/-- What a path starts with apart from its components: the root, a leading `.`, or nothing. -/
def lead (path : List Char) : List Char :=
  match path with
  | '/' :: _ => ['/']
  | ['.'] => ['.']
  | '.' :: '/' :: _ => ['.']
  | _ => []

def reversedBody (path : List Char) : List (List Char) :=
  (Text.segments '/' (path.drop (lead path).length)).reverse

def shorterBodies : List (List Char) → List (List (List Char))
  | [] => []
  | s :: rest =>
    if isSkipped s then shorterBodies rest
    else rest.dropWhile isSkipped :: shorterBodies rest

def ofBody (lead : List Char) (body : List (List Char)) : String :=
  String.ofList (lead ++ Text.joinSegments '/' body.reverse)

/-- The paths above a path, the nearest first. The empty path stands above a relative one and is
left out. -/
def ancestors (path : String) : List String :=
  ((shorterBodies (reversedBody path.toList)).map (ofBody (lead path.toList))).filter (· ≠ "")

def parent? (path : String) : Option String :=
  match shorterBodies (reversedBody path.toList) with
  | body :: _ => some (ofBody (lead path.toList) body)
  | [] => if lead path.toList = ['.'] then some "" else none

end CommandPack.FilePath
