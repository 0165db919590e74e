import RavBot.Lib.Path

/-!
# The sandbox

`ValidateFilePath` does not look at the workspace that it is given.

What `ValidateShellCommand` looks for are three regular expressions, which are searched without regard to
case.  Each begins at the beginning of a word.
-/

namespace RavBot.Security.Sandbox

open RavBot.Lib

/-! ## Commands -/

/-- `\w`. -/
def isWordChar (c : Char) : Bool := c.isAlphanum || c == '_'

/-- What comes after a word in lower case, without regard to case. -/
def afterWord (word s : List Char) : Option (List Char) :=
  if Text.toLower (s.take word.length) = word then some (s.drop word.length) else none

/-- `\s+`. -/
def afterSpaces (s : List Char) : Option (List Char) :=
  if s.head?.any Text.isSpace then some (s.dropWhile Text.isSpace) else none

/-- `rm\s+-rf\s+/`. -/
def isRemoval (s : List Char) : Bool :=
  ((((afterWord "rm".toList s).bind afterSpaces).bind (afterWord "-rf".toList)).bind
    afterSpaces).bind (afterWord "/".toList) |>.isSome

/-- `mkfs\b`. -/
def isMkfs (s : List Char) : Bool :=
  (afterWord "mkfs".toList s).any fun rest => !rest.head?.any isWordChar

/-- `dd\s+if=`. -/
def isDd (s : List Char) : Bool :=
  ((afterWord "dd".toList s).bind afterSpaces).bind (afterWord "if=".toList) |>.isSome

/-- Search for a pattern that begins with `\b` and a letter. -/
def searchWord (matchesAt : List Char → Bool) (inWord : Bool) : List Char → Bool
  | [] => false
  | c :: s => (!inWord && matchesAt (c :: s)) || searchWord matchesAt (isWordChar c) s

def validateShellCommand (command : String) : Bool :=
  !([isRemoval, isMkfs, isDd].any fun pattern => searchWord pattern false command.toList)

/-! ## Paths -/

/-- The text of the normal form has two dots in a row only where a name has. -/
def validateFilePath (path _workspace : String) : Bool :=
  !(Path.parse path.toList).normalNames.any fun name => (Text.find ['.', '.'] name).isSome

/-- `std::filesystem::absolute` in a current directory.  `none` is the exception for an empty path. -/
def absolute (cwd path : List Char) : Option (List Char) :=
  if path = [] then none
  else if path.head? = some '/' then some path
  else some ((if cwd.getLast? = some '/' then cwd else cwd ++ ['/']) ++ path)

/-- The loops of `IsPathAllowed`: whether the resolved path begins, as a string, with one of these. -/
def beginsWithAny (cwd resolved : List Char) : List String → Option Bool
  | [] => some false
  | path :: paths =>
    (absolute cwd path.toList).bind fun prefixPath =>
      if Text.find prefixPath resolved = some 0 then some true else beginsWithAny cwd resolved paths

/-- `IsPathAllowed`.  `none` is the exception that `absolute` throws. -/
def isPathAllowed (cwd : List Char) (allowed denied : List String) (path : String) : Option Bool :=
  (absolute cwd path.toList).bind fun resolved =>
    (beginsWithAny cwd resolved denied).bind fun isDenied =>
      if isDenied then some false
      else if allowed = [] then some true
      else beginsWithAny cwd resolved allowed

end RavBot.Security.Sandbox
