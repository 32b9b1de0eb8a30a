import ButtonDialog.Files.PathText

/-! A tree of files.

    The tree is the whole of what paths can lead to: files with their bytes, and the directories
    around them. A path that does not start at the root starts at the working directory. Reading,
    making directories and opening files fail as a system call would. -/

namespace ButtonDialog

/-- Why a file operation fails. -/
inductive FileError where
  | notFound
  | alreadyExists
  | notDirectory
  | isDirectory
  | notText
  | badPath
  | nameTooLong
  /-- any other failure, in the words of the machine -/
  | other (reason : String)
  deriving DecidableEq

/-- The text of a file error. -/
def FileError.text : FileError → String
  | .notFound => "No such file or directory (os error 2)"
  | .alreadyExists => "File exists (os error 17)"
  | .notDirectory => "Not a directory (os error 20)"
  | .isDirectory => "Is a directory (os error 21)"
  | .notText => "stream did not contain valid UTF-8"
  | .badPath => "file name contained an unexpected NUL byte"
  | .nameTooLong => "File name too long (os error 36)"
  | .other reason => reason

/-- The text of UTF-8 bytes. -/
def textOfBytes? (bytes : List UInt8) : Option String := String.fromUTF8? ⟨bytes.toArray⟩

/-- A place in the tree: the names that lead to it from the root. -/
abbrev Place := List String

/-- A tree of files, with a working directory. Directories that hold something need no row. -/
structure FileTree where
  files : List (Place × List UInt8)
  directories : List Place
  here : Place

namespace FileTree

/-- The bytes of the file at a place. -/
def file? (t : FileTree) (p : Place) : Option (List UInt8) :=
  (t.files.find? fun f => f.1 == p).map (·.2)

/-- Whether there is a directory at a place. -/
def isDirectory (t : FileTree) (p : Place) : Bool :=
  (t.file? p).isNone &&
    (p.isEmpty || p.isPrefixOf t.here || t.directories.any p.isPrefixOf ||
      t.files.any fun f => p.isPrefixOf f.1)

/-- Whether there is anything at a place. -/
def exists? (t : FileTree) (p : Place) : Bool := (t.file? p).isSome || t.isDirectory p

/-- The most bytes that a name may have. -/
def maxNameBytes : Nat := 255

/-- The most bytes that a path may have. -/
def maxPathBytes : Nat := 4095

/-- The place that steps lead to from a place. -/
def walk (t : FileTree) (p : Place) : List String → Except FileError Place
  | [] => .ok p
  | step :: steps =>
    if !t.isDirectory p then .error .notDirectory
    else if PathText.isIdle step then t.walk p steps
    else if step = ".." then t.walk p.dropLast steps
    else if maxNameBytes < step.utf8ByteSize then .error .nameTooLong
    else if t.exists? (p ++ [step]) then t.walk (p ++ [step]) steps
    else .error .notFound

/-- Where a path starts. -/
def startOf (t : FileTree) (path : String) : Place :=
  if PathText.isRooted path then [] else t.here

/-- Refuses a text that no path has. -/
def checkPath (path : String) : Except FileError Unit :=
  if path.toList.contains '\x00' then .error .badPath
  else if path.isEmpty then .error .notFound
  else if maxPathBytes < path.utf8ByteSize then .error .nameTooLong
  else .ok ()

/-! ## Reading -/

/-- The place of a path. -/
def resolve (t : FileTree) (path : String) : Except FileError Place := do
  checkPath path
  t.walk (t.startOf path) (PathText.segments path)

/-- The text of the file at a path. -/
def readText (t : FileTree) (path : String) : Except FileError String := do
  match t.file? (← t.resolve path) with
  | none => throw .isDirectory
  | some bytes =>
    match textOfBytes? bytes with
    | none => throw .notText
    | some text => return text

/-! ## Making -/

/-- The place of a name in the directory that steps lead to. -/
def placeIn (t : FileTree) (start : Place) (steps : List String) (name : String) :
    Except FileError Place := do
  let directory ← t.walk start steps
  if !t.isDirectory directory then throw .notDirectory
  if maxNameBytes < name.utf8ByteSize then throw .nameTooLong
  return directory ++ [name]

/-- Makes a directory in the one that steps lead to; nothing of its name may be there. -/
def makeDirectory (t : FileTree) (start : Place) (steps : List String) (name : String) :
    Except FileError FileTree := do
  let place ← t.placeIn start steps name
  if name == ".." || t.exists? place then throw .alreadyExists
  return { t with directories := place :: t.directories }

/-- Whether steps lead to a directory. -/
def leadsToDirectory (t : FileTree) (start : Place) (steps : List String) : Bool :=
  match t.walk start steps with
  | .ok place => t.isDirectory place
  | .error _ => false

/-- Makes a directory in the one that steps lead to, unless it is there. -/
def ensureDirectory (t : FileTree) (start : Place) (steps : List String) (name : String) :
    Except FileError FileTree :=
  match t.makeDirectory start steps name with
  | .ok t => .ok t
  | .error e => if t.leadsToDirectory start (steps ++ [name]) then .ok t else .error e

/-- Makes the directory that steps lead to, which are given from the last one back. The directories
around it are made only where one of them is missing. -/
def ensureAll (t : FileTree) (start : Place) : List String → Except FileError FileTree
  | [] => .ok t
  | name :: before =>
    match t.ensureDirectory start before.reverse name with
    | .error .notFound => do
      (← t.ensureAll start before).ensureDirectory start before.reverse name
    | made => made

/-- Makes a directory and those around it, as far as they are missing. -/
def makeDirectories (t : FileTree) (path : String) : Except FileError FileTree := do
  checkPath path
  t.ensureAll (t.startOf path) (PathText.steps path).reverse

/-- Opens a file for appending, making it if it is missing. -/
def touch (t : FileTree) (path : String) : Except FileError FileTree := do
  checkPath path
  match (PathText.steps path).reverse with
  | [] => throw .isDirectory
  | name :: before =>
    let place ← t.placeIn (t.startOf path) before.reverse name
    if name == ".." || t.isDirectory place then throw .isDirectory
    if (t.file? place).isSome then return t
    return { t with files := t.files ++ [(place, [])] }

end FileTree

end ButtonDialog
