/-
  The files that a command can read.

  A path is walked from the working directory, component by component.  A source is known to
  messages by the last component of its path.
-/

namespace ProcLang.Command

/-- Why a source cannot be read. -/
inductive ReadError where
  /-- Refused by the system, with its error number and text. -/
  | system (number : Nat) (text : String)
  /-- The bytes are no UTF-8 text. -/
  | invalidText
deriving DecidableEq, Repr

namespace ReadError

/-- The text of a read error. -/
def message : ReadError → String
  | system number text => text ++ " (os error " ++ toString number ++ ")"
  | invalidText => "stream did not contain valid UTF-8"

/-- No entry of the name. -/
def notFound : ReadError := system 2 "No such file or directory"

/-- A file on the way to an entry. -/
def notDirectory : ReadError := system 20 "Not a directory"

/-- A directory in place of a file. -/
def isDirectory : ReadError := system 21 "Is a directory"

end ReadError

/-- The components of a path. -/
def components (path : String) : List String := path.splitOn "/"

/-- The name by which messages know a file: the last component of its path, unless that leads
    to a directory. -/
def displayName (path : String) : String :=
  match ((components path).filter fun c => c ≠ "" ∧ c ≠ ".").getLast? with
  | some c => if c = ".." then path else c
  | none => path

/-! ## A working directory -/

/-- The files below a working directory, each with the components of its path. -/
structure Directory where
  files : List (List String × String)

/-- A place that a path can lead to. -/
inductive Place where
  /-- At a path below the working directory. -/
  | inside (path : List String)
  /-- Outside of the working directory, where no file is known. -/
  | outside
deriving DecidableEq

namespace Directory

/-- The directory of files with given paths. -/
def ofFiles (files : List (String × String)) : Directory :=
  ⟨files.map fun f => ((components f.1).filter fun c => c ≠ "" ∧ c ≠ ".", f.2)⟩

/-- The text of the file at `path`. -/
def file? (d : Directory) (path : List String) : Option String := d.files.lookup path

/-- The working directory and the directories that files are in. -/
def isDirectory (d : Directory) (path : List String) : Bool :=
  path.isEmpty || d.files.any fun f => path.isPrefixOf f.1 && path ≠ f.1

/-- One step of a path. -/
def walkTo (d : Directory) (place : Place) (component : String) : Except ReadError Place :=
  match place with
  | .outside => if component ∈ ["", ".", ".."] then .ok .outside else .error .notFound
  | .inside path =>
    if !d.isDirectory path then .error .notDirectory
    else if component ∈ ["", "."] then .ok place
    else if component = ".." then .ok (if path = [] then .outside else .inside path.dropLast)
    else
      let next := path ++ [component]
      if d.isDirectory next || (d.file? next).isSome then .ok (.inside next)
      else .error .notFound

/-- The text of the file that a path leads to. -/
def read (d : Directory) (path : String) : Except ReadError String := do
  let beginning := if path.startsWith "/" then Place.outside else .inside []
  match ← (components path).foldlM d.walkTo beginning with
  | .outside => .error .isDirectory
  | .inside p =>
    match d.file? p with
    | some text => .ok text
    | none => .error .isDirectory

end Directory
end ProcLang.Command
