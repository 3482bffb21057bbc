import TreeWalk.Text.Utf8

namespace TreeWalk.CommandLine

inductive Entry where
  | file (octets : List UInt8)
  | directory
deriving DecidableEq

structure Directory where
  entries : List (String × Entry)

inductive ReadError where
  | missing
  | notDirectory
  | isDirectory
  | nameTooLong
  | notUtf8
deriving DecidableEq, Repr

namespace ReadError

def text : ReadError → String
  | missing => "No such file or directory (os error 2)"
  | notDirectory => "Not a directory (os error 20)"
  | isDirectory => "Is a directory (os error 21)"
  | nameTooLong => "File name too long (os error 36)"
  | notUtf8 => "stream did not contain valid UTF-8"

end ReadError

def steps (path : String) : List String :=
  (path.splitOn "/").filter fun name => name != "" && name != "."

def fileName (path : String) : String :=
  match (steps path).getLast? with
  | some name => if name == ".." then path else name
  | none => path

def enter (place : List String) (name : String) : List String :=
  match place with
  | last :: outer => if name == ".." && last != ".." then outer else name :: place
  | [] => [name]

-- Where a path leads if every step of it can be taken, with the names in reverse.
def placeOf (path : String) : List String :=
  (steps path).foldl enter []

def stages (path : String) : List String :=
  let root := if path.startsWith "/" then "/" else ""
  let names := steps path
  (List.range names.length).map fun n => root ++ "/".intercalate (names.take (n + 1))

namespace Directory

def entry? (d : Directory) (place : List String) : Option Entry :=
  (d.entries.find? fun e => placeOf e.1 == place).map Prod.snd

def isParent (d : Directory) (place : List String) : Bool :=
  d.entries.any fun e => place.isSuffixOf (placeOf e.1) && placeOf e.1 != place

-- What is at a place. The working directory and the directories around it are always there.
def at? (d : Directory) (place : List String) : Option Entry :=
  match d.entry? place with
  | some entry => some entry
  | none => if place.all (· == "..") || d.isParent place then some .directory else none

def longestName : Nat :=
  255

def longestPath : Nat :=
  4095

def walk (d : Directory) (place : List String) : List String → Except ReadError Entry
  | [] =>
      match d.at? place with
      | some entry => .ok entry
      | none => .error .missing
  | name :: rest =>
      match d.at? place with
      | some .directory =>
          if name.utf8ByteSize > longestName then .error .nameTooLong
          else walk d (enter place name) rest
      | some (.file _) => .error .notDirectory
      | none => .error .missing

def endsInSlash (path : String) : Bool :=
  path.endsWith "/" || path.endsWith "/."

def find (d : Directory) (path : String) : Except ReadError Entry :=
  if path.isEmpty then .error .missing
  else if path.utf8ByteSize > longestPath then .error .nameTooLong
  else match d.walk [] (steps path) with
    | .ok (.file octets) => if endsInSlash path then .error .notDirectory else .ok (.file octets)
    | other => other

def contains (d : Directory) (path : String) : Bool :=
  match d.find path with
  | .ok _ => true
  | .error _ => false

def read (d : Directory) (path : String) : Except ReadError String :=
  match d.find path with
  | .error e => .error e
  | .ok .directory => .error .isDirectory
  | .ok (.file octets) =>
      match Text.decode? octets with
      | some characters => .ok (String.ofList characters)
      | none => .error .notUtf8

def write (d : Directory) (path : String) (octets : List UInt8) : Directory :=
  ⟨(d.entries.filter fun e => placeOf e.1 != placeOf path) ++ [(path, .file octets)]⟩

def changes (before after : Directory) : List (String × List UInt8) :=
  after.entries.filterMap fun
    | (path, .file octets) =>
        if before.entry? (placeOf path) = some (.file octets) then none else some (path, octets)
    | (_, .directory) => none

def names (d : Directory) : List String :=
  ((d.entries.filterMap fun e => (placeOf e.1).getLast?).eraseDups).mergeSort (· ≤ ·)

end Directory

end TreeWalk.CommandLine
