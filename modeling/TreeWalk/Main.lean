import TreeWalk.CommandLine.Basic

namespace TreeWalk

open CommandLine

def stepLimit : Nat :=
  1000000000000000000

def entriesAt (path : String) : IO (List (String × Entry)) := do
  try
    return [(path, .file (← IO.FS.readBinFile path).toList)]
  catch
    | .noFileOrDirectory .. => return []
    | _ => return [(path, .directory)]

partial def readAll (input : IO.FS.Stream) (octets : ByteArray) : IO (List UInt8) := do
  let more ← input.read 4096
  if more.isEmpty then return octets.toList else readAll input (octets ++ more)

def isSet (name : String) : IO (Option (String × String)) := do
  return (← IO.getEnv name).map fun value => (name, value)

def gather (arguments : List String) : IO World := do
  let environment ← World.colourVariables.filterMapM isSet
  match Request.read false arguments with
  | .perform command log =>
      let paths := (command.path?.map stages).getD [] ++ (if log then [logName] else [])
      let directory : Directory := ⟨(← paths.mapM entriesAt).flatten⟩
      let input ← if World.needsInput directory command then readAll (← IO.getStdin) .empty else pure []
      return { arguments, directory, input, environment }
  | .version | .usage _ => return { arguments, directory := ⟨[]⟩, input := [], environment }

def leave (before after : Directory) : IO Unit := do
  for (path, octets) in Directory.changes before after do
    IO.FS.writeBinFile path (ByteArray.mk octets.toArray)

end TreeWalk

open TreeWalk

def main (arguments : List String) : IO UInt32 := do
  let world ← gather arguments
  let outcome := world.answer stepLimit
  leave world.directory outcome.directory
  IO.eprint outcome.stderr
  IO.print outcome.stdout
  return outcome.exitCode.toUInt32
