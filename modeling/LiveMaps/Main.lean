import LiveMaps.CommandLine.Commands

namespace LiveMaps.Disk
open CommandLine

def nameOf : Path → String
  | [] => "."
  | "/" :: rest => "/" ++ String.intercalate "/" rest
  | path => String.intercalate "/" path

-- What is there but cannot be read as a file counts as a directory.
def take (files : FileTree) (path : Path) : IO FileTree := do
  if (files.entry? path).isSome then return files
  try
    let bytes ← IO.FS.readBinFile (nameOf path)
    return files.set path (.file (Content.ofBytes bytes.toList))
  catch
    | .noFileOrDirectory .. => return files
    | _ => return files.set path .directory

def takeAll (files : FileTree) (routes : List Route) : IO FileTree :=
  (routes.flatMap Route.places).foldlM take files

def put (path : Path) : Entry → IO Unit
  | .directory => IO.FS.createDirAll (nameOf path)
  | .file content => IO.FS.writeFile (nameOf path) (content.text?.getD "")

def putChanges (old new : FileTree) : IO Unit :=
  new.entries.reverse.forM (fun e => if old.entry? e.1 = some e.2 then pure () else put e.1 e.2)

-- The passes share the measured time evenly.
def share (nanos passes : Nat) : PassTimes := ⟨nanos / (2 * max passes 1),nanos / (2 * max passes 1)⟩

def passesOf : Command → Nat
  | .simulate _ _ _ _ ticks _ _ _ => ticks.toNat
  | _ => 1

def runCommand (command : Command) : IO UInt32 := do
  let files ← takeAll .empty (namedRoutes command)
  let files ← takeAll files (tileRoutes files command)
  let fresh := ParticipantId.ofNat (← IO.rand 0 0xffffffffffffffffffffffffffffffff)
  let start ← IO.monoNanosNow
  let outcome ← IO.lazyPure (fun _ => execute files fresh command)
  let stop ← IO.monoNanosNow
  putChanges files outcome.files
  (outcome.lines (share (stop - start) (passesOf command))).forM IO.println
  outcome.error.forM (fun message => IO.eprintln ("Error: " ++ message))
  return UInt32.ofNat outcome.exitCode

end LiveMaps.Disk

def main (arguments : List String) : IO UInt32 :=
  match LiveMaps.CommandLine.command? arguments with
  | none => do
    IO.eprintln "usage: shardmap-cli [-v] info|catalog|simulate|admit|probe [options]"
    return 2
  | some command => LiveMaps.Disk.runCommand command
