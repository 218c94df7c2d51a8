import OpacityMigration.CommandLine.Run
import OpacityMigration.FileSystem.Arrange

/-!
# The program

The program works on the files whose paths it reads from standard input, one in each line, as
`find` lists a directory. It reads them all, answers the command line on the tree that they make,
prints the answer, and writes the files back that were opened for writing.
-/

namespace OpacityMigration.Program

/-- The lines of a stream, without their ends. -/
partial def readLines (stream : IO.FS.Stream) : IO (List String) := do
  let line ← stream.getLine
  if line.isEmpty then return []
  return (line.dropEndWhile (· == '\n')).copy :: (← readLines stream)

/-- Puts what a path leads to into a file system. A file that cannot be read has no permissions,
and a path that leads to nothing is left out. -/
def load (fs : FileSystem) (name : String) : IO FileSystem := do
  let path := Path.ofString name
  try
    return fs.putFile path (← IO.FS.readBinFile name).toList
  catch
    | .inappropriateType .. => return fs.putDirectory path
    | .permissionDenied .. => return (fs.putFile path []).setAccess path (.ofDigit 0)
    | _ => return fs

/-- Writes the files of a file system that were opened for writing. -/
def store (fs : FileSystem) : IO Unit :=
  for (location, bytes) in fs.written do
    let path := "/" ++ "/".intercalate (location.map Utf8.lossyString)
    IO.FS.writeBinFile path ⟨bytes.toArray⟩

/-- How standard output takes a text, found out by printing it. -/
def print (text : String) : IO FileSystem.Sink := do
  try
    let stream ← IO.getStdout
    stream.putStr text
    stream.flush
    return .works
  catch
    | .resourceExhausted .. => return .full
    | _ => return .closed

end OpacityMigration.Program

open OpacityMigration in
/-- Answers the command line `args`. -/
def main (args : List String) : IO UInt32 := do
  let here := (Path.ofString (toString (← IO.currentDir))).steps.filterMap fun
    | .enter name => some name
    | _ => none
  let names ← Program.readLines (← IO.getStdin)
  let fs ← names.foldlM Program.load (.empty here)
  let terminal ← (← IO.getStderr).isTty
  let answer (output : FileSystem.Sink) : CommandLine.Answer :=
    CommandLine.run fs ⟨output, terminal⟩ (args.map CommandLine.argument)
  let answer := answer (← Program.print (answer .works).output)
  Program.store answer.after
  (← IO.getStderr).putStr answer.errors
  unless answer.errors.isEmpty || answer.errors.endsWith "\n" do
    (← IO.getStderr).putStr "\n"
  return answer.status.toUInt32
