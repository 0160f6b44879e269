import LogicTest.CommandLine.Run

/-!
# The command

The outer layer of the command line: it reads what the options name, hands it to the run, and
prints what the run gives.
-/
namespace LogicTest

/-- The cause of a failed file operation, by the number the system gives it; some operations give
that number negated. -/
def FileError.ofIO (error : IO.Error) : FileError :=
  match error with
  | .noFileOrDirectory .. => .notFound
  | .inappropriateType _ code _ | .invalidArgument _ code _ | .resourceExhausted _ code _ =>
    if code = 20 ∨ 0 - code = 20 then .notDirectory
    else if code = 21 ∨ 0 - code = 21 then .isDirectory
    else if code = 28 ∨ 0 - code = 28 then .noSpace
    else if code = 36 ∨ 0 - code = 36 then .nameTooLong
    else .other (toString error).toList
  | error => .other (toString error).toList

/-- Reads a file, or a directory with all that is in it. The entries of a directory are reached by
its real path, which may be shorter than the one given. -/
partial def readEntry (path : String) : IO Entry := do
  let place := System.mkFilePath [path]
  if ← place.isDir then
    let mut directory := Directory.empty
    for child in ← (← IO.FS.realPath place).readDir do
      let entry ← readEntry child.path.toString
      directory := directory.set (Path.ofText child.fileName.toList) entry
    return .directory directory
  else return .file (← IO.FS.readBinFile place).toList

def readView (paths : List Text) : IO FileView := do
  let mut found : List (Path × Except FileError Entry) := []
  for path in paths do
    let entry ← try pure (.ok (← readEntry (String.ofList path)))
      catch error => pure (.error (FileError.ofIO error))
    found := (.ofText path, entry) :: found
  let table := found
  return fun path => (table.lookup path).getD (.error .notFound)

/-- Makes a file and writes it. -/
def writeFile (path content : String) : IO (Option CommandLine.SummaryError) := do
  match ← (IO.FS.Handle.mk (System.mkFilePath [path]) .write).toBaseIO with
  | .error error => return some (.notCreated (.ofIO error))
  | .ok handle =>
    match ← (handle.putStr content *> handle.flush).toBaseIO with
    | .error error => return some (.notWritten (.ofIO error))
    | .ok _ => return none

partial def readSignals (stream : IO.FS.Stream) (sofar : Array Signal) : IO (Array Signal) := do
  let bytes ← stream.read 65536
  if bytes.isEmpty then return sofar
  readSignals stream (sofar ++ bytes.data.map .byte)

end LogicTest

open LogicTest in
def main (arguments : List String) : IO UInt32 := do
  match CommandLine.Request.ofArguments (arguments.map (·.toList)) with
  | .help =>
    IO.print (String.ofList CommandLine.usage)
    return 0
  | .rejected =>
    IO.eprint (String.ofList CommandLine.usage)
    return 2
  | .run options =>
    let inputs := options.paths.filter (· ≠ CommandLine.stdinPath)
    let stdin ← if inputs.length = options.paths.length then pure #[]
      else readSignals (← IO.getStdin) #[]
    let account :=
      CommandLine.account options (← readView inputs) (.ofSignals stdin.toList)
    let failure ← match options.summaryFile with
      | none => pure none
      | some path => writeFile (String.ofList path.display) (String.ofList account.summary)
    let outcome := account.conclude options failure
    IO.print (String.ofList outcome.output)
    IO.eprint (String.ofList outcome.errors)
    return outcome.exitCode.toUInt32
