import LogicTest.Directory.Path

/-!
# Command line options

Options and paths may be mixed, and after two dashes everything is a path. The verbosity option can
be repeated, any other option stands once. A dash alone is a path. The paths of inputs are texts,
that of a summary file can be any path.
-/
namespace LogicTest.CommandLine

structure Options where
  verbosity : Nat
  noFail : Bool
  dump : Bool
  summaryFile : Option Path
  paths : List Text
  deriving DecidableEq, Repr

/-- What the arguments ask for. -/
inductive Request where
  | run (options : Options) | help | rejected
  deriving DecidableEq, Repr

namespace Options

def none : Options := ⟨0, false, false, .none, []⟩

def addPaths (options : Options) (paths : List Text) : Options :=
  { options with paths := options.paths ++ paths }

/-- A request needs at least one path. -/
def toRequest (options : Options) : Request :=
  if options.paths.isEmpty then .rejected else .run options

def setSummaryFile? (options : Options) (path : Text) : Option Options :=
  if path.isEmpty ∨ options.summaryFile.isSome then .none
  else some { options with summaryFile := some (.ofText path) }

/-- A separate argument is taken for the value of an option unless it looks like one itself. -/
def isValue (argument : Text) : Bool := argument = "-".toList || argument.head? ≠ some '-'

/-- Takes up the arguments in order; the first that cannot be taken up or asks for help decides. -/
def takeUp (options : Options) : List Text → Request
  | [] => options.toRequest
  | argument :: rest =>
    match "--".toList.isPrefixOf? argument with
    | some name =>
      if name = [] then (options.addPaths rest).toRequest
      else if name = "help".toList then .help
      else if name = "verbose".toList then
        takeUp { options with verbosity := options.verbosity + 1 } rest
      else if name = "no-fail".toList then
        if options.noFail then .rejected else takeUp { options with noFail := true } rest
      else if name = "dump".toList then
        if options.dump then .rejected else takeUp { options with dump := true } rest
      else if name = "json-summary-file".toList then
        match rest with
        | [] => .rejected
        | value :: rest =>
          match if isValue value then options.setSummaryFile? value else .none with
          | some options => takeUp options rest
          | .none => .rejected
      else
        match ("json-summary-file=".toList.isPrefixOf? name).bind options.setSummaryFile? with
        | some options => takeUp options rest
        | .none => .rejected
    | .none =>
      match argument with
      | '-' :: c :: letters =>
        let flags := (c :: letters).takeWhile (· = 'v')
        match (c :: letters).drop flags.length with
        | [] => takeUp { options with verbosity := options.verbosity + flags.length } rest
        | 'h' :: _ => .help
        | _ => .rejected
      | _ => takeUp (options.addPaths [argument]) rest

end Options

/-- The form of a request, as it is shown when one is rejected or help is asked for. -/
def usage : Text :=
  "Usage: logictest [-v] [--no-fail] [--dump] [--json-summary-file FILE] PATH...\n".toList

/-- Reads the arguments. -/
def Request.ofArguments (arguments : List Text) : Request := Options.none.takeUp arguments

end LogicTest.CommandLine
