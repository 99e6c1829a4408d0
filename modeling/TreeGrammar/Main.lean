import TreeGrammar.Cli.Draw
import TreeGrammar.Cli.Generate
import TreeGrammar.Cli.Parse

/-!
The command line. The first argument names the program: `generate` writes the module of a grammar,
`draw` draws its rules, and `parse` parses a tree by the module of the grammar that comes next.
-/
namespace TreeGrammar.Cli

def usageText : String :=
  "usage: generate [-q] [-v] [-o FILE] [-e RULE] GRAMMAR\n" ++
    "       draw GRAMMAR\n" ++
    "       parse GRAMMAR [-q] [-v] SOURCE TREE\n"

/-- The text of an error that a program does not handle. -/
def Uncaught.message : Uncaught → String
  | load (.unreadable e) => readMessage e
  | load (.missingMember name) => "The member " ++ Text.quoted name ++ " is missing"
  | load (.shape _) => "The grammar has a value of the wrong kind"
  | load (.grammar e) => e.message
  | tree (.missingMember name) => "The member " ++ Text.quoted name ++ " is missing"
  | tree .wrongShape => "The tree has a value of the wrong kind"
  | json e => readMessage e
  | file e => e.message
  | encoding e => encodingMessage e
  | code _ => "The module cannot be put together"
  | layout e => e.message
  | run (.noPlace _) => "A node lies outside its source"
  | run _ => "The module cannot be run"
  | noOperand => "An operand is lost"
  | noOutput => "The path of the output is lost"
  | labelNotText => "The grammar has a name that is not a text"

/-- The paths that a command line may name. -/
def Usage.paths (usage : Usage) (args : List String) : List String :=
  match usage.parse args with
  | .ok given => given.operands.filterMap id ++ given.options.filterMap fun o => o.2.join
  | .error _ => []

/-- The path of the directory that a file is in. -/
def parentOf (path : String) : String :=
  match (Directory.components path).dropLast with
  | [] => "."
  | [""] => "/"
  | names => "/".intercalate names

/-- What a path names now. -/
def entryAt (path : String) : IO Entry := do
  if path.contains '\x00' then return .fault .nulInPath
  match ← (IO.FS.readBinFile path).toBaseIO with
  | .ok bytes => return .file bytes.toList
  | .error (.inappropriateType _ 21 _) => return .directory
  | .error (.inappropriateType _ _ _) => return .fault .notDirectory
  | .error (.invalidArgument _ 36 _) => return .fault .nameTooLong
  | .error (.noFileOrDirectory _ _ _) =>
    match path, ← (IO.FS.readBinFile (parentOf path)).toBaseIO with
    | "", _ => return .fault .noSuchFile
    | _, .error (.inappropriateType _ 21 _) => return .free
    | _, _ => return .fault .noSuchFile
  | .error e => throw e

/-- What some paths name now. -/
def lookupAt (paths : List String) : IO Lookup := do
  let entries ← paths.mapM fun path => do return (path, ← entryAt path)
  return fun path => (entries.lookup path).getD (.fault .noSuchFile)

def Ending.size : Ending → Nat
  | .report r => r.output.length + r.errors.length
  | _ => 0

/-- Runs a program once without a clock, and, if it prints anything, reports with the time that this
took. -/
def timed (command : Signed → Ending) : IO Ending := do
  let start ← IO.monoMsNow
  let untimed := command .zero
  if untimed.size = 0 then return untimed
  return command ⟨false, ⟨(← IO.monoMsNow) - start, 1000⟩⟩

def write (writes : List (String × String)) : IO Unit :=
  writes.forM fun (path, text) => IO.FS.writeFile path text

/-- Writes the files, prints, and gives the exit status. -/
def Ending.perform : Ending → IO UInt32
  | .misuse => do
    IO.eprint usageText
    return 2
  | .help => do
    IO.print usageText
    return 0
  | .uncaught e writes => do
    write writes
    IO.eprintln e.message
    return 1
  | .report r => do
    write r.writes
    IO.print r.output
    IO.eprint r.errors
    return r.exit.toUInt32

def generate (args : List String) : IO UInt32 := do
  let look ← lookupAt (Generate.defaultOutput :: Generate.usage.paths args)
  (← timed fun elapsed => Generate.command look elapsed args).perform

def draw (args : List String) : IO UInt32 := do
  let look ← lookupAt (Draw.usage.paths args)
  (Draw.command look args).perform

/-- The module of the grammar in a file. -/
def moduleAt (path : String) : IO (Except Stop Code.Module) := do
  let look ← lookupAt [path]
  return do
    let g ← loadGrammar look (some path)
    match Code.build g with
    | .error (.grammar e) => .error (.reported e.message)
    | .error (.code e) => .error (.uncaught (.code e))
    | .ok build =>
      match build.module.fault? with
      | none => .ok build.module
      | some fault => .error (.reported fault.message)

def parse (grammar : String) (args : List String) : IO UInt32 := do
  match ← moduleAt grammar with
  | .error (.reported message) => (Ending.report (.failed ("ERROR: " ++ message))).perform
  | .error (.uncaught e) => (Ending.uncaught e []).perform
  | .ok module =>
    let paths := Parse.usage.paths args
    let input ← if paths.any fun p => p = "" ∨ p = "-" then (← IO.getStdin).readToEnd else pure ""
    let look ← lookupAt (paths.filter (· ≠ ""))
    (← timed fun elapsed => Parse.command module look input elapsed args).perform

end TreeGrammar.Cli

/-- Runs the program that the first argument names. -/
def main : List String → IO UInt32
  | "generate" :: args => TreeGrammar.Cli.generate args
  | "draw" :: args => TreeGrammar.Cli.draw args
  | "parse" :: grammar :: args => TreeGrammar.Cli.parse grammar args
  | _ => TreeGrammar.Cli.Ending.misuse.perform
