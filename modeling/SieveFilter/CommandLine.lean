import SieveFilter.Buffer
import SieveFilter.LogFilter
import SieveFilter.Reduction
import SieveFilter.Settings.Standard
import SieveFilter.Stream.Files

/-!
# The command line

What the arguments of the program ask for, and how a request is carried out on a file tree.  The matrix
file and the map file are created before anything is read and removed again if anything fails, so that no
half-written matrix is left behind.
-/

namespace SieveFilter.CommandLine

open Text (Numeral.readInt Numeral.readNat Numeral.maxSigned Numeral.maxWord)

/-- The settings that options give, each over the one that was loaded. -/
structure Overrides where
  rows : Option Nat
  expectedIdeals : Option Nat
  leastRational : Option Nat
  leastAlgebraic : Option Nat
  rationalBase : Option Nat
  algebraicBase : Option Nat
  rationalBits : Option Nat
  algebraicBits : Option Nat
  requiredExcess : Option Nat
  keptExcess : Option Nat
  raw : Bool
  costPolicy : Option CostPolicy
  deriving DecidableEq, Repr

namespace Overrides

def none : Overrides :=
  ⟨.none, .none, .none, .none, .none, .none, .none, .none, .none, .none, false, .none⟩

/-- The settings with those that are given in place of the loaded ones. -/
def apply (given : Overrides) (loaded : Settings) : Settings :=
  { loaded with
    rows := given.rows.getD loaded.rows
    expectedIdeals := given.expectedIdeals <|> loaded.expectedIdeals
    leastRational := given.leastRational <|> loaded.leastRational
    leastAlgebraic := given.leastAlgebraic <|> loaded.leastAlgebraic
    rationalBase := given.rationalBase.getD loaded.rationalBase
    algebraicBase := given.algebraicBase.getD loaded.algebraicBase
    rationalBits := given.rationalBits.getD loaded.rationalBits
    algebraicBits := given.algebraicBits.getD loaded.algebraicBits
    requiredExcess := given.requiredExcess.getD loaded.requiredExcess
    keptExcess := given.keptExcess.getD loaded.keptExcess
    raw := given.raw || loaded.raw
    costPolicy := given.costPolicy.getD loaded.costPolicy }

end Overrides

/-- The arguments read so far. -/
structure Arguments where
  overrides : Overrides
  inputs : List String
  fileList : Option String
  matrix : Option String
  map : Option String
  settingsFile : Option String
  report : Option String
  deriving DecidableEq, Repr

/-- What a filtering run is told: the settings given, where the relations are, and which files to write. -/
structure Task where
  overrides : Overrides
  inputs : List String
  fileList : Option String
  matrix : String
  map : Option String
  settingsFile : Option String
  report : Option String
  deriving DecidableEq, Repr

/-- What a command line asks for. -/
inductive Request where
  | version
  | help
  | misuse
  | filter (task : Task)
  deriving DecidableEq, Repr

/-- A path, which is not empty. -/
def path? (text : String) : Option String :=
  if text = "" then none else some text

def count? (text : String) : Option Nat :=
  (Numeral.readNat 10 Numeral.maxWord text.toList).toOption

def bits? (text : String) : Option Nat := do
  let n ← (Numeral.readInt Numeral.maxSigned text.toList).toOption
  if 0 ≤ n ∧ n ≤ Settings.maxBits then some n.toNat else none

/-- The value of an option that is given at most once. -/
def once (before value : Option α) : Option (Option α) :=
  if before.isSome then none else value.map some

namespace Arguments

def none : Arguments :=
  ⟨.none, [], .none, .none, .none, .none, .none⟩

def set (args : Arguments) (name value : String) : Option Arguments := do
  let given := args.overrides
  match name with
  | "filelist" => return { args with fileList := ← once args.fileList (path? value) }
  | "out" => return { args with matrix := ← once args.matrix (path? value) }
  | "sos" => return { args with map := ← once args.map (path? value) }
  | "config" => return { args with settingsFile := ← once args.settingsFile (path? value) }
  | "stats" => return { args with report := ← once args.report (path? value) }
  | "nrels" =>
    return { args with overrides := { given with rows := ← once given.rows (count? value) } }
  | "nprimes" =>
    let count ← once given.expectedIdeals (count? value)
    return { args with overrides := { given with expectedIdeals := count } }
  | "minpr" =>
    let least ← once given.leastRational (count? value)
    return { args with overrides := { given with leastRational := least } }
  | "minpa" =>
    let least ← once given.leastAlgebraic (count? value)
    return { args with overrides := { given with leastAlgebraic := least } }
  | "rlim" =>
    let base ← once given.rationalBase (count? value)
    return { args with overrides := { given with rationalBase := base } }
  | "alim" =>
    let base ← once given.algebraicBase (count? value)
    return { args with overrides := { given with algebraicBase := base } }
  | "lpbr" =>
    let bits ← once given.rationalBits (bits? value)
    return { args with overrides := { given with rationalBits := bits } }
  | "lpba" =>
    let bits ← once given.algebraicBits (bits? value)
    return { args with overrides := { given with algebraicBits := bits } }
  | "excess" =>
    let excess ← once given.requiredExcess (count? value)
    return { args with overrides := { given with requiredExcess := excess } }
  | "keep" =>
    let excess ← once given.keptExcess (count? value)
    return { args with overrides := { given with keptExcess := excess } }
  | "cost-policy" =>
    let policy ← once given.costPolicy (CostPolicy.ofName? "-" value)
    return { args with overrides := { given with costPolicy := policy } }
  | _ => .none

/-- The arguments with the option to copy relations, which is given at most once. -/
def setRaw (args : Arguments) : Option Arguments :=
  if args.overrides.raw then .none
  else some { args with overrides := { args.overrides with raw := true } }

def addInput (args : Arguments) (value : String) : Option Arguments :=
  (path? value).map fun path => { args with inputs := args.inputs ++ [path] }

/-- What complete arguments ask for; the matrix file must be named. -/
def finish (args : Arguments) : Request :=
  match args.matrix with
  | .none => .misuse
  | some matrix =>
    .filter ⟨args.overrides, args.inputs, args.fileList, matrix, args.map, args.settingsFile, args.report⟩

end Arguments

/-- What an argument is: the mark after which all arguments are files, a long option with or without an
attached value, a cluster of short options, or a value. -/
inductive Word where
  | mark
  | long (name : String) (attached : Option String)
  | short (first : Char)
  | value
  deriving DecidableEq, Repr

/-- The kind of an argument.  A single hyphen is a value. -/
def Word.ofArgument (argument : String) : Word :=
  match argument.toList with
  | ['-', '-'] => .mark
  | '-' :: '-' :: rest =>
    let (name, tail) := rest.span (· != '=')
    let attached := match tail with
      | [] => none
      | _ :: text => some (String.ofList text)
    .long (String.ofList name) attached
  | '-' :: first :: _ => .short first
  | _ => .value

/-- Reads arguments one after the other.  The first that makes no sense ends the reading, and so does a
request for the version or for help. -/
def readFrom (args : Arguments) : List String → Request
  | [] => args.finish
  | argument :: rest =>
    match Word.ofArgument argument with
    | .mark =>
      match rest.foldlM Arguments.addInput args with
      | some args => args.finish
      | none => .misuse
    | .long "version" none | .short 'V' => .version
    | .long "help" none | .short 'h' => .help
    | .long "raw" none =>
      match args.setRaw with
      | some args => readFrom args rest
      | none => .misuse
    | .long name (some value) =>
      match args.set name value with
      | some args => readFrom args rest
      | none => .misuse
    | .long name none =>
      match rest with
      | [] => .misuse
      | value :: rest =>
        if Word.ofArgument value = .value then
          match args.set name value with
          | some args => readFrom args rest
          | none => .misuse
        else .misuse
    | .short _ => .misuse
    | .value =>
      match args.addInput argument with
      | some args => readFrom args rest
      | none => .misuse

/-- Reads the arguments of a command line. -/
def read (arguments : List String) : Request :=
  readFrom .none arguments

def createFile (tree : FileTree) (path : String) : Run FileTree Parts :=
  match tree.create path with
  | .ok (place, tree) => .done tree place
  | .error cause => .fail tree (.fault cause)

/-- Checks that the file at a place has room for bytes. -/
def checkRoom (tree : FileTree) (place : Parts) (bytes : ByteArray) : Run FileTree Unit :=
  if FileTree.hasRoom place bytes then .done tree () else .fail tree (.fault .noSpace)

def writeFile (tree : FileTree) (path : String) (contents : ByteArray) : Run FileTree Unit :=
  (createFile tree path).next fun tree place => checkRoom (tree.put place contents) place contents

namespace Task

/-- The relation files: those of the file list if there is one, else those among the arguments. -/
def paths (task : Task) (tree : FileTree) : Except Fault (List String) :=
  match task.fileList with
  | some list => Stream.listedPaths tree list
  | none => .ok task.inputs

def createMap (task : Task) (tree : FileTree) : Run FileTree (Option Parts) :=
  match task.map with
  | none => .done tree none
  | some path =>
    let created := (createFile tree path).next fun tree place => .done tree (some place)
    created.after (.columnMapFile path)

/-- The tree with the written matrix and map in their files.  If both are one file, the matrix is written
over what has been passed on of the map, and the rest of the map over the matrix. -/
def store (tree : FileTree) (matrix : Parts) (map : Option Parts) (output : Reduction.Output) :
    FileTree :=
  let rows := output.matrix.written
  match map, output.map with
  | some map, some sink =>
    let columns := sink.written
    if map = matrix then
      let early := Buffer.passed columns
      let tree := tree.overwrite map 0 (columns.extract 0 early)
      let tree := tree.overwrite matrix 0 rows
      tree.overwrite map early (columns.extract early columns.size)
    else (tree.overwrite matrix 0 rows).overwrite map 0 columns
  | _, _ => tree.overwrite matrix 0 rows

/-- Checks that the files have room for the matrix and the map. -/
def checkOutput (matrix : Parts) (map : Option Parts) (output : Reduction.Output) :
    Run Reduction.Output Unit :=
  let mapFits := match map, output.map with
    | some map, some sink => FileTree.hasRoom map sink.written
    | _, _ => true
  if FileTree.hasRoom matrix output.matrix.written && mapFits then .done output ()
  else .fail output (.fault .noSpace)

def storeReport (task : Task) (tree : FileTree) (report : Report) : Run FileTree Report :=
  match task.report with
  | none => .done tree report
  | some path =>
    (writeFile tree path report.toJson.pretty.toUTF8).next fun tree _ => .done tree report

/-- Filters the relations of the paths into created files. -/
def reduce (machine : Machine) (settings : Settings) (paths : List String) (tree : FileTree)
    (matrix : Parts) (map : Option Parts) : Run FileTree Report :=
  let started := Reduction.start machine settings settings.costPolicy.cost
  (started.within fun _ => tree).next fun tree reduction =>
    let output : Reduction.Output := ⟨reduction, .empty none, map.map fun _ => .empty none⟩
    let run := (Reduction.run output (Stream.ofFiles tree paths)).next fun output report =>
      (checkOutput matrix map output).next fun output _ => .done output report
    run.within (store tree matrix map)

def execute (task : Task) (machine : Machine) (settings : Settings) (tree : FileTree) :
    Run FileTree Report :=
  match task.paths tree with
  | .error cause => .fail tree (.fault cause)
  | .ok paths =>
    (createFile tree task.matrix).next fun tree matrix =>
      (task.createMap tree).next fun tree map =>
        (reduce machine settings paths tree matrix map).next task.storeReport

/-- The tree without the matrix and map files. -/
def discard (task : Task) (tree : FileTree) : FileTree :=
  let tree := tree.remove task.matrix
  match task.map with
  | some path => tree.remove path
  | none => tree

end Task

/-- The paths that a filtering run looks at, those of a file list apart. -/
def Task.mentioned (task : Task) : List String :=
  let settingsFile := task.settingsFile.getD Settings.defaultFile
  let others := [task.fileList, task.map, task.report].filterMap id
  let substitutes := (Settings.substitutes settingsFile).map (·.1)
  settingsFile :: task.matrix :: substitutes ++ others ++ task.inputs

/-- Whether the standard output and the standard error take what is written to them. -/
structure Terminal where
  output : Bool
  errors : Bool
  deriving DecidableEq, Repr

/-- What the program runs on: the machine, the library for its settings, the reading of its arguments, the lines
that a log filter makes of notices, and the terminal. -/
structure Platform where
  machine : Machine
  library : Settings.Library
  read : List String → Request
  logLines : String → List Notice → List String
  terminal : Terminal

/-- The log of notices, as far as the terminal takes it. -/
def Platform.log (platform : Platform) (filter : String) (notices : List Notice) : List String :=
  if platform.terminal.errors then platform.logLines filter notices else []

/-- A platform whose storage is bounded by its addresses only, with a terminal that works. -/
def Platform.standard (build : Build) : Platform where
  machine := .addressed build
  library := .standard
  read := CommandLine.read
  logLines filter notices := (LogFilter.read filter).lines notices
  terminal := ⟨true, true⟩

/-- How the program ends: its exit code, its standard output, its last words, its log, and the files it
leaves. -/
structure Ending where
  code : Nat
  output : String
  error : Option String
  log : List String
  tree : FileTree

def errorText (cause : Failure) : String :=
  s!"Error: {cause.message}"

def breakdownCode : Nat := 101

/-- A run that breaks off.  It has no last words of its own, and what it has done to the files stays. -/
def Ending.breakdown (log : List String) (tree : FileTree) : Ending :=
  ⟨breakdownCode, "", none, log, tree⟩

/-- Carries out a filtering run with its settings and log filter.  Where the terminal does not take the
summary or the last words, the run breaks off on them, before anything is removed. -/
def Task.finish (task : Task) (platform : Platform) (settings : Settings) (filter : String)
    (tree : FileTree) : Ending :=
  let log := platform.log filter
  let refused (notice : Notice) : Ending := ⟨1, "", none, log [notice], tree⟩
  if settings.rows = 0 then refused .rowCountMissing
  else if task.inputs = [] ∧ task.fileList = none then refused .inputMissing
  else
    let run := task.execute platform.machine settings tree
    match run.outcome with
    | .ok report =>
      if platform.terminal.output then
        let lines := report.summary.map (· ++ "\n")
        ⟨0, String.join lines, none, log run.notices, run.state⟩
      else .breakdown (log run.notices) run.state
    | .error .breakdown => .breakdown (log run.notices) run.state
    | .error cause =>
      let log := log (run.notices ++ [.failed cause])
      if platform.terminal.errors then
        ⟨1, "", some (errorText cause), log, task.discard run.state⟩
      else .breakdown log run.state

/-- Loads the settings of a filtering run and carries it out.  The log filter of the environment counts
before the one of the settings. -/
def Task.run (task : Task) (platform : Platform) (environment : List (String × String))
    (tree : FileTree) : Ending :=
  match Settings.load platform.library tree environment task.settingsFile with
  | .error .breakdown => .breakdown [] tree
  | .error cause =>
    if platform.terminal.errors then ⟨1, "", some (errorText cause), [], tree⟩ else .breakdown [] tree
  | .ok loaded =>
    let settings := task.overrides.apply loaded
    let filter := (environment.lookup "PURGE_LOG").getD settings.logLevel
    task.finish platform settings filter tree

def programName : String := "purge"

def versionText : String :=
  s!"{programName} 0.1.0\n"

def run (platform : Platform) (arguments : List String) (environment : List (String × String))
    (tree : FileTree) : Ending :=
  match platform.read arguments with
  | .version => ⟨0, if platform.terminal.output then versionText else "", none, [], tree⟩
  | .help => ⟨0, "", none, [], tree⟩
  | .misuse => ⟨2, "", none, [], tree⟩
  | .filter task => task.run platform environment tree

end SieveFilter.CommandLine
