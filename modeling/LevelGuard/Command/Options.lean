import LevelGuard.Diagnostic
import LevelGuard.Report.Terminal
import LevelGuard.Text.Basic

/-!
# Options of the command line

An argument is an option or the path of the project. Options have a long name
after two dashes, some also a letter after one; letters can be joined. The value
of an option follows in the same argument, after an equals sign where the name is
long, or is the next argument, which then must not look like an option. After two
dashes alone every argument is a path. Only a category to leave out may be given
more than once.
-/
namespace LevelGuard.Command

inductive OptionName where
  | config
  | format
  | output
  | minLevel
  | targetLevel
  | compileLevel
  | apiDatabase
  | permissionDatabase
  | manifest
  | disable
  | verbose
  | quiet
  | help
  | version
  deriving DecidableEq, Repr

namespace OptionName

def all : List OptionName :=
  [config, format, output, minLevel, targetLevel, compileLevel, apiDatabase, permissionDatabase,
    manifest, disable, verbose, quiet, help, version]

def long : OptionName → String
  | config => "config"
  | format => "format"
  | output => "output"
  | minLevel => "min-sdk"
  | targetLevel => "target-sdk"
  | compileLevel => "compile-sdk"
  | apiDatabase => "api-database"
  | permissionDatabase => "permission-database"
  | manifest => "manifest"
  | disable => "disable"
  | verbose => "verbose"
  | quiet => "quiet"
  | help => "help"
  | version => "version"

def letter? : OptionName → Option Char
  | config => some 'c'
  | format => some 'f'
  | output => some 'o'
  | verbose => some 'v'
  | quiet => some 'q'
  | help => some 'h'
  | version => some 'V'
  | _ => none

def takesValue : OptionName → Bool
  | verbose | quiet | help | version => false
  | _ => true

def ofLong? (s : String) : Option OptionName := all.find? fun n => n.long = s

def ofLetter? (c : Char) : Option OptionName := all.find? fun n => n.letter? = some c

end OptionName

inductive Stop where
  | misuse
  | help
  | version
  deriving DecidableEq, Repr

structure Options where
  path : Option Path := none
  config : Option Path := none
  format : Option ReportFormat := none
  output : Option Path := none
  minLevel : Option Level := none
  targetLevel : Option Level := none
  compileLevel : Option Level := none
  apiDatabase : Option Path := none
  permissionDatabase : Option Path := none
  manifest : Option Path := none
  disabled : List Category := []
  verbose : Bool := false
  quiet : Bool := false
  deriving Repr

namespace Options

/-- A value that is given for the first time. -/
def once {α : Type} (old new : Option α) : Except Stop (Option α) :=
  match old, new with
  | none, some a => .ok (some a)
  | _, _ => .error .misuse

def pathOf? (s : String) : Option Path := if s.isEmpty then none else some ⟨s⟩

def formatOf? : String → Option ReportFormat
  | "terminal" => some .terminal
  | "json" => some .json
  | "sarif" => some .sarif
  | _ => none

/-- A level; zero may also have a minus sign. -/
def levelOf? (s : String) : Option Level :=
  match s.toList with
  | '-' :: cs => (Text.numeral? 10 cs).filter (· = 0)
  | _ => Level.ofText? s

def addPath (o : Options) (s : String) : Except Stop Options := do
  return { o with path := ← once o.path (pathOf? s) }

def addValue (o : Options) (name : OptionName) (s : String) : Except Stop Options := do
  match name with
  | .config => return { o with config := ← once o.config (pathOf? s) }
  | .format => return { o with format := ← once o.format (formatOf? s) }
  | .output => return { o with output := ← once o.output (pathOf? s) }
  | .minLevel => return { o with minLevel := ← once o.minLevel (levelOf? s) }
  | .targetLevel => return { o with targetLevel := ← once o.targetLevel (levelOf? s) }
  | .compileLevel => return { o with compileLevel := ← once o.compileLevel (levelOf? s) }
  | .apiDatabase => return { o with apiDatabase := ← once o.apiDatabase (pathOf? s) }
  | .permissionDatabase =>
    return { o with permissionDatabase := ← once o.permissionDatabase (pathOf? s) }
  | .manifest => return { o with manifest := ← once o.manifest (pathOf? s) }
  | .disable =>
    match Category.ofId? s with
    | some c => return { o with disabled := o.disabled ++ [c] }
    | none => throw .misuse
  | .verbose | .quiet | .help | .version => throw .misuse

def addFlag (o : Options) : OptionName → Except Stop Options
  | .verbose => if o.verbose then .error .misuse else .ok { o with verbose := true }
  | .quiet => if o.quiet then .error .misuse else .ok { o with quiet := true }
  | .help => .error .help
  | .version => .error .version
  | _ => .error .misuse

/-- The options after an argument, and the one that waits for its value. -/
abbrev State := Options × Option OptionName

/-- Letters joined after one dash. The first one that takes a value takes the rest. -/
def addLetters (o : Options) : List Char → Except Stop State
  | [] => .ok (o, none)
  | c :: cs =>
    match OptionName.ofLetter? c with
    | none => .error .misuse
    | some name =>
      if name.takesValue then
        match cs with
        | [] => .ok (o, some name)
        | '=' :: value => (o.addValue name (String.ofList value)).map (·, none)
        | value => (o.addValue name (String.ofList value)).map (·, none)
      else do addLetters (← o.addFlag name) cs

/-- What follows two dashes: a name, perhaps with a value. -/
def addLong (o : Options) (s : String) : Except Stop State :=
  match Text.splitFirst? '=' s with
  | some (name, value) =>
    match OptionName.ofLong? name with
    | some name => (o.addValue name value).map (·, none)
    | none => .error .misuse
  | none =>
    match OptionName.ofLong? s with
    | some name =>
      if name.takesValue then .ok (o, some name) else (o.addFlag name).map (·, none)
    | none => .error .misuse

/-- Whether an argument is taken for an option; a dash alone is not. -/
def looksLikeOption (s : String) : Bool := Text.startsWith s "-" && s ≠ "-"

def addArgument : State → String → Except Stop State
  | (o, some name), s =>
    if looksLikeOption s then .error .misuse else (o.addValue name s).map (·, none)
  | (o, none), s =>
    match s.toList with
    | '-' :: '-' :: cs => o.addLong (String.ofList cs)
    | '-' :: c :: cs => o.addLetters (c :: cs)
    | _ => (o.addPath s).map (·, none)

def addAll : State → List String → Except Stop Options
  | (o, none), [] => .ok o
  | (_, some _), [] => .error .misuse
  | (o, none), "--" :: rest => rest.foldlM addPath o
  | s, a :: rest => do addAll (← addArgument s a) rest

def ofArguments (args : List String) : Except Stop Options := addAll ({}, none) args

end Options
end LevelGuard.Command
