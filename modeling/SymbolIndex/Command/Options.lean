/-!
# Command-line options

Options and paths come in any order. A long option takes its value after `=` or from the next
argument, short options can be joined, and `--` ends the options.
-/

namespace SymbolIndex

/-- Options without a value. -/
inductive Switch where
  | version
  | summary
  | quiet
  | debug
  | noDebug
  | noDefaultIncludes
  | help
  deriving DecidableEq, Repr

/-- Options with a value. -/
inductive Setting where
  | output
  | includeDir
  | define
  | standard
  | compilerArgument
  deriving DecidableEq, Repr

inductive OptionKind where
  | switch (switch : Switch)
  | setting (setting : Setting)
  deriving DecidableEq, Repr

def longOptions : List (String × OptionKind) :=
  [("--version", .switch .version), ("--output", .setting .output), ("--summary", .switch .summary),
   ("--quiet", .switch .quiet), ("--debug", .switch .debug), ("--no-debug", .switch .noDebug),
   ("--include-dir", .setting .includeDir), ("--define", .setting .define),
   ("--std", .setting .standard), ("--clang-arg", .setting .compilerArgument),
   ("--no-default-includes", .switch .noDefaultIncludes), ("--help", .switch .help)]

def shortOptions : List (Char × OptionKind) :=
  [('v', .switch .version), ('o', .setting .output), ('q', .switch .quiet),
   ('I', .setting .includeDir), ('D', .setting .define), ('h', .switch .help)]

structure Options where
  version : Bool := false
  output : String := "-"
  summary : Bool := false
  quiet : Bool := false
  debug : Bool := false
  includeDirs : List String := []
  defines : List String := []
  standard : String := "c++17"
  compilerArguments : List String := []
  defaultIncludes : Bool := true
  help : Bool := false
  paths : List String := []
  deriving DecidableEq, Repr

inductive UsageError where
  | noSuchOption (name : String)
  | valueMissing (name : String)
  | valueUnexpected (name : String)
  deriving DecidableEq, Repr

def UsageError.message : UsageError → String
  | noSuchOption name => "No such option: " ++ name
  | valueMissing name => "Option " ++ name ++ " requires an argument."
  | valueUnexpected name => "Option " ++ name ++ " does not take a value."

/-- One thing that an argument does to the options. -/
inductive OptionEffect where
  | turn (switch : Switch)
  | set (setting : Setting) (value : String)
  deriving DecidableEq, Repr

/-- What an argument that holds options says. It may end in an option whose value is the next
argument. -/
structure OptionReading where
  effects : List OptionEffect := []
  awaits : Option (String × Setting) := none
  deriving DecidableEq, Repr

namespace Options

def turn (options : Options) : Switch → Options
  | .version => { options with version := true }
  | .summary => { options with summary := true }
  | .quiet => { options with quiet := true }
  | .debug => { options with debug := true }
  | .noDebug => { options with debug := false }
  | .noDefaultIncludes => { options with defaultIncludes := false }
  | .help => { options with help := true }

/-- Give a setting a value. Directories, macros and compiler arguments add up; of the others the last
value counts. -/
def set (options : Options) (setting : Setting) (value : String) : Options :=
  match setting with
  | .output => { options with output := value }
  | .includeDir => { options with includeDirs := options.includeDirs ++ [value] }
  | .define => { options with defines := options.defines ++ [value] }
  | .standard => { options with standard := value }
  | .compilerArgument => { options with compilerArguments := options.compilerArguments ++ [value] }

def apply (options : Options) : OptionEffect → Options
  | .turn switch => options.turn switch
  | .set setting value => options.set setting value

/-- Read joined short options. The first one with a value takes the rest of the argument. -/
def readShort : List Char → Except UsageError OptionReading
  | [] => .ok {}
  | c :: s =>
    match shortOptions.lookup c with
    | none => .error (.noSuchOption (String.ofList ['-', c]))
    | some (.switch switch) =>
      (readShort s).map fun reading => { reading with effects := .turn switch :: reading.effects }
    | some (.setting setting) =>
      if s.isEmpty then .ok { awaits := some (String.ofList ['-', c], setting) }
      else .ok { effects := [.set setting (String.ofList s)] }

/-- Read a long option with the value given to it by `=`. -/
def readLong (name : String) (value : Option String) : OptionKind → Except UsageError OptionReading
  | .switch switch =>
    if value.isSome then .error (.valueUnexpected name) else .ok { effects := [.turn switch] }
  | .setting setting =>
    match value with
    | some value => .ok { effects := [.set setting value] }
    | none => .ok { awaits := some (name, setting) }

/-- The name of an option and its value after `=`. -/
def splitValue (argument : List Char) : String × Option String :=
  let name := String.ofList (argument.takeWhile (· != '='))
  match argument.dropWhile (· != '=') with
  | [] => (name, none)
  | _ :: value => (name, some (String.ofList value))

/-- Read an argument that starts with a dash. -/
def readArgument (argument : List Char) : Except UsageError OptionReading :=
  let (name, value) := splitValue argument
  match longOptions.lookup name with
  | some kind => readLong name value kind
  | none =>
    if ['-', '-'].isPrefixOf argument then .error (.noSuchOption name)
    else readShort argument.tail

/-- An argument holds options if it starts with a dash and has more than that. -/
def isOption (argument : String) : Bool :=
  match argument.toList with
  | '-' :: _ :: _ => true
  | _ => false

/-- Read arguments into options that were begun. -/
def readFrom (options : Options) : List String → Except UsageError Options
  | [] => .ok options
  | argument :: arguments =>
    if argument = "--" then .ok { options with paths := options.paths ++ arguments }
    else if isOption argument then
      match readArgument argument.toList with
      | .error e => .error e
      | .ok reading =>
        let options := reading.effects.foldl apply options
        match reading.awaits, arguments with
        | none, arguments => readFrom options arguments
        | some (_, setting), value :: arguments => readFrom (options.set setting value) arguments
        | some (name, _), [] => .error (.valueMissing name)
    else readFrom { options with paths := options.paths ++ [argument] } arguments

/-- Read a whole command line. -/
def read (arguments : List String) : Except UsageError Options := readFrom {} arguments

/-- The compiler arguments that the options ask for. -/
def extraArguments (options : Options) : List String :=
  options.defines.map ("-D" ++ ·) ++ options.includeDirs.map ("-I" ++ ·)
    ++ ["-std=" ++ options.standard] ++ options.compilerArguments

end Options

end SymbolIndex
