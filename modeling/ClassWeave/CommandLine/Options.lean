import ClassWeave.Hook.Initializer

/-!
# Options

Reads the arguments of the command line. An option's value follows it, or is joined to it by an
equals sign; after two dashes nothing is an option.
-/

namespace ClassWeave

/-- What the command line asks for. -/
structure Options where
  spec : String
  output : String
  input : String
  classPath : List String
  jdk : Option String
  debugDirectory : Option String
  loader : LoaderSource

/-- Why the arguments name no task. -/
inductive NoTask where
  | help
  | version
  | misuse
  deriving DecidableEq, Repr

/-- The options that take a value. -/
inductive OptionName where
  | spec
  | output
  | classPath
  | jdk
  | debugDirectory
  | loader
  deriving DecidableEq, Repr

namespace OptionName

def text : OptionName → String
  | spec => "spec"
  | output => "output"
  | classPath => "classpath"
  | jdk => "jdk"
  | debugDirectory => "debug-dir"
  | loader => "loader"

def all : List OptionName := [spec, output, classPath, jdk, debugDirectory, loader]

def ofText? (text : String) : Option OptionName := all.find? (·.text == text)

end OptionName

/-- The arguments read so far, values in reverse order. -/
structure Arguments where
  values : List (OptionName × String)
  input : Option String
  /-- Have two dashes been seen? -/
  plainOnly : Bool

namespace Arguments

def empty : Arguments := ⟨[], none, false⟩

/-- Takes note of an option's value. All values are paths but that of the loader, and no path is
empty. Only the class path can be given more than once. -/
def addValue (arguments : Arguments) (name : OptionName) (value : String) :
    Except NoTask Arguments :=
  let isValid := match name with
    | .loader => (LoaderSource.ofString value).toOption.isSome
    | _ => value ≠ ""
  let isRepeated := name ≠ .classPath && arguments.values.any (·.1 = name)
  if isValid && !isRepeated then .ok { arguments with values := (name, value) :: arguments.values }
  else .error .misuse

/-- Takes note of an argument that is no option. There is one such argument. -/
def addInput (arguments : Arguments) (value : String) : Except NoTask Arguments :=
  if value = "" ∨ arguments.input.isSome then .error .misuse
  else .ok { arguments with input := some value }

/-- Can an argument be a value that follows its option? -/
def isValue (argument : String) : Bool := argument == "-" || !argument.startsWith "-"

/-- The name and the value of a long option. -/
def splitOption (letters : List Char) : String × Option String :=
  let name := String.ofList (letters.takeWhile (· != '='))
  match letters.dropWhile (· != '=') with
  | [] => (name, none)
  | _ :: value => (name, some (String.ofList value))

/-- What a long option without a value of its own asks for. -/
def longQuestion : String → NoTask
  | "help" => .help
  | "version" => .version
  | _ => .misuse

def shortQuestion : Char → NoTask
  | 'h' => .help
  | 'V' => .version
  | _ => .misuse

/-- Reads arguments in order, up to the first that settles that there is no task. -/
def read (arguments : Arguments) : List String → Except NoTask Arguments
  | [] => .ok arguments
  | argument :: rest =>
    if arguments.plainOnly then do (← arguments.addInput argument).read rest
    else
      match argument.toList with
      | ['-', '-'] => read { arguments with plainOnly := true } rest
      | '-' :: '-' :: letters =>
        match splitOption letters with
        | (name, some value) =>
          match OptionName.ofText? name with
          | some name => do (← arguments.addValue name value).read rest
          | none => .error .misuse
        | (name, none) =>
          match OptionName.ofText? name, rest with
          | some name, value :: rest =>
            if isValue value then do (← arguments.addValue name value).read rest
            else .error .misuse
          | some _, [] => .error .misuse
          | none, _ => .error (longQuestion name)
      | '-' :: letter :: _ => .error (shortQuestion letter)
      | _ => do (← arguments.addInput argument).read rest

def value? (arguments : Arguments) (name : OptionName) : Option String :=
  arguments.values.lookup name

def valuesOf (arguments : Arguments) (name : OptionName) : List String :=
  (arguments.values.filter (·.1 = name)).reverse.map Prod.snd

end Arguments

namespace Options

/-- The task that arguments name. -/
def ofArguments (words : List String) : Except NoTask Options := do
  let arguments ← Arguments.empty.read words
  match arguments.value? .spec, arguments.value? .output, arguments.input with
  | some spec, some output, some input =>
    let loader := (arguments.value? .loader).bind fun text => (LoaderSource.ofString text).toOption
    return {
      spec, output, input
      classPath := arguments.valuesOf .classPath
      jdk := arguments.value? .jdk
      debugDirectory := arguments.value? .debugDirectory
      loader := loader.getD .defining }
  | _, _, _ => throw .misuse

end Options

end ClassWeave
