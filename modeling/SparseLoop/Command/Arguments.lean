/-!
# Command line arguments

The command takes the path of a request, and options that say which text is
wanted and where it goes.  Options may stand before or after the path.  An
option that takes a value takes it from the same argument or from the next one,
which then must not look like an option.  After two hyphens alone, everything
is a path.

Arguments are read from left to right, and the first one that decides the
outcome decides it: a fault, or a question for the version or for help.
-/

namespace SparseLoop

namespace Command

/-- A text that the command can produce. -/
inductive Stage where
  /-- Both functions as one file. -/
  | combined
  | dispatch
  | usage
  /-- The provenance of the file with both functions. -/
  | buildInfo
deriving DecidableEq, Repr

/-- The stage of a name. -/
def Stage.ofName? (name : String) : Option Stage :=
  match name with
  | "c" => some combined
  | "dispatch" => some dispatch
  | "usage" => some usage
  | "build-info" => some buildInfo
  | _ => none

/-- What the arguments have said so far. -/
structure Arguments where
  request : Option String := none
  output : Option String := none
  stage : Option Stage := none
  isVerbose : Bool := false
deriving DecidableEq, Repr

/-- A complete order to generate a text. -/
structure Invocation where
  request : String
  output : Option String
  stage : Stage
deriving DecidableEq, Repr

/-- What the arguments ask for. -/
inductive Directive where
  | generate (invocation : Invocation)
  | showVersion
  | showHelp
  /-- The arguments have a fault. -/
  | reject
deriving DecidableEq, Repr

/-- What an argument is, by its form. -/
inductive ArgumentForm where
  /-- Two hyphens alone. -/
  | separator
  /-- An option with a long name, and the value after its equals sign. -/
  | long (name : String) (value : Option String)
  /-- An option of one letter, and what follows the letter. -/
  | short (letter : Char) (rest : List Char)
  | path (text : String)
deriving DecidableEq, Repr

/-- The form of an argument. -/
def ArgumentForm.of (argument : String) : ArgumentForm :=
  match argument.toList with
  | ['-', '-'] => separator
  | '-' :: '-' :: body =>
    let name := String.ofList (body.takeWhile (· != '='))
    match body.dropWhile (· != '=') with
    | [] => long name none
    | _ :: value => long name (some (String.ofList value))
  | '-' :: letter :: rest => short letter rest
  | _ => path argument

namespace Arguments

/-- The order that the arguments have given, if they have named a request. -/
def directive (arguments : Arguments) : Directive :=
  match arguments.request with
  | none => .reject
  | some request =>
    .generate
      { request, output := arguments.output,
        stage := arguments.stage.getD .combined }

/-- Takes the path of the request, which must be the only one. -/
def takePath? (arguments : Arguments) (path : String) : Option Arguments :=
  if path.isEmpty || arguments.request.isSome then
    none
  else
    some { arguments with request := some path }

/-- Takes the path of the output, which must be the only one. -/
def takeOutput? (arguments : Arguments) (path : String) : Option Arguments :=
  if path.isEmpty || arguments.output.isSome then
    none
  else
    some { arguments with output := some path }

/-- Takes the name of the stage, which must be the only one. -/
def takeStage? (arguments : Arguments) (name : String) : Option Arguments :=
  if arguments.stage.isSome then
    none
  else
    (Stage.ofName? name).map fun stage =>
      { arguments with stage := some stage }

/-- Takes the wish for a log, which must be the only one. -/
def takeVerbose? (arguments : Arguments) : Option Arguments :=
  if arguments.isVerbose then
    none
  else
    some { arguments with isVerbose := true }

/-- The value of an option in the next argument. -/
def nextValue? (argument : String) : Option String :=
  match ArgumentForm.of argument with
  | .path text => some text
  | _ => none

/-- The value that follows the letter of an option. -/
def attachedValue (rest : List Char) : String :=
  match rest with
  | '=' :: value => String.ofList value
  | value => String.ofList value

/-- Reads arguments that are all paths. -/
def readPaths (arguments : Arguments) : List String → Directive
  | [] => arguments.directive
  | path :: rest =>
    match arguments.takePath? path with
    | none => .reject
    | some known => known.readPaths rest

/-- An option that takes a value. -/
inductive ValueOption where
  | output
  | stage
deriving DecidableEq, Repr

/-- Takes the value of an option. -/
def takeValue? (arguments : Arguments) (wanted : ValueOption)
    (value : String) : Option Arguments :=
  match wanted with
  | .output => arguments.takeOutput? value
  | .stage => arguments.takeStage? value

/-- What an argument does when it is read. -/
inductive Effect where
  /-- It decides the outcome. -/
  | settle (directive : Directive)
  | proceed (arguments : Arguments)
  /-- Its value is the next argument. -/
  | expect (wanted : ValueOption)
  /-- All arguments after it are paths. -/
  | paths
deriving DecidableEq, Repr

/-- The effect of having taken something, or of a fault. -/
def Effect.ofTaken : Option Arguments → Effect
  | some arguments => proceed arguments
  | none => settle .reject

/-- The effect of an argument of a form. -/
def effect (arguments : Arguments) : ArgumentForm → Effect
  | .separator => .paths
  | .path text => .ofTaken (arguments.takePath? text)
  | .short 'V' _ => .settle .showVersion
  | .short 'h' _ => .settle .showHelp
  | .short 'o' [] => .expect .output
  | .short 'o' rest => .ofTaken (arguments.takeOutput? (attachedValue rest))
  | .short _ _ => .settle .reject
  | .long "output" none => .expect .output
  | .long "emit" none => .expect .stage
  | .long "output" (some value) => .ofTaken (arguments.takeOutput? value)
  | .long "emit" (some value) => .ofTaken (arguments.takeStage? value)
  | .long "verbose" none => .ofTaken arguments.takeVerbose?
  | .long "version" none => .settle .showVersion
  | .long "help" none => .settle .showHelp
  | .long _ _ => .settle .reject

/-- Reads arguments from left to right. -/
def readAll (arguments : Arguments) : List String → Directive
  | [] => arguments.directive
  | [last] =>
    match arguments.effect (ArgumentForm.of last) with
    | .settle directive => directive
    | .proceed known => known.directive
    | .expect _ => .reject
    | .paths => arguments.directive
  | argument :: next :: rest =>
    match arguments.effect (ArgumentForm.of argument) with
    | .settle directive => directive
    | .proceed known => known.readAll (next :: rest)
    | .expect wanted =>
      match nextValue? next >>= arguments.takeValue? wanted with
      | none => .reject
      | some known => known.readAll rest
    | .paths => arguments.readPaths (next :: rest)

end Arguments

/-- What a list of arguments asks for. -/
def Directive.ofArguments (arguments : List String) : Directive :=
  Arguments.readAll {} arguments

end Command

end SparseLoop
