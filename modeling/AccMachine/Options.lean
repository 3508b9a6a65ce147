import AccMachine.Console
import AccMachine.Log
import AccMachine.Text.Quoted

namespace AccMachine

/-- What is asked for on the command line; an option can be given with its value left out. -/
structure Options where
  source : Option Text
  headless : Bool
  maxSteps : Option Int
  speed : Option Int
  logLevel : Option LogLevel

namespace Options

def default : Options where
  source := none
  headless := false
  maxSteps := some Machine.defaultBudget
  speed := some Console.defaultSpeed
  logLevel := some .warning

end Options

inductive Flag
  | help | headless | maxSteps | speed | logLevel
deriving DecidableEq

namespace Flag

def spellings : List (String × Flag) :=
  [("-h", help), ("--help", help), ("--headless", headless), ("--max-steps", maxSteps),
    ("--speed", speed), ("--log-level", logLevel)]

def ofSpelling? (s : Text) : Option Flag :=
  (spellings.find? fun e => e.1.toList == s).map (·.2)

def name (f : Flag) : String := "/".intercalate ((spellings.filter (·.2 == f)).map (·.1))

def takesValue : Flag → Bool
  | help | headless => false
  | maxSteps | speed | logLevel => true

end Flag

inductive UsageError
  | ambiguous (arg : Text) (matching : List String)
  | missingValue (f : Flag)
  | ignoredValue (f : Flag) (value : Text)
  | badWhole (f : Flag) (value : Text)
  | badLevel (f : Flag) (value : Text)
  | unrecognized (args : List Text)

def UsageError.message : UsageError → String
  | ambiguous arg matching =>
    let listed := ", ".intercalate matching
    s!"ambiguous option: {String.ofList arg} could match {listed}"
  | missingValue f => s!"argument {f.name}: expected one argument"
  | ignoredValue f value => s!"argument {f.name}: ignored explicit argument {Text.quoted value}"
  | badWhole f value => s!"argument {f.name}: invalid int value: {Text.quoted value}"
  | badLevel f value =>
    let choices := ", ".intercalate (LogLevel.all.map fun l => Text.quoted l.name.toList)
    s!"argument {f.name}: invalid choice: {Text.quoted value} (choose from {choices})"
  | unrecognized args =>
    let listed := " ".intercalate (args.map String.ofList)
    s!"unrecognized arguments: {listed}"

inductive Refusal
  | help
  | usage (e : UsageError)

def optionsEnd : Text := ['-', '-']

inductive ArgShape
  | plain
  | separator
  | option (f : Flag) (single : Bool) (glued : Option Text)
  | unknownOption

namespace ArgShape

def cutEquals (s : Text) : Text × Option Text :=
  let front := s.takeWhile (· != '=')
  match s.drop front.length with
  | [] => (front, none)
  | _ :: value => (front, some value)

/-- Digits, with an optional point before the last ones; a line feed may follow. -/
def isNegativeNumber (s : Text) : Bool :=
  let body := match s.getLast? with
    | some '\n' => s.dropLast
    | _ => s
  match body with
  | '-' :: r =>
    let rest := r.dropWhile Numeral.isDecimalDigit
    match rest with
    | [] => !r.isEmpty
    | '.' :: fraction => !fraction.isEmpty && fraction.all Numeral.isDecimalDigit
    | _ => false
  | _ => false

def candidates (s : Text) : List (String × ArgShape) :=
  match s with
  | '-' :: '-' :: _ =>
    let (front, value) := cutEquals s
    (Flag.spellings.filter fun e => front.isPrefixOf e.1.toList).map fun (spelling, f) =>
      (spelling, .option f false value)
  | _ =>
    (Flag.spellings.filter fun e => e.1.toList == s.take 2).map fun (spelling, f) =>
      (spelling, .option f true (some (s.drop 2)))

def ofArg (s : Text) : Except UsageError ArgShape :=
  match s with
  | '-' :: r =>
    let single := r.head? != some '-'
    match Flag.ofSpelling? s with
    | some f => .ok (.option f single none)
    | none =>
      if r.isEmpty then .ok .plain
      else
        let (front, value) := cutEquals s
        match value, Flag.ofSpelling? front with
        | some v, some f => .ok (.option f single (some v))
        | _, _ =>
          match candidates s with
          | [] =>
            if isNegativeNumber s || s.contains ' ' then .ok .plain else .ok .unknownOption
          | [(_, shape)] => .ok shape
          | many => .error (.ambiguous s (many.map (·.1)))
  | _ => .ok .plain

/-- The arguments with what they look like; all that follows the first separator is plain. -/
def ofArgs : List Text → Except UsageError (List (Text × ArgShape))
  | [] => .ok []
  | s :: rest =>
    if s = optionsEnd then .ok ((s, .separator) :: rest.map fun t => (t, .plain))
    else do
      let shape ← ofArg s
      return (s, shape) :: (← ofArgs rest)

end ArgShape

namespace Options

/--
What a text glued to the letter for help comes to: help if it only says so again, or else an error
for a value that help does not take.
-/
def gluedHelp : Text → Refusal
  | ['h'] => .help
  | 'h' :: r => gluedHelp r
  | value => .usage (.ignoredValue .help value)

def wholeValue (f : Flag) (value : Text) : Except UsageError (Option Int) :=
  if value = optionsEnd then .ok none
  else
    match Numeral.readWhole value with
    | .ok n => .ok (some n)
    | .error _ => .error (.badWhole f value)

def levelValue (f : Flag) (value : Text) : Except UsageError (Option LogLevel) :=
  if value = optionsEnd then .ok none
  else
    match LogLevel.ofName? value with
    | some l => .ok (some l)
    | none => .error (.badLevel f value)

def setValue (o : Options) (f : Flag) (value : Text) : Except UsageError Options :=
  match f with
  | .help | .headless => .error (.ignoredValue f value)
  | .maxSteps => do return { o with maxSteps := ← wholeValue f value }
  | .speed => do return { o with speed := ← wholeValue f value }
  | .logLevel => do return { o with logLevel := ← levelValue f value }

def setFlag (o : Options) (f : Flag) (single : Bool) (glued : Option Text) :
    Except Refusal Options :=
  match f, glued with
  | .help, none => .error .help
  | .help, some value =>
    if single then .error (gluedHelp value) else .error (.usage (.ignoredValue f value))
  | .headless, none => .ok { o with headless := true }
  | f, none => .error (.usage (.missingValue f))
  | f, some value => (o.setValue f value).mapError .usage

/--
Goes through the arguments. The first plain one is the source; `taken` says that it was found, and
`extras` gathers what nothing asks for.
-/
def gather (o : Options) (taken : Bool) (extras : Array Text) :
    List (Text × ArgShape) → Except Refusal (Options × Array Text)
  | [] => .ok (o, extras)
  | (s, .plain) :: rest =>
    if taken then gather o true (extras.push s) rest
    else
      match rest with
      | (_, .separator) :: rest => gather { o with source := some s } true extras rest
      | rest => gather { o with source := some s } true extras rest
  | (s, .separator) :: rest => gather o taken (if taken then extras.push s else extras) rest
  | (s, .unknownOption) :: rest => gather o taken (extras.push s) rest
  | (_, .option f single glued) :: rest =>
    match f.takesValue, glued, rest with
    | true, none, (value, .plain) :: rest => do
      let o ← (o.setValue f value).mapError .usage
      gather o taken extras rest
    | _, _, rest => do
      let o ← o.setFlag f single glued
      gather o taken extras rest

def ofArgs (args : List Text) : Except Refusal Options := do
  let shapes ← (ArgShape.ofArgs args).mapError .usage
  let (o, extras) ← gather default false #[] shapes
  if extras.isEmpty then return o
  else throw (.usage (.unrecognized extras.toList))

def usage : String :=
  "usage: mic1-sim [-h] [--headless] [--max-steps MAX_STEPS] [--speed SPEED]\n" ++
  "                [--log-level \x7bDEBUG,INFO,WARNING,ERROR\x7d]\n" ++
  "                [source]\n"

def help : String :=
  usage ++ "\n" ++
  "Simulador MIC-1 (CPU + cache + assembler)\n" ++
  "\n" ++
  "positional arguments:\n" ++
  "  source                arquivo .asm pra montar\n" ++
  "\n" ++
  "options:\n" ++
  "  -h, --help            show this help message and exit\n" ++
  "  --headless            roda sem interface e imprime o estado final\n" ++
  "  --max-steps MAX_STEPS\n" ++
  "                        limite de passos no modo headless\n" ++
  "  --speed SPEED         delay entre passos na GUI (ms)\n" ++
  "  --log-level \x7bDEBUG,INFO,WARNING,ERROR\x7d\n"

end Options

end AccMachine
