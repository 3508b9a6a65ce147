import AccMachine.Options
import AccMachine.Report
import AccMachine.SourceFile

namespace AccMachine

inductive Ending
  | returned (code : Nat)
  | exited (code : Nat)
  | failed (f : Fault)
deriving DecidableEq

structure OpenWindow where
  console : Console
  delay : Option Int

structure Outcome where
  ending : Ending
  stdout : String
  stderr : String
  window : Option OpenWindow

namespace Outcome

def told (code : Nat) (message : String) : Outcome :=
  ⟨.returned code, "", LogRecord.text [⟨.error, .command, message⟩], none⟩

def refused : Refusal → Outcome
  | .help => ⟨.exited 0, Options.help, "", none⟩
  | .usage e => ⟨.exited 2, "", Options.usage ++ s!"mic1-sim: error: {e.message}\n", none⟩

end Outcome

namespace Command

def errorList (messages : List String) : String :=
  String.join ("Erros de Compilacao:\n" :: messages.map fun m => s!"  {m}\n")

def runImage (a : Assembly) (budget : Option Int) (l : LogLevel) (told : List LogRecord) :
    Outcome :=
  let fresh := Machine.fresh Memory.defaultSize
  let loaded := told ++ fresh.loadRecords a.image
  match budget with
  | none => ⟨.failed .noValue, a.notices, LogRecord.text (LogRecord.atLeast l loaded), none⟩
  | some n =>
    let records := loaded ++ (fresh.load a.image).runRecords l n
    let stderr := LogRecord.text (LogRecord.atLeast l records)
    match a.runToEnd n with
    | .error f => ⟨.failed f, a.notices, stderr, none⟩
    | .ok r => ⟨.returned (if r.machine.halted then 0 else 3), r.report, stderr, none⟩

def headless (src : Text) (budget : Option Int) (l : LogLevel) : Outcome :=
  let (a, f) := Assembly.gather src
  let told := a.records f.isNone
  let stderr := LogRecord.text (LogRecord.atLeast l told)
  match f with
  | some f => ⟨.failed f, "", stderr, none⟩
  | none =>
    match a.failure? with
    | some e => ⟨.returned 1, "", stderr ++ errorList e.errors, none⟩
    | none => runImage a budget l told

def openWindow (src : Option Text) (delay : Option Int) : Outcome :=
  match Console.opened Memory.defaultSize (delay.getD Console.defaultSpeed) with
  | .error f => ⟨.failed f, "", "", none⟩
  | .ok c =>
    match src with
    | none => ⟨.returned 0, "", "", some ⟨c, delay⟩⟩
    | some s =>
      match c.act (.edit s) with
      | (some f, c) => ⟨.failed f, "", "", some ⟨c, delay⟩⟩
      | (none, c) => ⟨.returned 0, "", "", some ⟨c, delay⟩⟩

def withLevel (o : Options) (l : LogLevel) (files : Text → FileState) : Outcome :=
  match o.source.filter (!·.isEmpty) with
  | none =>
    if o.headless then Outcome.told 2 "--headless precisa de um arquivo fonte"
    else openWindow none o.speed
  | some path =>
    match SourceFile.read files path with
    | .error f => ⟨.failed f, "", "", none⟩
    | .ok (.error reason) =>
      Outcome.told 2 s!"Nao consegui ler {String.ofList path}: {reason}"
    | .ok (.ok src) =>
      if o.headless then headless src o.maxSteps l else openWindow (some src) o.speed

/-- Runs the command. It does nothing where the level of what it tells was left out. -/
def run (args : List Text) (files : Text → FileState) : Outcome :=
  match Options.ofArgs args with
  | .error r => Outcome.refused r
  | .ok o =>
    match o.logLevel with
    | none => ⟨.failed .noValue, "", "", none⟩
    | some l => withLevel o l files

end Command

end AccMachine
