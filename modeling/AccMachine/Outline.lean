import AccMachine.Fault
import AccMachine.Labels
import AccMachine.Numeral

namespace AccMachine

/-- The lines of a source text that hold more than blanks and a comment, without either. -/
def codeLines (src : Text) : List Text :=
  (src.lines.map fun l => Text.strip (l.takeWhile (· != ';'))).filter (!·.isEmpty)

structure SourceLine where
  label : Option Text
  body : Text

/-- A second colon ends the body. -/
def SourceLine.ofText (s : Text) : SourceLine :=
  match s.splitOn ':' with
  | label :: body :: _ => ⟨some (Text.strip label), Text.strip body⟩
  | _ => ⟨none, s⟩

structure Redefinition where
  name : Text
  previous : Int
  current : Int

def Redefinition.Writable (r : Redefinition) : Prop :=
  Numeral.Writable r.previous ∧ Numeral.Writable r.current

instance Redefinition.decidableWritable (r : Redefinition) : Decidable r.Writable :=
  inferInstanceAs (Decidable (Numeral.Writable r.previous ∧ Numeral.Writable r.current))

def Redefinition.message (r : Redefinition) : String :=
  s!"Label '{String.ofList r.name}' redefinido: {r.previous} -> {r.current}"

structure Outline where
  labels : Labels
  bodies : Array Text
  redefinitions : Array Redefinition

namespace Outline

def start (labels : Labels) : Outline := ⟨labels, #[], #[]⟩

def define (o : Outline) (name : Text) : Outline :=
  let addr : Int := o.bodies.size
  match o.labels.find? name with
  | none => { o with labels := o.labels.define name addr }
  | some previous =>
    { o with
      labels := o.labels.define name addr
      redefinitions := o.redefinitions.push ⟨name, previous, addr⟩ }

/-- Adds a line: its label names the address of its body, or of the next one when it has none. -/
def add (o : Outline) (s : Text) : Outline :=
  let line := SourceLine.ofText s
  let o := match line.label with
    | none => o
    | some name => o.define name
  if line.body.isEmpty then o else { o with bodies := o.bodies.push line.body }

def ofLines (labels : Labels) (lines : List Text) : Outline :=
  lines.foldl add (start labels)

/--
The outline of lines over any labels. To have a label known beforehand defined again is a fault if
its address cannot be written.
-/
def overLabels (labels : Labels) (lines : List Text) : Except Fault Outline :=
  let o := ofLines labels lines
  if ∀ r ∈ o.redefinitions, r.Writable then .ok o else .error .badValue

end Outline

end AccMachine
