import AccMachine.Instruction
import AccMachine.Literal
import AccMachine.Outline

namespace AccMachine

inductive LineError
  | unknownCommand (token : Text)
  | missingOperand (o : Operation)
  | badOperand (token : Text)

def LineError.message : LineError → String
  | .unknownCommand token => s!"Comando desconhecido '{String.ofList token}'"
  | .missingOperand o => s!"'{o.mnemonic}' requer um valor ou label."
  | .badOperand token => s!"Label ou valor invalido '{String.ofList token}'."

def operandValue (labels : Labels) (token : Text) : Except Fault (Option Int) :=
  match labels.find? token with
  | some addr => .ok (some addr)
  | none => Literal.read token

/--
The word of a data line: a literal before a label. A literal is cut to a word, while the address of
a label is left as it is.
-/
def encodeData (labels : Labels) (token : Text) : Except Fault (Except LineError Int) := do
  match ← Literal.read token with
  | some n => return .ok (Word.ofInt n).toNat
  | none =>
    match labels.find? token with
    | some addr => return .ok addr
    | none => return .error (.unknownCommand token)

def encodeOperation (labels : Labels) (o : Operation) (rest : List Text) :
    Except Fault (Except LineError Int) :=
  if o.takesOperand then
    match rest with
    | [] => .ok (.error (.missingOperand o))
    | token :: _ => do
      match ← operandValue labels token with
      | some n => return .ok (o.encode n).toNat
      | none => return .error (.badOperand token)
  else .ok (.ok o.base.toNat)

/-- The word of a body, or why it has none. A body without tokens has no first token to look at. -/
def encodeBody (labels : Labels) (body : Text) : Except Fault (Except LineError Int) :=
  match body.words with
  | [] => .error .outOfRange
  | token :: rest =>
    match Operation.ofMnemonic? token.upper with
    | some o => encodeOperation labels o rest
    | none => encodeData labels token

structure NumberedError where
  line : Nat
  cause : LineError

def NumberedError.message (e : NumberedError) : String :=
  s!"Erro linha {e.line}: {e.cause.message}"

/-- An assembled program. Its image is to be used only when there are no errors. -/
structure Assembly where
  image : Array Int
  errors : Array NumberedError
  redefinitions : Array Redefinition
  labels : Labels

namespace Assembly

def ofOutline (o : Outline) : Assembly := ⟨#[], #[], o.redefinitions, o.labels⟩

/--
The second pass over bodies numbered from `n`. A body with an error yields no word and the pass
goes on; a fault ends it, with what it has gathered so far.
-/
def encodeFrom (a : Assembly) (n : Nat) : List Text → Assembly × Option Fault
  | [] => (a, none)
  | body :: rest =>
    match encodeBody a.labels body with
    | .error f => (a, some f)
    | .ok (.error e) => encodeFrom { a with errors := a.errors.push ⟨n, e⟩ } (n + 1) rest
    | .ok (.ok w) => encodeFrom { a with image := a.image.push w } (n + 1) rest

def gather (src : Text) : Assembly × Option Fault :=
  let o := Outline.ofLines [] (codeLines src)
  (ofOutline o).encodeFrom 1 o.bodies.toList

def ok (a : Assembly) : Bool := a.errors.isEmpty

def errorMessages (a : Assembly) : List String := a.errors.toList.map (·.message)

def warnings (a : Assembly) : List String := a.redefinitions.toList.map (·.message)

end Assembly

def assemble (src : Text) : Except Fault Assembly :=
  match Assembly.gather src with
  | (_, some f) => .error f
  | (a, none) => .ok a

structure AssemblyError where
  errors : List String

def AssemblyError.message (e : AssemblyError) : String :=
  let joined := "\n".intercalate e.errors
  if joined.isEmpty then "Erro de montagem" else joined

def Assembly.failure? (a : Assembly) : Option AssemblyError :=
  if a.ok then none else some ⟨a.errorMessages⟩

end AccMachine
