import AccMachine.Literal
import AccMachine.Operation

namespace AccMachine

inductive Style
  | keyword | number | comment | label
deriving DecidableEq

def Style.all : List Style := [.keyword, .number, .comment, .label]

theorem Style.mem_all (style : Style) : style ∈ all := by
  cases style <;> decide

def Style.name : Style → String
  | keyword => "kw" | number => "num" | comment => "com" | label => "lbl"

def wordStyle (word next : Text) : Except Fault (Option Style) :=
  if (Operation.ofMnemonic? word.upper).isSome then .ok (some .keyword)
  else do
    if (← Literal.read word).isSome then return some .number
    else if next = [':'] then return some .label
    else return none

/-- A part of a row in a style; without a stop it reaches to the end of the row. -/
structure Span where
  style : Style
  row : Nat
  start : Nat
  stop : Option Nat
deriving DecidableEq

namespace Span

def startText (s : Span) : String := s!"{s.row}.{s.start}"

def stopText (s : Span) : String :=
  match s.stop with
  | some col => s!"{s.row}.{col}"
  | none => s!"{s.row}.end"

end Span

structure Token where
  start : Nat
  word : Text
deriving DecidableEq

namespace Token

def stop (t : Token) : Nat := t.start + t.word.length

def span? (code : Text) (row : Nat) (t : Token) : Except Fault (Option Span) := do
  match ← wordStyle t.word ((code.drop t.stop).take 1) with
  | none => return none
  | some .label => return some ⟨.label, row, t.start, some (t.stop + 1)⟩
  | some style => return some ⟨style, row, t.start, some t.stop⟩

end Token

def rowWords (code : Text) : List Text :=
  Text.words (code.flatMap fun c => if c = ':' then [' ', ':', ' '] else [c])

def placeFrom? (word : Text) (place : Nat) : Text → Option Nat
  | [] => if word.isEmpty then some place else none
  | c :: s => if word.isPrefixOf (c :: s) then some place else placeFrom? word (place + 1) s

/-- Spans as far as they were found, and the fault that ended the search. -/
abbrev Spans := List Span × Option Fault

/--
The spans of words that follow one another in a row. Each is looked for behind the one before it,
and it is a fault if it does not stand there.
-/
def wordSpans (code : Text) (row col : Nat) : List Text → Spans
  | [] => ([], none)
  | word :: rest =>
    if word = [':'] then wordSpans code row col rest
    else
      match placeFrom? word col (code.drop col) with
      | none => ([], some .badValue)
      | some start =>
        let t : Token := ⟨start, word⟩
        match t.span? code row with
        | .error f => ([], some f)
        | .ok none => wordSpans code row t.stop rest
        | .ok (some s) =>
          let (more, f) := wordSpans code row t.stop rest
          (s :: more, f)

def rowSpans (row : Nat) (s : Text) : Spans :=
  let code := s.takeWhile (· != ';')
  let (words, f) := wordSpans code row 0 (rowWords code)
  if code.length < s.length then (⟨.comment, row, code.length, none⟩ :: words, f)
  else (words, f)

def rowsSpans (row : Nat) : List Text → Spans
  | [] => ([], none)
  | s :: rest =>
    match rowSpans row s with
    | (spans, some f) => (spans, some f)
    | (spans, none) =>
      let (more, f) := rowsSpans (row + 1) rest
      (spans ++ more, f)

/-- The rows of an editor, which a line feed alone ends. -/
def editorRows (s : Text) : List Text := s.splitOn '\n'

def highlight (s : Text) : Spans := rowsSpans 1 (editorRows s)

end AccMachine
