namespace AccMachine

abbrev Text := List Char

def isLineBreak (c : Char) : Bool :=
  c ∈ ['\n', '\x0b', '\x0c', '\r', '\x1c', '\x1d', '\x1e', '\x85', '\u2028', '\u2029']

def isBlank (c : Char) : Bool :=
  isLineBreak c ||
    c ∈ ['\t', '\x1f', ' ', '\xa0', '\u1680', '\u202f', '\u205f', '\u3000'] ||
    ('\u2000' ≤ c && c ≤ '\u200a')

/--
The capital form of a character whose capitals are plain letters from A to Z; any other character
stands for itself. Mnemonics and register names hold nothing but such letters, so no other capital
form can complete one.
-/
def capital (c : Char) : Text :=
  if c.isLower then [c.toUpper]
  else match c with
    | 'ß' => ['S', 'S']
    | 'ı' => ['I']
    | 'ſ' => ['S']
    | '\ufb00' => ['F', 'F']
    | '\ufb01' => ['F', 'I']
    | '\ufb02' => ['F', 'L']
    | '\ufb03' => ['F', 'F', 'I']
    | '\ufb04' => ['F', 'F', 'L']
    | '\ufb05' => ['S', 'T']
    | '\ufb06' => ['S', 'T']
    | c => [c]

namespace Text

def upper (s : Text) : Text := s.flatMap capital

def strip (s : Text) : Text :=
  ((s.dropWhile isBlank).reverse.dropWhile isBlank).reverse

def words (s : Text) : List Text :=
  (s.splitOnP isBlank).filter (!·.isEmpty)

def consHead (c : Char) : List Text → List Text
  | [] => [[c]]
  | l :: ls => (c :: l) :: ls

/--
One step of cutting a text into lines, from its end. The flag says whether the character that
follows is a line feed: a carriage return before it belongs to the same line break.
-/
def lineStep (c : Char) (rest : Bool × List Text) : Bool × List Text :=
  if c = '\r' ∧ rest.1 then (false, rest.2)
  else if isLineBreak c then (c = '\n', [] :: rest.2)
  else (false, consHead c rest.2)

/-- The lines of a text without their line breaks; a break at the very end opens no line. -/
def lines (s : Text) : List Text :=
  (s.foldr lineStep (false, [])).2

end Text

end AccMachine
