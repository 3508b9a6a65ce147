import AccMachine.Text
import AccMachine.Text.Printable

namespace AccMachine.Text

/-- The quote that stands around a text: the double one only where the other would need escaping. -/
def quoteFor (s : Text) : Char :=
  if s.contains '\'' && !s.contains '"' then '"' else '\''

def escapeCode (n : Nat) : Text :=
  let digits (width : Nat) : Text := (Nat.toDigits 16 n).leftpad width '0'
  if n < 0x100 then '\\' :: 'x' :: digits 2
  else if n < 0x10000 then '\\' :: 'u' :: digits 4
  else '\\' :: 'U' :: digits 8

def escapeChar (quote c : Char) : Text :=
  if c = quote ∨ c = '\\' then ['\\', c]
  else if c = '\n' then ['\\', 'n']
  else if c = '\r' then ['\\', 'r']
  else if c = '\t' then ['\\', 't']
  else if isPrintable c then [c]
  else escapeCode c.toNat

def quoted (s : Text) : String :=
  let quote := quoteFor s
  String.ofList (quote :: s.flatMap (escapeChar quote) ++ [quote])

end AccMachine.Text
