import AccMachine.Highlight

namespace AccMachine

structure Editor where
  text : Text
  rows : Nat
  gutter : String
  spans : List Span

namespace Editor

def numbers (rows : Nat) : String :=
  "\n".intercalate ((List.range rows).map fun i => toString (i + 1))

/-- Numbers the rows, writing the numbers again only for another count of rows. -/
def numberRows (e : Editor) : Editor :=
  let rows := (editorRows e.text).length
  if rows = e.rows then e else { e with rows := rows, gutter := numbers rows }

/-- An editor without text, which has one row. No text has as few rows as it starts with. -/
def empty : Editor := numberRows ⟨[], 0, "", []⟩

def takeOff (e : Editor) (style : Style) : Editor :=
  { e with spans := e.spans.filter (·.style ≠ style) }

/-- Takes all styles off the text and finds its spans. On a fault those found before it stay. -/
def restyle (e : Editor) : Option Fault × Editor :=
  let bare := Style.all.foldl takeOff e
  let found := highlight bare.text
  (found.2, { bare with spans := bare.spans ++ found.1 })

def setText (e : Editor) (s : Text) : Option Fault × Editor :=
  { e with text := s }.numberRows.restyle

end Editor

end AccMachine
