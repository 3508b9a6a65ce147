import AccMachine.SourceFile

namespace AccMachine

structure Directory where
  entries : List (Text × Option ByteArray)

namespace Directory

def hasBelow (d : Directory) (path : Text) : Bool :=
  d.entries.any fun e => (path ++ ['/']).isPrefixOf e.1

def entry (d : Directory) (path : Text) : FileState :=
  match d.entries.find? fun e => e.1 = path with
  | some (_, some bytes) => .file bytes
  | some (_, none) => .directory
  | none => if d.hasBelow path then .directory else .missing

def maxNameBytes : Nat := 255

def maxPathBytes : Nat := 4095

inductive Place
  | within (names : List Text)
  | outside

def Place.up : Place → Place
  | within (_ :: names) => within names
  | _ => outside

def follow (d : Directory) (p : Place) : List Text → FileState
  | [] => .directory
  | part :: rest =>
    if part = ['.', '.'] then d.follow p.up rest
    else if maxNameBytes < (String.ofList part).utf8ByteSize then .nameTooLong
    else match p with
      | .outside => .missing
      | .within names =>
        let here := part :: names
        match d.entry (['/'].intercalate here.reverse), rest with
        | .directory, _ => d.follow (.within here) rest
        | state, [] => state
        | .file _, _ => .throughFile
        | state, _ => state

/-- What a path leads to, from the directory or, with a slash in front, from outside. -/
def state (d : Directory) (path : Text) : FileState :=
  let parts := (path.splitOn '/').filter fun p => p ≠ [] ∧ p ≠ ['.']
  if maxPathBytes < (String.ofList path).utf8ByteSize then .nameTooLong
  else d.follow (if path.head? = some '/' then .outside else .within []) parts

end Directory

end AccMachine
