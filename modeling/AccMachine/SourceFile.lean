import AccMachine.Fault
import AccMachine.Text.Quoted

namespace AccMachine

inductive FileState
  | missing
  | directory
  | throughFile
  | nameTooLong
  | file (bytes : ByteArray)

namespace SourceFile

/--
A path without empty parts, without parts that are a single dot, and without a slash at its end. Two
slashes in front are kept, any other number of them is one.
-/
def normalize (path : Text) : Text :=
  let parts := (path.splitOn '/').filter fun p => p ≠ [] ∧ p ≠ ['.']
  let slashes := (path.takeWhile (· == '/')).length
  let root : Text := if slashes = 0 then [] else if slashes = 2 then ['/', '/'] else ['/']
  let joined := root ++ ['/'].intercalate parts
  if joined.isEmpty then ['.'] else joined

def problem? : FileState → Option String
  | .missing => some "[Errno 2] No such file or directory"
  | .directory => some "[Errno 21] Is a directory"
  | .throughFile => some "[Errno 20] Not a directory"
  | .nameTooLong => some "[Errno 36] File name too long"
  | .file _ => none

def newlineStep (c : Char) (rest : Bool × Text) : Bool × Text :=
  if c = '\r' then (false, if rest.1 then rest.2 else '\n' :: rest.2)
  else (c = '\n', c :: rest.2)

def unifyNewlines (s : Text) : Text := (s.foldr newlineStep (false, [])).2

def decodeText (bytes : ByteArray) : Except Fault Text :=
  match String.fromUTF8? bytes with
  | none => .error .notText
  | some s => .ok (unifyNewlines s.toList)

def read (files : Text → FileState) (path : Text) : Except Fault (Except String Text) :=
  if path.contains '\x00' then .error .badValue
  else
    let name := normalize path
    match files name with
    | .file bytes => return .ok (← decodeText bytes)
    | state =>
      let reason := (problem? state).getD ""
      .ok (.error s!"{reason}: {Text.quoted name}")

end SourceFile

end AccMachine
