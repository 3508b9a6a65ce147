import AccMachine.Command

namespace AccMachine

def fileState (name : Text) : IO FileState := do
  try
    return .file (← IO.FS.readBinFile (String.ofList name))
  catch
    | .noFileOrDirectory .. => return .missing
    | .inappropriateType _ code _ =>
      return if code = 20 ∨ code = -20 then .throughFile else .directory
    | .invalidArgument .. => return .nameTooLong
    | _ => return .missing

def namedFiles (args : List Text) : IO (Text → FileState) := do
  match Options.ofArgs args with
  | .error _ => return fun _ => .missing
  | .ok o =>
    match o.source with
    | none => return fun _ => .missing
    | some path =>
      let state ← fileState (SourceFile.normalize path)
      return fun _ => state

def Ending.code : Ending → UInt32
  | returned code => code.toUInt32
  | exited code => code.toUInt32
  | failed _ => 1

end AccMachine

open AccMachine in
def main (args : List String) : IO UInt32 := do
  let args := args.map String.toList
  let outcome := Command.run args (← namedFiles args)
  IO.print outcome.stdout
  IO.eprint outcome.stderr
  return outcome.ending.code
