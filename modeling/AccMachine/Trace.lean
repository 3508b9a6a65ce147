import AccMachine.Operation

namespace AccMachine

inductive TraceLine
  | fetch (text : String)
  | ran (o : Operation) (text : String)
  | unknown (w : Word)
deriving DecidableEq

def TraceLine.text : TraceLine → String
  | fetch text => s!"[FETCH] {text}"
  | ran o text => s!"[{o.mnemonic}] {text}"
  | unknown w => s!"Instrucao desconhecida: {w.hex}"

end AccMachine
