import AccMachine.Text

namespace AccMachine

def sampleProgram : Text := "; Soma 5 + 4 + 3 + 2 + 1 usando a pilha
        LOCO 5
        STOD 400    ; contador
        LOCO 0
        STOD 401    ; acumulado

Loop:   LODD 401
        ADDD 400
        STOD 401
        LODD 400
        SUBD Um
        STOD 400
        JNZE Loop

        LODD 401
        PUSH        ; resultado no topo da pilha
        CALL Dobra
        HALT

Dobra:  LODL 1      ; SP+0 eh o endereco de retorno
        ADDL 1
        STOL 1
        RETN

Um:     1
".toList

end AccMachine
