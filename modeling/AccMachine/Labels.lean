import AccMachine.Text

namespace AccMachine

/-- A table of labels; a name stands in it at most once when it is built by `define`. -/
abbrev Labels := List (Text × Int)

namespace Labels

def find? (labels : Labels) (name : Text) : Option Int :=
  (List.find? (fun e => e.1 = name) labels).map (·.2)

def define (name : Text) (addr : Int) : Labels → Labels
  | [] => [(name, addr)]
  | e :: es => if e.1 = name then (name, addr) :: es else e :: define name addr es

def sorted (labels : Labels) : Labels := labels.mergeSort fun a b => !b.1.lex a.1

@[simp] theorem find?_define (labels : Labels) (name other : Text) (addr : Int) :
    (labels.define name addr).find? other =
      if name = other then some addr else labels.find? other := by
  unfold find?
  induction labels with
  | nil => by_cases h : name = other <;> simp [define, h]
  | cons e es ih =>
    unfold define
    by_cases hk : e.1 = name
    · subst hk
      by_cases h : e.1 = other <;> simp [h]
    · by_cases ho : e.1 = other
      · subst ho
        simp [hk, Ne.symm hk]
      · simp [hk, ho, ih]

end Labels

end AccMachine
