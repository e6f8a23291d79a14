import WordMachine.Text.Basic

namespace WordMachine

abbrev Register := Fin 8

namespace Register

def ofIndex? (index : Nat) : Option Register :=
  if bound : index < 8 then some ⟨index, bound⟩ else none

def all : List Register :=
  List.finRange 8

def text (register : Register) : String :=
  toString register.val

@[simp] theorem ofIndex?_val (register : Register) :
    ofIndex? register.val = some register := by
  simp [ofIndex?, register.isLt]

theorem ofIndex?_eq_none_iff {index : Nat} :
    ofIndex? index = none ↔ 8 ≤ index := by
  simp [ofIndex?]

end Register

end WordMachine
