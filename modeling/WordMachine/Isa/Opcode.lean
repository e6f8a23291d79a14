import WordMachine.Text.Basic

namespace WordMachine

/-! The sixteen operations, in the order of their codes. -/

inductive Opcode where
  | halt
  | load
  | loadc
  | store
  | add
  | mul
  | sub
  | div
  | and
  | or
  | not
  | lshift
  | rshift
  | bwc
  | bwd
  | if
  deriving DecidableEq, Repr

namespace Opcode

def all : List Opcode :=
  [.halt, .load, .loadc, .store, .add, .mul, .sub, .div,
    .and, .or, .not, .lshift, .rshift, .bwc, .bwd, .if]

def code : Opcode → Fin 16
  | .halt => 0
  | .load => 1
  | .loadc => 2
  | .store => 3
  | .add => 4
  | .mul => 5
  | .sub => 6
  | .div => 7
  | .and => 8
  | .or => 9
  | .not => 10
  | .lshift => 11
  | .rshift => 12
  | .bwc => 13
  | .bwd => 14
  | .if => 15

def ofCode (code : Fin 16) : Opcode :=
  all.get ⟨code.val, code.isLt⟩

def ofCode? (code : Nat) : Option Opcode :=
  all[code]?

def unassigned (code : Nat) : String :=
  s!"No discriminant in enum `Opcode` matches the value `{code}`"

def mnemonic : Opcode → Text
  | .halt => ['h', 'a', 'l', 't']
  | .load => ['l', 'o', 'a', 'd']
  | .loadc => ['l', 'o', 'a', 'd', 'c']
  | .store => ['s', 't', 'o', 'r', 'e']
  | .add => ['a', 'd', 'd']
  | .mul => ['m', 'u', 'l']
  | .sub => ['s', 'u', 'b']
  | .div => ['d', 'i', 'v']
  | .and => ['a', 'n', 'd']
  | .or => ['o', 'r']
  | .not => ['n', 'o', 't']
  | .lshift => ['l', 's', 'h', 'i', 'f', 't']
  | .rshift => ['r', 's', 'h', 'i', 'f', 't']
  | .bwc => ['b', 'w', 'c']
  | .bwd => ['b', 'w', 'd']
  | .if => ['i', 'f']

def name (opcode : Opcode) : String :=
  String.ofList opcode.mnemonic

/-- The operation a text spells exactly. -/
def ofName? (text : Text) : Option Opcode :=
  all.find? fun opcode => opcode.mnemonic == text

/-- The operation a text spells in any mixture of cases. -/
def ofMnemonic? (text : Text) : Option Opcode :=
  ofName? text.lower

/-- The constant of a `loadc` is the word after it, so it names one register
only. -/
def arity : Opcode → Nat
  | .loadc => 1
  | _ => 2

@[simp] theorem mem_all (opcode : Opcode) : opcode ∈ all := by
  cases opcode <;> decide

@[simp] theorem ofCode_code (opcode : Opcode) : ofCode opcode.code = opcode := by
  cases opcode <;> rfl

@[simp] theorem code_ofCode (code : Fin 16) : (ofCode code).code = code := by
  revert code
  decide

theorem ofCode?_val (code : Fin 16) : ofCode? code.val = some (ofCode code) := by
  rw [ofCode?, ofCode, List.getElem?_eq_getElem code.isLt]
  rfl

@[simp] theorem ofName?_mnemonic (opcode : Opcode) :
    ofName? opcode.mnemonic = some opcode := by
  cases opcode <;> rfl

theorem mnemonic_inj {first second : Opcode} :
    first.mnemonic = second.mnemonic ↔ first = second := by
  constructor
  · intro same
    have found := ofName?_mnemonic first
    rw [same, ofName?_mnemonic] at found
    exact (Option.some.inj found).symm
  · intro same
    rw [same]

theorem mnemonic_of_ofName? {text : Text} {opcode : Opcode}
    (found : ofName? text = some opcode) : opcode.mnemonic = text := by
  have matching := List.find?_some found
  simpa using matching

@[simp] theorem ofMnemonic?_mnemonic (opcode : Opcode) :
    ofMnemonic? opcode.mnemonic = some opcode := by
  cases opcode <;> rfl

theorem ofMnemonic?_eq_some_iff {text : Text} {opcode : Opcode} :
    ofMnemonic? text = some opcode ↔ text.lower = opcode.mnemonic := by
  constructor
  · intro found
    exact (mnemonic_of_ofName? found).symm
  · intro same
    rw [ofMnemonic?, same, ofName?_mnemonic]

theorem arity_of_ne_loadc {opcode : Opcode} (other : opcode ≠ .loadc) :
    opcode.arity = 2 := by
  cases opcode with
  | loadc => exact absurd rfl other
  | _ => rfl

end Opcode

end WordMachine
