import WordMachine.Diagnostic
import WordMachine.Memory

namespace WordMachine

/-! One cycle of the central processing unit: fetch, decode, execute. A cycle
computes its effect on a memory that it only reads; a memory error leaves no
effect at all. -/

inductive Status where
  | running
  | halted
  deriving DecidableEq, Repr

structure Cpu where
  registers : Vector Word 8
  pc : Word
  ir : Word
  deriving DecidableEq, Repr

/-- What a completed cycle does: the next state, and at most one cell written. -/
structure Effect (capacity : Nat) where
  status : Status
  cpu : Cpu
  stored : Option (Fin capacity × Word)
  diagnostic : Option Diagnostic

namespace Cpu

def initial : Cpu :=
  ⟨Vector.replicate 8 0, 0, 0⟩

def get (cpu : Cpu) (register : Register) : Word :=
  cpu.registers[register]

def set (cpu : Cpu) (register : Register) (word : Word) : Cpu :=
  { cpu with registers := cpu.registers.set register.val word register.isLt }

/-- The state after a word has been fetched at the program counter. -/
def fetched (cpu : Cpu) (word : Word) : Cpu :=
  { cpu with pc := cpu.pc + 1, ir := word }

end Cpu

namespace Effect

variable {capacity : Nat}

def proceed (cpu : Cpu) : Effect capacity :=
  ⟨.running, cpu, none, none⟩

def assign (cpu : Cpu) (register : Register) (word : Word) : Effect capacity :=
  proceed (cpu.set register word)

def halt (cpu : Cpu) (diagnostic : Option Diagnostic) : Effect capacity :=
  ⟨.halted, cpu, none, diagnostic⟩

end Effect

namespace Cpu

def truth (holds : Bool) : Word :=
  if holds then 1 else 0

/-- Executes an instruction in the state after its fetch; `address` is where it
was fetched. -/
def execute (cpu : Cpu) (memory : Memory) (address : Word)
    (instruction : Instruction) : Except MemoryError (Effect memory.capacity) :=
  let x := cpu.get instruction.target
  let y := cpu.get instruction.operand
  match instruction.opcode with
  | .halt => .ok (.halt cpu none)
  | .load =>
      match memory.read y with
      | .ok word => .ok (.assign cpu instruction.target word)
      | .error error => .error error
  | .loadc =>
      match memory.read cpu.pc with
      | .ok word => .ok (.assign (cpu.fetched word) instruction.target word)
      | .error error => .error error
  | .store =>
      match memory.locate x with
      | .ok index => .ok ⟨.running, cpu, some (index, y), none⟩
      | .error error => .error error
  | .add => .ok (.assign cpu instruction.target (x + y))
  | .mul => .ok (.assign cpu instruction.target (x * y))
  | .sub => .ok (.assign cpu instruction.target (x - y))
  | .div =>
      if y = 0 then
        .ok ⟨.running, cpu, none, some (.divideByZero address)⟩
      else
        .ok (.assign cpu instruction.target (x.sdiv y))
  | .and => .ok (.assign cpu instruction.target (truth (x != 0 && y != 0)))
  | .or => .ok (.assign cpu instruction.target (truth (x != 0 || y != 0)))
  | .not => .ok (.assign cpu instruction.target (truth (y == 0)))
  | .lshift => .ok (.assign cpu instruction.target (y <<< 1))
  | .rshift => .ok (.assign cpu instruction.target (y.sshiftRight 1))
  | .bwc => .ok (.assign cpu instruction.target (x &&& y))
  | .bwd => .ok (.assign cpu instruction.target (x ||| y))
  | .if => .ok (.proceed (if x = 0 then cpu else { cpu with pc := y }))

/-- A word that is no instruction halts the machine. -/
def cycle (cpu : Cpu) (memory : Memory) :
    Except MemoryError (Effect memory.capacity) :=
  match memory.read cpu.pc with
  | .error error => .error error
  | .ok word =>
      let after := cpu.fetched word
      match Instruction.decode word with
      | .ok instruction => after.execute memory cpu.pc instruction
      | .error cause => .ok (.halt after (some (.unrecognized cpu.pc cause)))

/-- The instruction at the program counter, if there is one. -/
def pending (cpu : Cpu) (memory : Memory) : Option Instruction :=
  match memory.read cpu.pc with
  | .ok word => (Instruction.decode word).toOption
  | .error _ => none

@[simp] theorem get_set_self (cpu : Cpu) (register : Register) (word : Word) :
    (cpu.set register word).get register = word := by
  simp [get, set]

theorem get_set_of_ne (cpu : Cpu) {register other : Register} (word : Word)
    (different : other ≠ register) :
    (cpu.set register word).get other = cpu.get other := by
  have places : register.val ≠ other.val := fun same =>
    different (Fin.ext same.symm)
  simp [get, set, places]

@[simp] theorem pc_set (cpu : Cpu) (register : Register) (word : Word) :
    (cpu.set register word).pc = cpu.pc := rfl

@[simp] theorem ir_set (cpu : Cpu) (register : Register) (word : Word) :
    (cpu.set register word).ir = cpu.ir := rfl

@[simp] theorem get_fetched (cpu : Cpu) (word : Word) (register : Register) :
    (cpu.fetched word).get register = cpu.get register := rfl

@[simp] theorem get_initial (register : Register) : initial.get register = 0 := by
  simp [initial, get]

end Cpu

end WordMachine
