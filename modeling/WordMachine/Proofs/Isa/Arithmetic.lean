import Mathlib.Data.Int.ModEq
import WordMachine.Cpu

namespace WordMachine.Isa

/-! Operations on two registers as operations on exact integers, and the words
that the machine computes for them. -/

structure Represents (word : Word) (exact : Int) : Prop where
  least_le : -2 ^ 31 ≤ word.value
  lt_bound : word.value < 2 ^ 31
  congruent : word.value ≡ exact [ZMOD 2 ^ 32]

inductive Computes (x y : Word) : Opcode → Word → Prop
  | add {result : Word} (sum : Represents result (x.value + y.value)) :
      Computes x y .add result
  | sub {result : Word} (difference : Represents result (x.value - y.value)) :
      Computes x y .sub result
  | mul {result : Word} (product : Represents result (x.value * y.value)) :
      Computes x y .mul result
  | div {result : Word} (nonzero : y.value ≠ 0)
      (regular : ¬ (x.value = -2 ^ 31 ∧ y.value = -1))
      (quotient : result.value = x.value.tdiv y.value) :
      Computes x y .div result
  | divWraps {result : Word} (least : x.value = -2 ^ 31)
      (negative : y.value = -1) (wrapped : result.value = -2 ^ 31) :
      Computes x y .div result
  | and {result : Word}
      (truth : result.value = if x.value ≠ 0 ∧ y.value ≠ 0 then 1 else 0) :
      Computes x y .and result
  | or {result : Word}
      (truth : result.value = if x.value ≠ 0 ∨ y.value ≠ 0 then 1 else 0) :
      Computes x y .or result
  | not {result : Word} (truth : result.value = if y.value = 0 then 1 else 0) :
      Computes x y .not result
  | lshift {result : Word} (double : Represents result (2 * y.value)) :
      Computes x y .lshift result
  | rshift {result : Word} (half : result.value = y.value.fdiv 2) :
      Computes x y .rshift result
  | bwc {result : Word}
      (bits : ∀ place < 32,
        result.getLsbD place = (x.getLsbD place && y.getLsbD place)) :
      Computes x y .bwc result
  | bwd {result : Word}
      (bits : ∀ place < 32,
        result.getLsbD place = (x.getLsbD place || y.getLsbD place)) :
      Computes x y .bwd result

theorem value_injective {first second : Word}
    (same : first.value = second.value) : first = second :=
  BitVec.eq_of_toInt_eq same

theorem Represents.unique {exact : Int} {first second : Word}
    (represents : Represents first exact)
    (represents' : Represents second exact) : first = second := by
  apply value_injective
  have congruent := represents.congruent.trans represents'.congruent.symm
  rw [Int.modEq_iff_dvd] at congruent
  obtain ⟨factor, difference⟩ := congruent
  have least := represents.least_le
  have least' := represents'.least_le
  have bound := represents.lt_bound
  have bound' := represents'.lt_bound
  omega

theorem Represents.value_eq {word : Word} {exact : Int}
    (represents : Represents word exact) (least : -2 ^ 31 ≤ exact)
    (bound : exact < 2 ^ 31) : word.value = exact := by
  have congruent := represents.congruent
  have least' := represents.least_le
  have bound' := represents.lt_bound
  unfold Int.ModEq at congruent
  omega

theorem represents_of_bmod {word : Word} {exact : Int}
    (same : word.value = exact.bmod (2 ^ 32)) : Represents word exact where
  least_le := BitVec.le_toInt word
  lt_bound := BitVec.toInt_lt
  congruent := by
    rw [same]
    exact Int.bmod_emod

theorem represents_add_one (address : Word) :
    Represents (address + 1) (address.value + 1) :=
  represents_of_bmod (BitVec.toInt_add address 1)

theorem value_add_one {address : Word} (nonnegative : 0 ≤ address.value)
    (nonnegative' : 0 ≤ (address + 1).value) :
    (address + 1).value = address.value + 1 := by
  have sum := represents_add_one address
  have congruent := sum.congruent
  have bound : address.value < 2 ^ 31 := BitVec.toInt_lt
  have bound' := sum.lt_bound
  unfold Int.ModEq at congruent
  omega

variable (x y : Word)

theorem computes_add : Computes x y .add (x + y) :=
  .add (represents_of_bmod (BitVec.toInt_add x y))

theorem computes_sub : Computes x y .sub (x - y) :=
  .sub (represents_of_bmod BitVec.toInt_sub)

theorem computes_mul : Computes x y .mul (x * y) :=
  .mul (represents_of_bmod (BitVec.toInt_mul x y))

theorem computes_lshift : Computes x y .lshift (y <<< 1) := by
  apply Computes.lshift
  apply represents_of_bmod
  have double : y <<< 1 = y + y := by
    apply BitVec.eq_of_toNat_eq
    rw [BitVec.toNat_shiftLeft, BitVec.toNat_add, Nat.shiftLeft_eq]
    omega
  calc
    Word.value (y <<< 1) = Word.value (y + y) := congrArg Word.value double
    _ = (y.value + y.value).bmod (2 ^ 32) := BitVec.toInt_add y y
    _ = (2 * y.value).bmod (2 ^ 32) := by rw [Int.two_mul]

theorem computes_rshift : Computes x y .rshift (y.sshiftRight 1) := by
  apply Computes.rshift
  calc
    Word.value (y.sshiftRight 1) = y.value >>> (1 : Nat) :=
        BitVec.toInt_sshiftRight
    _ = y.value / 2 := Int.shiftRight_eq_div_pow y.value 1
    _ = y.value.fdiv 2 := (Int.fdiv_eq_ediv_of_nonneg y.value (by decide)).symm

theorem value_eq_zero_iff {word : Word} : word.value = 0 ↔ word = 0 :=
  ⟨fun zero => value_injective zero, fun zero => zero ▸ rfl⟩

theorem computes_div (nonzero : y ≠ 0) : Computes x y .div (x.sdiv y) := by
  by_cases wraps : x.value = -2 ^ 31 ∧ y.value = -1
  · obtain ⟨least, negative⟩ := wraps
    have first : x = BitVec.intMin 32 := value_injective least
    have second : y = -1#32 := value_injective negative
    refine .divWraps least negative ?_
    rw [first, second, BitVec.intMin_sdiv_neg_one]
    rfl
  · have exact : x ≠ BitVec.intMin 32 ∨ y ≠ -1#32 := by
      by_contra both
      rw [not_or, not_not, not_not] at both
      obtain ⟨rfl, rfl⟩ := both
      exact wraps ⟨rfl, rfl⟩
    refine .div ?_ wraps (BitVec.toInt_sdiv_of_ne_or_ne x y exact)
    rw [ne_eq, value_eq_zero_iff]
    exact nonzero

@[simp] theorem value_truth (holds : Bool) :
    (Cpu.truth holds).value = if holds then 1 else 0 := by
  cases holds <;> rfl

theorem computes_and :
    Computes x y .and (Cpu.truth (x != 0 && y != 0)) := by
  apply Computes.and
  simp [value_eq_zero_iff]

theorem computes_or :
    Computes x y .or (Cpu.truth (x != 0 || y != 0)) := by
  apply Computes.or
  simp [value_eq_zero_iff]

theorem computes_not : Computes x y .not (Cpu.truth (y == 0)) := by
  apply Computes.not
  simp [value_eq_zero_iff]

theorem computes_bwc : Computes x y .bwc (x &&& y) :=
  .bwc fun _ _ => BitVec.getLsbD_and

theorem computes_bwd : Computes x y .bwd (x ||| y) :=
  .bwd fun _ _ => BitVec.getLsbD_or

theorem Computes.divisor_ne_zero {x y result : Word}
    (computes : Computes x y .div result) : y.value ≠ 0 := by
  cases computes with
  | div nonzero _ _ => exact nonzero
  | divWraps _ negative _ =>
      rw [negative]
      decide

theorem Computes.unique {x y : Word} {opcode : Opcode} {first second : Word}
    (computes : Computes x y opcode first)
    (computes' : Computes x y opcode second) : first = second := by
  cases computes with
  | add sum =>
      cases computes' with
      | add sum' => exact sum.unique sum'
  | sub difference =>
      cases computes' with
      | sub difference' => exact difference.unique difference'
  | mul product =>
      cases computes' with
      | mul product' => exact product.unique product'
  | lshift double =>
      cases computes' with
      | lshift double' => exact double.unique double'
  | div _ regular quotient =>
      cases computes' with
      | div _ _ quotient' =>
          exact value_injective (quotient.trans quotient'.symm)
      | divWraps least negative _ => exact absurd ⟨least, negative⟩ regular
  | divWraps least negative wrapped =>
      cases computes' with
      | div _ regular _ => exact absurd ⟨least, negative⟩ regular
      | divWraps _ _ wrapped' =>
          exact value_injective (wrapped.trans wrapped'.symm)
  | and truth =>
      cases computes' with
      | and truth' => exact value_injective (truth.trans truth'.symm)
  | or truth =>
      cases computes' with
      | or truth' => exact value_injective (truth.trans truth'.symm)
  | not truth =>
      cases computes' with
      | not truth' => exact value_injective (truth.trans truth'.symm)
  | rshift half =>
      cases computes' with
      | rshift half' => exact value_injective (half.trans half'.symm)
  | bwc bits =>
      cases computes' with
      | bwc bits' =>
          apply BitVec.eq_of_getLsbD_eq
          intro place bound
          rw [bits place bound, bits' place bound]
  | bwd bits =>
      cases computes' with
      | bwd bits' =>
          apply BitVec.eq_of_getLsbD_eq
          intro place bound
          rw [bits place bound, bits' place bound]

end WordMachine.Isa
