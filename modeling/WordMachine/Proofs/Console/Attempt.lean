import Mathlib.Data.List.Basic
import Mathlib.Order.Basic
import WordMachine.Proofs.Console.Command

namespace WordMachine

/-! The steps that a series attempts. It comes to its end after a step that does not
go on running, and on the console also where there is no room for what a step has
raised. -/

namespace Console

def Fits (room : Option Nat) (bytes : Bytes) : Prop :=
  ∀ limit ∈ room, bytes.length ≤ limit

instance (room : Option Nat) (bytes : Bytes) : Decidable (Fits room bytes) :=
  inferInstanceAs (Decidable (∀ limit ∈ room, bytes.length ≤ limit))

def cut (room : Option Nat) (bytes : Bytes) : Bytes :=
  match room with
  | none => bytes
  | some limit => bytes.take limit

def told (diagnostics : List Diagnostic) : Bytes :=
  lineBytes (diagnostics.map Diagnostic.message)

variable {room : Option Nat} {front back bytes : Bytes}

theorem fits_none : Fits none bytes :=
  nofun

theorem fits_some_iff {limit : Nat} :
    Fits (some limit) bytes ↔ bytes.length ≤ limit :=
  ⟨fun fits => fits limit rfl, fun le _ given => Option.some.inj given ▸ le⟩

theorem Fits.mono (fits : Fits room bytes) (before : front <+: bytes) :
    Fits room front :=
  fun limit given => Nat.le_trans before.length_le (fits limit given)

theorem cut_of_fits (fits : Fits room bytes) : cut room bytes = bytes := by
  cases room with
  | none => rfl
  | some limit => exact List.take_of_length_le (fits_some_iff.mp fits)

theorem cut_append (short : ¬ Fits room front) (back : Bytes) :
    cut room (front ++ back) = cut room front := by
  cases room with
  | none => exact absurd fits_none short
  | some limit =>
      apply List.take_append_of_le_length
      apply Nat.le_of_not_le
      intro fits
      exact short (fits_some_iff.mpr fits)

theorem told_isPrefix_told {diagnostics larger : List Diagnostic}
    (before : diagnostics <+: larger) : told diagnostics <+: told larger := by
  obtain ⟨others, rfl⟩ := before
  rw [told, told, List.map_append, lineBytes_append]
  exact List.prefix_append _ _

end Console

open Console

theorem lt_countP_range_iff {holds : Nat → Prop} [DecidablePred holds]
    (closed : ∀ first second, first ≤ second → holds second → holds first)
    (bound index : Nat) :
    index < (List.range bound).countP holds ↔ index < bound ∧ holds index := by
  induction bound with
  | zero => simp
  | succ bound induction =>
      rw [List.range_succ, List.countP_append, List.countP_singleton]
      by_cases last : holds bound
      · have all : (List.range bound).countP holds = (List.range bound).length := by
          apply List.countP_eq_length.mpr
          intro earlier member
          have before := Nat.le_of_lt (List.mem_range.mp member)
          exact decide_eq_true (closed earlier bound before last)
        rw [all, List.length_range, if_pos (decide_eq_true last)]
        constructor
        · intro before
          exact ⟨before, closed index bound (Nat.le_of_lt_succ before) last⟩
        · exact And.left
      · rw [if_neg (by simpa using last), Nat.add_zero, induction]
        constructor
        · intro counted
          exact ⟨Nat.lt_succ_of_lt counted.1, counted.2⟩
        · intro counted
          rcases Nat.lt_succ_iff_lt_or_eq.mp counted.1 with before | rfl
          · exact ⟨before, counted.2⟩
          · exact absurd counted.2 last

namespace Machine

variable {machine : Machine} {budget count index : Nat} {room : Option Nat}

theorem raised_isPrefix_raised (machine : Machine) {larger : Nat} (le : count ≤ larger) :
    machine.raised count <+: machine.raised larger := by
  obtain ⟨more, rfl⟩ := Nat.exists_eq_add_of_le le
  have same : machine.raised count = (List.range count).flatMap fun index =>
      if machine.Takes (count + more) index then
        (machine.afterSteps (index + 1)).diagnostic.toList
      else [] := by
    apply List.flatMap_congr
    intro index member
    have within := List.mem_range.mp member
    have taken : machine.Takes count index ↔ machine.Takes (count + more) index :=
      ⟨fun taken => taken.mono le, fun taken => ⟨within, taken.2⟩⟩
    simp only [taken]
  rw [same, raised, List.range_add, List.flatMap_append]
  exact List.prefix_append _ _

/-- The number of the steps of a series that are attempted. A step is, if those
before it went on running and the console had room for what they raised. -/
def attempted (machine : Machine) (room : Option Nat) (budget : Nat) : Nat :=
  (List.range budget).countP fun index =>
    machine.Takes budget index ∧ Fits room (told (machine.raised index))

theorem lt_attempted_iff : index < machine.attempted room budget ↔
    machine.Takes budget index ∧ Fits room (told (machine.raised index)) := by
  unfold attempted
  rw [lt_countP_range_iff]
  · exact and_iff_right_of_imp fun attempts => attempts.1.1
  · intro first second le attempts
    obtain ⟨⟨within, before⟩, fits⟩ := attempts
    refine ⟨⟨Nat.lt_of_le_of_lt le within, ?_⟩, ?_⟩
    · exact fun earlier early => before earlier (Nat.lt_of_lt_of_le early le)
    · exact fits.mono (told_isPrefix_told (machine.raised_isPrefix_raised le))

theorem lt_attempted_none_iff :
    index < machine.attempted none budget ↔ machine.Takes budget index := by
  rw [lt_attempted_iff]
  exact and_iff_left fits_none

private theorem attempted_of_ended (taken : machine.Takes budget index)
    (ended : (machine.afterSteps index).step.1 ≠ .ok .running) :
    machine.attempted none budget = index + 1 := by
  have last : index < machine.attempted none budget :=
    lt_attempted_none_iff.mpr taken
  have next : ¬ index + 1 < machine.attempted none budget := fun attempts =>
    ended ((lt_attempted_none_iff.mp attempts).2 index (Nat.lt_succ_self index))
  omega

private theorem attempted_of_continues (continues : machine.Continues budget) :
    machine.attempted none budget = budget := by
  apply eq_of_forall_lt_iff
  intro index
  rw [lt_attempted_none_iff]
  exact ⟨And.left, continues.takes⟩

theorem run_eq_afterSteps (machine : Machine) (budget : Nat) :
    (machine.run budget).2 =
      machine.afterSteps (machine.attempted none budget) := by
  obtain ⟨outcome, ends⟩ := machine.exists_ends budget
  rw [run_of_ends ends]
  cases ends with
  | running continues => rw [attempted_of_continues continues]
  | halted taken halts =>
      rw [attempted_of_ended taken (by simp [halts]), afterSteps_succ]
  | failed taken fails =>
      rw [attempted_of_ended taken (by simp [fails]), afterSteps_succ]

def trail (machine : Machine) (count : Nat) : List Machine :=
  (List.range count).map machine.afterSteps

def faults (machine : Machine) : List Diagnostic :=
  machine.step.2.diagnostic.toList

theorem trail_succ (machine : Machine) (count : Nat) :
    machine.trail (count + 1) = machine :: machine.step.2.trail count := by
  rw [trail, List.range_succ_eq_map, List.map_cons, List.map_map]
  rfl

theorem attempted_succ (machine : Machine) (budget : Nat) :
    machine.attempted none (budget + 1) =
      if machine.step.1 = .ok .running then
        machine.step.2.attempted none budget + 1
      else 1 := by
  apply eq_of_forall_lt_iff
  intro index
  rw [lt_attempted_none_iff]
  split
  next running =>
      cases index with
      | zero => exact iff_of_true (machine.takes_zero budget) (Nat.succ_pos _)
      | succ index =>
          rw [takes_succ_iff, Nat.succ_lt_succ_iff, lt_attempted_none_iff]
          exact and_iff_right running
  next ended =>
      cases index with
      | zero => exact iff_of_true (machine.takes_zero budget) Nat.one_pos
      | succ index =>
          rw [takes_succ_iff]
          exact iff_of_false (fun taken => ended taken.1) (by omega)

theorem runEvents_eq (machine : Machine) (budget : Nat) :
    runEvents budget machine =
      (machine.trail (machine.attempted none budget)).flatMap stepEvents := by
  induction budget generalizing machine with
  | zero => rfl
  | succ budget induction =>
      rw [attempted_succ]
      by_cases running : machine.step.1 = .ok .running
      · have stepped : machine.step = (.ok .running, machine.step.2) :=
          Prod.ext running rfl
        rw [if_pos running, trail_succ, List.flatMap_cons, ← induction,
          runEvents_of_running stepped]
      · rw [if_neg running, runEvents_of_ne_running running, trail_succ]
        exact (List.append_nil _).symm

theorem raised_eq (machine : Machine) (budget : Nat) :
    machine.raised budget =
      (machine.trail (machine.attempted none budget)).flatMap faults := by
  induction budget generalizing machine with
  | zero => rfl
  | succ budget induction =>
      rw [attempted_succ, raised_succ]
      by_cases running : machine.step.1 = .ok .running
      · rw [if_pos running, if_pos running, trail_succ, List.flatMap_cons,
          ← induction]
        rfl
      · rw [if_neg running, if_neg running, trail_succ]
        rfl

theorem attempted_of_takes (taken : machine.Takes budget index) :
    machine.attempted none (index + 1) = index + 1 := by
  apply eq_of_forall_lt_iff
  intro other
  rw [lt_attempted_none_iff]
  refine ⟨And.left, fun within => ⟨within, ?_⟩⟩
  exact fun earlier before => taken.2 earlier (by omega)

/-- With room for all that the series raises, it attempts what it attempts anyway. -/
theorem attempted_of_fits (fits : Fits room (told (machine.raised budget))) :
    machine.attempted room budget = machine.attempted none budget := by
  apply eq_of_forall_lt_iff
  intro index
  rw [lt_attempted_iff, lt_attempted_none_iff]
  apply and_iff_left_of_imp
  intro taken
  have within := Nat.le_of_lt taken.1
  exact fits.mono (told_isPrefix_told (machine.raised_isPrefix_raised within))

/-- A console that has no room for what a step raised makes it the last. -/
theorem attempted_of_short (taken : machine.Takes budget index)
    (fits : Fits room (told (machine.raised index)))
    (short : ¬ Fits room (told (machine.raised (index + 1)))) :
    machine.attempted room budget = index + 1 := by
  have last : index < machine.attempted room budget :=
    lt_attempted_iff.mpr ⟨taken, fits⟩
  have next : ¬ index + 1 < machine.attempted room budget :=
    fun attempts => short (lt_attempted_iff.mp attempts).2
  omega

theorem raised_succ_of_takes (taken : machine.Takes budget index) :
    machine.raised (index + 1) =
      machine.raised index ++ (machine.afterSteps (index + 1)).diagnostic.toList := by
  rw [raised_eq, raised_eq, attempted_of_takes taken,
    attempted_of_continues taken.2, trail, List.range_succ, List.map_append,
    List.flatMap_append, afterSteps_succ]
  congr 1
  exact List.append_nil _

end Machine

end WordMachine
