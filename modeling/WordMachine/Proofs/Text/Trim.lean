import Mathlib.Data.List.TakeWhile
import WordMachine.Text.Basic

namespace WordMachine.Text

/-! What is left of a text without the blanks at its ends. -/

structure Snug (isBlank : Char → Bool) (text : Text) : Prop where
  opens : ∀ c ∈ text.head?, isBlank c = false
  closes : ∀ c ∈ text.getLast?, isBlank c = false

/-- A text with nothing but blanks around its core. -/
structure Trimmed (isBlank : Char → Bool) (text core : Text) : Prop
    extends Snug isBlank core where
  parts : ∃ front back, text = front ++ core ++ back ∧
    (∀ c ∈ front, isBlank c = true) ∧ ∀ c ∈ back, isBlank c = true

variable {isBlank : Char → Bool} {text core : Text}

theorem head?_dropWhile_eq_false (holds : Char → Bool) (text : Text) :
    ∀ c ∈ (text.dropWhile holds).head?, holds c = false := by
  intro c first
  have stops := List.head?_dropWhile_not holds text
  rw [Option.mem_def.mp first] at stops
  exact stops

theorem dropWhile_eq_self (opens : ∀ c ∈ text.head?, isBlank c = false) :
    text.dropWhile isBlank = text := by
  cases text with
  | nil => rfl
  | cons first rest =>
      apply List.dropWhile_cons_of_neg
      exact Bool.eq_false_iff.mp (opens first rfl)

theorem exists_dropWhile (isBlank : Char → Bool) (text : Text) :
    ∃ front, text = front ++ text.dropWhile isBlank ∧
      ∀ c ∈ front, isBlank c = true :=
  ⟨_, List.takeWhile_append_dropWhile.symm, fun _ => List.mem_takeWhile_imp⟩

private theorem trimmed_trim (isBlank : Char → Bool) (text : Text) :
    Trimmed isBlank text (text.trim isBlank) := by
  obtain ⟨front, opened, blank⟩ := exists_dropWhile isBlank text
  obtain ⟨margin, closed, blank'⟩ :=
    exists_dropWhile isBlank (text.dropWhile isBlank).reverse
  have split : text.dropWhile isBlank = text.trim isBlank ++ margin.reverse := by
    rw [← List.reverse_inj, List.reverse_append, List.reverse_reverse, trim,
      List.reverse_reverse]
    exact closed
  constructor
  · constructor
    · intro c first
      apply head?_dropWhile_eq_false isBlank text c
      rw [split, List.head?_append, Option.mem_def.mp first]
      rfl
    · intro c last
      rw [trim, List.getLast?_reverse] at last
      exact head?_dropWhile_eq_false isBlank _ c last
  · refine ⟨front, margin.reverse, ?_, blank, ?_⟩
    · rw [List.append_assoc, ← split]
      exact opened
    · intro c member
      exact blank' c (List.mem_reverse.mp member)

theorem Trimmed.trim_eq (trimmed : Trimmed isBlank text core) :
    text.trim isBlank = core := by
  obtain ⟨⟨opens, closes⟩, front, back, rfl, before, behind⟩ := trimmed
  have behind' : ∀ c ∈ back.reverse, isBlank c = true := fun c member =>
    behind c (List.mem_reverse.mp member)
  rw [trim, List.append_assoc, List.dropWhile_append_of_pos before]
  cases core with
  | nil =>
      rw [List.nil_append, List.dropWhile_eq_nil_iff.mpr behind]
      rfl
  | cons first rest =>
      have start : (first :: rest ++ back).dropWhile isBlank = first :: rest ++ back :=
        dropWhile_eq_self fun c head => opens c head
      rw [start, List.reverse_append, List.dropWhile_append_of_pos behind',
        dropWhile_eq_self, List.reverse_reverse]
      rwa [List.head?_reverse]

theorem Trimmed.pad {front back : Text} (trimmed : Trimmed isBlank text core)
    (before : ∀ c ∈ front, isBlank c = true) (behind : ∀ c ∈ back, isBlank c = true) :
    Trimmed isBlank (front ++ text ++ back) core := by
  obtain ⟨snug, first, last, rfl, before', behind'⟩ := trimmed
  refine ⟨snug, front ++ first, last ++ back, by simp, ?_, ?_⟩
  · exact List.forall_mem_append.mpr ⟨before, before'⟩
  · exact List.forall_mem_append.mpr ⟨behind', behind⟩

/-- A text has one core, and trimming finds it. -/
theorem exists_trimmed_iff {holds : Text → Prop} :
    (∃ core, Trimmed isBlank text core ∧ holds core) ↔ holds (text.trim isBlank) := by
  constructor
  · intro found
    obtain ⟨core, trimmed, held⟩ := found
    rwa [trimmed.trim_eq]
  · intro held
    exact ⟨_, trimmed_trim isBlank text, held⟩

end WordMachine.Text
