import WordMachine.Text.Lines

namespace WordMachine

/-! Texts that are put together from lines or words, and split into them
again. -/

section Separator

variable {α : Type} {separator : α}

theorem intercalate_concat (pieces : List (List α)) (last : List α) :
    [separator].intercalate (pieces ++ [last]) =
      (pieces.flatMap fun piece => piece ++ [separator]) ++ last := by
  induction pieces with
  | nil => simp [List.intercalate]
  | cons piece rest induction =>
      rw [List.cons_append, List.intercalate_cons_of_ne_nil (by simp), induction,
        List.flatMap_cons, List.append_assoc _ _ last]

variable [BEq α] [LawfulBEq α] {text piece : List α}

theorem not_mem_of_mem_splitOn (member : piece ∈ text.splitOn separator) :
    separator ∉ piece := by
  induction text generalizing piece with
  | nil =>
      rw [List.splitOn_nil, List.mem_singleton] at member
      subst member
      exact List.not_mem_nil
  | cons first rest induction =>
      rw [List.splitOn_cons_eq_if_modifyHead] at member
      split at member
      next same =>
          rcases List.mem_cons.mp member with rfl | later
          · exact List.not_mem_nil
          · exact induction later
      next different =>
          obtain ⟨head, tail, pieces⟩ :=
            List.exists_cons_of_ne_nil (List.splitOn_ne_nil separator rest)
          rw [pieces, List.modifyHead_cons] at member
          rw [pieces] at induction
          rcases List.mem_cons.mp member with rfl | later
          · rw [List.mem_cons, not_or]
            refine ⟨?_, induction List.mem_cons_self⟩
            rintro rfl
            exact different BEq.rfl
          · exact induction (List.mem_cons_of_mem head later)

end Separator

section Ends

variable {α : Type} {newline carriage : α} {line rest back : List α}

/-- A text with no line left open: it is empty or ends with a newline. -/
def Closed (newline : α) (text : List α) : Prop :=
  text = [] ∨ text.getLast? = some newline

/-- A line ends between two parts of a text: behind its newline, before it, or
before the carriage return that belongs to it. -/
inductive LineEnd (newline carriage : α) : List α → List α → Prop
  | behind {front : List α} (closed : Closed newline front) (back : List α) :
      LineEnd newline carriage front back
  | whole (front : List α) : LineEnd newline carriage front []
  | before {front : List α} (bare : front.getLast? ≠ some carriage) (back : List α) :
      LineEnd newline carriage front (newline :: back)
  | beforeReturn (front back : List α) :
      LineEnd newline carriage front (carriage :: newline :: back)

theorem Closed.eq_nil (closed : Closed newline line) (inside : newline ∉ line) :
    line = [] :=
  closed.resolve_right fun last => inside (List.mem_of_getLast? last)

theorem getLast?_append_cons (present : rest ≠ []) :
    (line ++ newline :: rest).getLast? = rest.getLast? := by
  rw [List.getLast?_append, List.getLast?_cons_of_ne_nil present,
    List.getLast?_eq_some_getLast present, Option.some_or]

theorem Closed.append_cons (closed : Closed newline rest) (line : List α) :
    Closed newline (line ++ newline :: rest) := by
  by_cases present : rest = []
  · subst present
    exact .inr List.getLast?_concat
  · rw [Closed, getLast?_append_cons present]
    exact .inr (closed.resolve_left present)

theorem Closed.of_append_cons (closed : Closed newline (line ++ newline :: rest)) :
    Closed newline rest := by
  by_cases present : rest = []
  · exact .inl present
  · rcases closed with impossible | last
    · exact absurd impossible (by simp)
    · rw [getLast?_append_cons present] at last
      exact .inr last

theorem LineEnd.of_append_cons
    (ends : LineEnd newline carriage (line ++ newline :: rest) back) :
    LineEnd newline carriage rest back := by
  cases ends with
  | behind closed => exact .behind closed.of_append_cons back
  | whole => exact .whole rest
  | before bare back =>
      by_cases present : rest = []
      · exact .behind (.inl present) _
      · rw [getLast?_append_cons present] at bare
        exact .before bare back
  | beforeReturn back => exact .beforeReturn rest back

end Ends

section Lines

variable {α : Type} [BEq α] [LawfulBEq α] {newline carriage : α}

theorem splitLines_append_cons {line : List α} (inside : newline ∉ line)
    (rest : List α) :
    splitLines newline carriage (line ++ newline :: rest) =
      dropReturn carriage line :: splitLines newline carriage rest := by
  have pieces := List.splitOn_append_cons_self_of_not_mem inside rest
  have present := List.splitOn_ne_nil newline rest
  simp only [splitLines, pieces, List.dropLast_cons_of_ne_nil present,
    List.map_cons, List.cons_append, List.getLast?_cons_of_ne_nil present]

/-- A text is a line without a newline, or such a line, a newline and a shorter
text. -/
@[elab_as_elim]
theorem line_induction (newline : α) {motive : List α → Prop}
    (last : ∀ line, newline ∉ line → motive line)
    (ended : ∀ line rest, newline ∉ line → motive rest →
      motive (line ++ newline :: rest)) (text : List α) : motive text := by
  induction size : text.length using Nat.strongRecOn generalizing text with
  | ind length induction =>
      by_cases member : newline ∈ text
      · obtain ⟨line, rest, rfl, inside⟩ := List.eq_append_cons_of_mem member
        refine ended line rest inside (induction rest.length ?_ rest rfl)
        rw [← size, List.length_append, List.length_cons]
        omega
      · exact last text member

private theorem splitLines_flatMap_newline {lines : List (List α)}
    (inside : ∀ line ∈ lines, newline ∉ line) :
    splitLines newline carriage (lines.flatMap fun line => line ++ [newline]) =
      lines.map (dropReturn carriage) := by
  induction lines with
  | nil => simp [splitLines]
  | cons line rest induction =>
      have first := inside line List.mem_cons_self
      have others := induction fun other member =>
        inside other (List.mem_cons_of_mem line member)
      rw [List.flatMap_cons, List.append_assoc, List.singleton_append,
        splitLines_append_cons first, others, List.map_cons]

private theorem dropReturn_of_not_mem {line : List α} (bare : carriage ∉ line) :
    dropReturn carriage line = line := by
  rw [dropReturn, if_neg]
  intro returned
  exact bare (List.mem_of_getLast? (eq_of_beq returned))

theorem dropReturn_append_singleton (line : List α) :
    dropReturn carriage (line ++ [carriage]) = line := by
  rw [dropReturn, if_pos (by simp), List.dropLast_concat]

theorem splitLines_of_not_mem {line : List α} (present : line ≠ [])
    (inside : newline ∉ line) : splitLines newline carriage line = [line] := by
  have piece : line.splitOn newline = [line] :=
    List.splitOn_eq_singleton inside
  simp [splitLines, piece, present]

/-- The lines of a text. A newline ends a line, together with a carriage return
directly before it. What is left without a newline is a line as it stands. -/
inductive Lined (newline carriage : α) : List α → List (List α) → Prop
  | done : Lined newline carriage [] []
  | last {line : List α} (present : line ≠ []) (inside : newline ∉ line) :
      Lined newline carriage line [line]
  | ended {line rest : List α} {lines : List (List α)} (inside : newline ∉ line)
      (bare : line.getLast? ≠ some carriage)
      (others : Lined newline carriage rest lines) :
      Lined newline carriage (line ++ newline :: rest) (line :: lines)
  | returned {line rest : List α} {lines : List (List α)}
      (inside : newline ∉ line) (others : Lined newline carriage rest lines) :
      Lined newline carriage (line ++ [carriage] ++ newline :: rest)
        (line :: lines)

theorem Lined.splitLines_eq {text : List α} {lines : List (List α)}
    (lined : Lined newline carriage text lines) (different : newline ≠ carriage) :
    splitLines newline carriage text = lines := by
  induction lined with
  | done => rfl
  | last present inside => exact splitLines_of_not_mem present inside
  | ended inside bare _ induction =>
      rw [splitLines_append_cons inside, induction, dropReturn,
        if_neg (by simpa using bare)]
  | @returned line _ _ inside _ induction =>
      have inside' : newline ∉ line ++ [carriage] := by
        simp [inside, different]
      rw [splitLines_append_cons inside', induction, dropReturn_append_singleton]

theorem lined_splitLines (text : List α) :
    Lined newline carriage text (splitLines newline carriage text) := by
  induction text using line_induction newline with
  | last line inside =>
      by_cases present : line = []
      · subst present
        exact .done
      · rw [splitLines_of_not_mem present inside]
        exact .last present inside
  | ended line rest inside others =>
      rw [splitLines_append_cons inside]
      by_cases bare : line.getLast? = some carriage
      · obtain ⟨front, rfl⟩ := List.getLast?_eq_some_iff.mp bare
        rw [dropReturn_append_singleton]
        rw [List.mem_append, not_or] at inside
        exact .returned inside.1 others
      · rw [dropReturn, if_neg (by simpa using bare)]
        exact .ended inside bare others

theorem splitLines_append {front : List α} (closed : Closed newline front)
    (back : List α) :
    splitLines newline carriage (front ++ back) =
      splitLines newline carriage front ++ splitLines newline carriage back := by
  induction front using line_induction newline with
  | last line inside =>
      rw [closed.eq_nil inside]
      rfl
  | ended line rest inside induction =>
      rw [List.append_assoc, List.cons_append, splitLines_append_cons inside,
        splitLines_append_cons inside, induction closed.of_append_cons,
        List.cons_append]

theorem splitLines_prefix_cons {line : List α} (inside : newline ∉ line)
    (others : List (List α)) :
    splitLines newline carriage line <+: line :: others := by
  by_cases present : line = []
  · subst present
    exact List.nil_prefix
  · rw [splitLines_of_not_mem present inside]
    exact List.prefix_append [line] others

theorem LineEnd.splitLines_prefix {front back : List α}
    (ends : LineEnd newline carriage front back) (different : newline ≠ carriage) :
    splitLines newline carriage front <+: splitLines newline carriage (front ++ back) := by
  induction front using line_induction newline with
  | last line inside =>
      cases ends with
      | behind closed =>
          rw [closed.eq_nil inside]
          exact List.nil_prefix
      | whole =>
          rewrite [List.append_nil]
          exact List.prefix_rfl
      | before bare back =>
          rw [splitLines_append_cons inside, dropReturn, if_neg (by simpa using bare)]
          exact splitLines_prefix_cons inside _
      | beforeReturn back =>
          have inside' : newline ∉ line ++ [carriage] := by
            simp [inside, different]
          rw [List.append_cons line carriage, splitLines_append_cons inside',
            dropReturn_append_singleton]
          exact splitLines_prefix_cons inside _
  | ended line rest inside induction =>
      rw [List.append_assoc, List.cons_append, splitLines_append_cons inside,
        splitLines_append_cons inside, List.prefix_cons_inj]
      exact induction ends.of_append_cons

theorem exists_closed_above {text : List α} {count : Nat}
    (within : count < (splitLines newline carriage text).length) :
    ∃ front back, text = front ++ back ∧ Closed newline front ∧
      (splitLines newline carriage front).length = count := by
  induction text using line_induction newline generalizing count with
  | last line inside =>
      have single : (splitLines newline carriage line).length ≤ 1 :=
        (splitLines_prefix_cons inside []).length_le
      have top : 0 = count := by omega
      exact ⟨[], line, rfl, .inl rfl, top⟩
  | ended line rest inside induction =>
      rw [splitLines_append_cons inside, List.length_cons] at within
      cases count with
      | zero => exact ⟨[], _, rfl, .inl rfl, rfl⟩
      | succ count =>
          obtain ⟨front, back, rfl, closed, above⟩ :=
            induction (Nat.lt_of_succ_lt_succ within)
          refine ⟨line ++ newline :: front, back, ?_, closed.append_cons line, ?_⟩
          · rw [List.append_assoc, List.cons_append]
          · rw [splitLines_append_cons inside, List.length_cons, above]

end Lines

namespace Text

theorem lines_flatMap_newline {rows : List Text}
    (clean : ∀ row ∈ rows, '\n' ∉ row ∧ '\r' ∉ row) :
    lines (rows.flatMap fun row => row ++ ['\n']) = rows := by
  have kept : ∀ row ∈ rows, dropReturn '\r' row = id row :=
    fun row member => dropReturn_of_not_mem (clean row member).2
  rw [lines, splitLines_flatMap_newline fun row member => (clean row member).1,
    List.map_congr_left kept, List.map_id]

theorem words_of_forall_not {isSeparator : Char → Bool} {word : Text}
    (nonempty : word ≠ []) (inside : ∀ c ∈ word, isSeparator c = false) :
    words isSeparator word = [word] := by
  rw [words, List.splitOnP_eq_singleton inside]
  simp [nonempty]

theorem words_append_cons {isSeparator : Char → Bool} {c : Char}
    (separates : isSeparator c = true) (front back : Text) :
    words isSeparator (front ++ c :: back) =
      words isSeparator front ++ words isSeparator back := by
  rw [words, List.splitOnP_append_cons front back separates, List.filter_append,
    words, words]

end Text

end WordMachine
