import WordMachine.Proofs.Text.Lines

namespace WordMachine.Text

/-! The words of a text at their places. A word is a run without separators that is
as long as it can be, and splitting a text finds each of them in its turn. -/

structure WordAt (isSeparator : Char → Bool) (text front word back : Text) :
    Prop where
  parts : text = front ++ word ++ back
  present : word ≠ []
  solid : ∀ c ∈ word, isSeparator c = false
  opens : ∀ c ∈ front.getLast?, isSeparator c = true
  closes : ∀ c ∈ back.head?, isSeparator c = true

/-- All words of a text in their order, each behind the part of the text that stands
before it. -/
structure Places (isSeparator : Char → Bool) (text : Text)
    (placed : List (Text × Text)) : Prop where
  ordered : placed.Pairwise fun first second =>
    first.1.length < second.1.length
  exact : ∀ front word, (front, word) ∈ placed ↔
    ∃ back, WordAt isSeparator text front word back

variable {isSeparator : Char → Bool} {text front word back : Text} {c : Char}

theorem WordAt.length_le (found : WordAt isSeparator text front word back) :
    front.length ≤ text.length := by
  rw [found.parts, List.length_append, List.length_append, Nat.add_assoc]
  exact Nat.le_add_right _ _

theorem WordAt.not_mem (found : WordAt isSeparator text front word back)
    (separates : isSeparator c = true) : c ∉ word := by
  intro inside
  rw [found.solid c inside] at separates
  cases separates

/-- A word beside a separator stands before it or behind it. -/
theorem wordAt_append_cons_iff {left right : Text}
    (separates : isSeparator c = true) :
    WordAt isSeparator (left ++ c :: right) front word back ↔
      (∃ between, back = between ++ c :: right ∧
        WordAt isSeparator left front word between) ∨
      ∃ between, front = left ++ c :: between ∧
        WordAt isSeparator right between word back := by
  constructor
  · intro found
    obtain ⟨parts, present, solid, opens, closes⟩ := found
    have outside : c ∉ word := WordAt.not_mem
      ⟨parts, present, solid, opens, closes⟩ separates
    rw [List.append_assoc] at parts
    rcases List.append_eq_append_iff.mp parts with
      ⟨between, rfl, tail⟩ | ⟨between, rfl, tail⟩
    · cases between with
      | nil =>
          obtain ⟨first, rest, rfl⟩ := List.exists_cons_of_ne_nil present
          cases tail
          exact absurd List.mem_cons_self outside
      | cons first between =>
          cases tail
          refine .inr ⟨between, rfl, (List.append_assoc _ _ _).symm, present,
            solid, ?_, closes⟩
          intro last ends
          apply opens
          rw [List.getLast?_append, List.getLast?_cons, ends]
          rfl
    · rcases List.append_eq_append_iff.mp tail with
        ⟨after, rfl, rfl⟩ | ⟨after, rfl, rest⟩
      · refine .inl ⟨after, rfl, (List.append_assoc _ _ _).symm, present, solid,
          opens, ?_⟩
        intro first starts
        apply closes
        rw [List.head?_append, starts]
        rfl
      · cases after with
        | nil =>
            cases rest
            refine .inl ⟨[], rfl, ?_, present, solid, opens, nofun⟩
            simp
        | cons first after =>
            cases rest
            exact absurd (List.mem_append_right _ List.mem_cons_self) outside
  · rintro (⟨between, rfl, found⟩ | ⟨between, rfl, found⟩)
    · obtain ⟨rfl, present, solid, opens, closes⟩ := found
      refine ⟨by simp, present, solid, opens, ?_⟩
      cases between with
      | nil =>
          rintro _ ⟨⟩
          exact separates
      | cons first between => exact closes
    · obtain ⟨rfl, present, solid, opens, closes⟩ := found
      refine ⟨by simp, present, solid, ?_, closes⟩
      intro last ends
      rw [List.getLast?_append, List.getLast?_cons] at ends
      cases before : between.getLast? with
      | none =>
          rw [before] at ends
          cases ends
          exact separates
      | some other =>
          rw [before] at ends
          cases ends
          exact opens other before

theorem wordAt_iff_of_solid (solid : ∀ c ∈ text, isSeparator c = false) :
    WordAt isSeparator text front word back ↔
      text ≠ [] ∧ front = [] ∧ word = text ∧ back = [] := by
  constructor
  · rintro ⟨rfl, present, _, opens, closes⟩
    have noFront : front = [] := by
      rcases List.eq_nil_or_concat front with empty | ⟨before, last, rfl⟩
      · exact empty
      · have separates := opens last (by simp)
        rw [solid last (by simp)] at separates
        cases separates
    have noBack : back = [] := by
      cases back with
      | nil => rfl
      | cons first behind =>
          have separates := closes first rfl
          rw [solid first (by simp)] at separates
          cases separates
    subst noFront noBack
    simpa using present
  · rintro ⟨present, rfl, rfl, rfl⟩
    exact ⟨by simp, present, solid, nofun, nofun⟩

private theorem places_of_solid (present : text ≠ [])
    (solid : ∀ c ∈ text, isSeparator c = false) :
    Places isSeparator text [([], text)] where
  ordered := List.pairwise_singleton _ _
  exact front word := by
    simp [wordAt_iff_of_solid solid, present]

theorem places_nil : Places isSeparator [] [] where
  ordered := .nil
  exact front word := by
    simp [wordAt_iff_of_solid (List.forall_mem_nil _)]

theorem Places.append {placed placed' : List (Text × Text)}
    (places : Places isSeparator front placed)
    (separates : isSeparator c = true)
    (places' : Places isSeparator back placed') :
    Places isSeparator (front ++ c :: back)
      (placed ++ placed'.map fun (before, word) =>
        (front ++ c :: before, word)) where
  ordered := by
    rw [List.pairwise_append, List.pairwise_map]
    refine ⟨places.ordered, places'.ordered.imp ?_, ?_⟩
    · intro first second before
      simp only [List.length_append, List.length_cons]
      omega
    · intro entry member other moved
      obtain ⟨behind, found⟩ := (places.exact entry.1 entry.2).mp member
      obtain ⟨⟨before, word⟩, _, rfl⟩ := List.mem_map.mp moved
      have within := found.length_le
      simp only [List.length_append, List.length_cons]
      omega
  exact before word := by
    simp only [wordAt_append_cons_iff separates, List.mem_append, List.mem_map,
      Prod.exists, Prod.mk.injEq, places.exact, places'.exact, exists_or]
    refine or_congr ?_ ?_
    · constructor
      · rintro ⟨between, found⟩
        exact ⟨_, between, rfl, found⟩
      · rintro ⟨_, between, _, found⟩
        exact ⟨between, found⟩
    · constructor
      · rintro ⟨between, _, ⟨behind, found⟩, rfl, rfl⟩
        exact ⟨behind, between, rfl, found⟩
      · rintro ⟨behind, between, rfl, found⟩
        exact ⟨between, word, ⟨behind, found⟩, rfl, rfl⟩

theorem Places.length_lt_of_lt {placed : List (Text × Text)}
    {first second : Text × Text} {index index' : Nat}
    (places : Places isSeparator text placed)
    (found : placed[index]? = some first) (found' : placed[index']? = some second)
    (before : index < index') : first.1.length < second.1.length := by
  obtain ⟨inside, rfl⟩ := List.getElem?_eq_some_iff.mp found
  obtain ⟨inside', rfl⟩ := List.getElem?_eq_some_iff.mp found'
  exact List.pairwise_iff_getElem.mp places.ordered index index' inside inside' before

theorem Places.lt_of_length_lt {placed : List (Text × Text)}
    {first second : Text × Text} {index index' : Nat}
    (places : Places isSeparator text placed)
    (found : placed[index]? = some first) (found' : placed[index']? = some second)
    (shorter : first.1.length < second.1.length) : index < index' := by
  rcases Nat.lt_trichotomy index index' with before | rfl | behind
  · exact before
  · cases found.symm.trans found'
    exact absurd shorter (Nat.lt_irrefl _)
  · have longer := places.length_lt_of_lt found' found behind
    exact absurd shorter (Nat.lt_asymm longer)

/-- The words that a text is split into are all its words. -/
theorem exists_places (isSeparator : Char → Bool) (text : Text) :
    ∃ placed, Places isSeparator text placed ∧
      placed.map Prod.snd = words isSeparator text := by
  induction size : text.length using Nat.strongRecOn generalizing text with
  | ind length induction =>
      by_cases separated : ∃ c ∈ text, isSeparator c = true
      · obtain ⟨c, member, separates⟩ := separated
        obtain ⟨front, back, rfl⟩ := List.append_of_mem member
        rw [List.length_append, List.length_cons] at size
        obtain ⟨placed, places, listed⟩ :=
          induction front.length (by omega) front rfl
        obtain ⟨placed', places', listed'⟩ :=
          induction back.length (by omega) back rfl
        refine ⟨_, places.append separates places', ?_⟩
        rw [List.map_append, List.map_map, words_append_cons separates, ← listed,
          ← listed']
        rfl
      · have solid : ∀ c ∈ text, isSeparator c = false := fun c member =>
          Bool.eq_false_iff.mpr fun separates => separated ⟨c, member, separates⟩
        by_cases present : text = []
        · subst present
          exact ⟨[], places_nil, (words_nil isSeparator).symm⟩
        · exact ⟨_, places_of_solid present solid,
            (words_of_forall_not present solid).symm⟩

end WordMachine.Text
