import WordMachine.Program.HexImage
import WordMachine.Proofs.Assembly.Continuation
import WordMachine.Proofs.Text.Words

namespace WordMachine.Program

/-! A hexadecimal image is the list of the words of its text. Its lines play no part
in that, and only tell where the first word stands that is no constant. -/

open Assembly

variable {text line first second front token : Text} {program : Program}
  {error : SourceError}

/-- The first word of a text that is no constant, with the part of the text before
it. -/
structure FirstUnread (text front token : Text) : Prop where
  found : ∃ back, Text.WordAt isBlank text front token back
  unread : ∀ word, constant token ≠ .ok word
  first : ∀ front' token' back', Text.WordAt isBlank text front' token' back' →
    front'.length < front.length → ∃ word, constant token' = .ok word

private def numberedToken (entry : Text × Text) : Text × Nat :=
  (entry.2, 1 + entry.1.count '\n')

private def tokenBelow (count : Nat) (entry : Text × Nat) : Text × Nat :=
  (entry.1, entry.2 + count)

private theorem tokenBelow_comp (count count' : Nat) :
    tokenBelow count ∘ tokenBelow count' = tokenBelow (count' + count) :=
  funext fun _ => Prod.ext rfl (Nat.add_assoc _ _ _)

section Tokens

private theorem words_dropReturn (line : Text) :
    Text.words isBlank (dropReturn '\r' line) = Text.words isBlank line := by
  by_cases returned : line.getLast? = some '\r'
  · obtain ⟨front, rfl⟩ := List.getLast?_eq_some_iff.mp returned
    rw [dropReturn_append_singleton, Text.words_append_cons rfl, Text.words_nil,
      List.append_nil]
  · rw [dropReturn, if_neg (by simpa using returned)]

theorem imageTokens_of_not_mem (inside : '\n' ∉ line) :
    imageTokens line = (Text.words isBlank line).map fun token => (token, 1) := by
  by_cases present : line = []
  · subst present
    rw [Text.words_nil]
    rfl
  · rw [imageTokens, Text.numberedLines, Text.lines,
      splitLines_of_not_mem present inside]
    exact List.flatMap_singleton _ _

private theorem imageTokens_append_cons (inside : '\n' ∉ line) (rest : Text) :
    imageTokens (line ++ '\n' :: rest) =
      imageTokens line ++ (imageTokens rest).map (tokenBelow 1) := by
  rw [imageTokens_of_not_mem inside, imageTokens, Text.numberedLines, Text.lines,
    splitLines_append_cons inside, List.zipIdx_cons, List.zipIdx_succ,
    List.flatMap_cons, List.flatMap_map, imageTokens, List.map_flatMap]
  simp only [words_dropReturn, List.map_map]
  rfl

/-- Every newline moves what stands behind it one line down, also one that ends no
line with words. -/
private theorem imageTokens_append (first second : Text) :
    imageTokens (first ++ '\n' :: second) = imageTokens first ++
      (imageTokens second).map (tokenBelow (1 + first.count '\n')) := by
  induction first using line_induction '\n' with
  | last line inside =>
      rw [imageTokens_append_cons inside, List.count_eq_zero.mpr inside]
  | ended line rest inside induction =>
      rw [List.append_assoc, List.cons_append, imageTokens_append_cons inside,
        imageTokens_append_cons inside, induction, List.map_append, List.map_map,
        tokenBelow_comp, List.append_assoc, List.count_append,
        List.count_eq_zero.mpr inside, List.count_cons_self, Nat.zero_add]
      rfl

private theorem exists_places_of_line (inside : '\n' ∉ line) :
    ∃ placed, Text.Places isBlank line placed ∧
      placed.map Prod.snd = Text.words isBlank line ∧
      imageTokens line = placed.map numberedToken := by
  obtain ⟨placed, places, listed⟩ := Text.exists_places isBlank line
  refine ⟨placed, places, listed, ?_⟩
  rw [imageTokens_of_not_mem inside, ← listed, List.map_map]
  apply List.map_congr_left
  intro entry member
  obtain ⟨back, found⟩ := (places.exact entry.1 entry.2).mp member
  have outside : '\n' ∉ entry.1 := by
    intro before
    rw [found.parts, List.append_assoc] at inside
    exact inside (List.mem_append_left _ before)
  rw [numberedToken, List.count_eq_zero.mpr outside]
  rfl

/-- The tokens of an image are the words of its text, and each is on the line after
the newlines before it. -/
private theorem exists_places_imageTokens (text : Text) :
    ∃ placed, Text.Places isBlank text placed ∧
      placed.map Prod.snd = Text.words isBlank text ∧
      imageTokens text = placed.map numberedToken := by
  induction text using line_induction '\n' with
  | last line inside => exact exists_places_of_line inside
  | ended line rest inside induction =>
      obtain ⟨placed, places, listed, tokens⟩ := exists_places_of_line inside
      obtain ⟨placed', places', listed', tokens'⟩ := induction
      refine ⟨_, places.append rfl places', ?_, ?_⟩
      · rw [List.map_append, List.map_map, Text.words_append_cons rfl, ← listed,
          ← listed']
        rfl
      · rw [imageTokens_append, tokens, tokens', List.map_append, List.map_map,
          List.map_map]
        congr 2
        funext entry
        simp only [Function.comp_apply, numberedToken, tokenBelow, List.count_append,
          List.count_cons_self]
        congr 1
        omega

end Tokens

section Reading

theorem imageWord_eq_ok_iff {entry : Text × Nat} {word : Word} :
    imageWord entry = .ok word ↔ constant entry.1 = .ok word :=
  mapError_eq_ok_iff

theorem imageWord_eq_error_iff {entry : Text × Nat} :
    imageWord entry = .error error ↔
      (∀ word, constant entry.1 ≠ .ok word) ∧
        error = ⟨entry.2, .invalidConstant entry.1⟩ := by
  rw [imageWord, mapError_eq_error_iff]
  simp only [constant_eq_error_iff, ne_eq, constant_eq_ok_iff,
    ← Option.eq_none_iff_forall_ne_some]
  constructor
  · rintro ⟨cause, ⟨unread, rfl⟩, rfl⟩
    exact ⟨unread, rfl⟩
  · rintro ⟨unread, rfl⟩
    exact ⟨_, ⟨unread, rfl⟩, rfl⟩

theorem ofHexImage_eq_ok_iff_mapM :
    ofHexImage text = .ok program ↔
      program.lines = none ∧ (imageTokens text).mapM imageWord = .ok program.words := by
  obtain ⟨words, lines⟩ := program
  rw [ofHexImage]
  cases (imageTokens text).mapM imageWord with
  | error cause => simp [Except.map]
  | ok found => simp [Except.map, ofWords, and_comm, eq_comm]

theorem ofHexImage_eq_ok_iff :
    ofHexImage text = .ok program ↔
      program.lines = none ∧
        List.Forall₂ (fun token word => constant token = .ok word)
          (Text.words isBlank text) program.words := by
  obtain ⟨placed, _, listed, tokens⟩ := exists_places_imageTokens text
  rw [ofHexImage_eq_ok_iff_mapM, mapM_eq_ok_iff_forall₂, tokens, ← listed,
    List.forall₂_map_left_iff, List.forall₂_map_left_iff]
  simp only [imageWord_eq_ok_iff, numberedToken]

theorem exists_ofHexImage_iff :
    (∃ program, ofHexImage text = .ok program) ↔
      ∀ token ∈ Text.words isBlank text, ∃ word, constant token = .ok word := by
  rw [← exists_mapM_eq_ok_iff]
  simp only [ofHexImage_eq_ok_iff, ← mapM_eq_ok_iff_forall₂]
  constructor
  · rintro ⟨program, _, traversed⟩
    exact ⟨program.words, traversed⟩
  · rintro ⟨words, traversed⟩
    exact ⟨ofWords words, rfl, traversed⟩

theorem ofHexImage_eq_error_iff_mapM :
    ofHexImage text = .error error ↔
      (imageTokens text).mapM imageWord = .error error := by
  rw [ofHexImage]
  cases (imageTokens text).mapM imageWord with
  | error cause => simp [Except.map]
  | ok words => simp [Except.map]

theorem ofHexImage_eq_error_iff :
    ofHexImage text = .error error ↔
      ∃ front token, FirstUnread text front token ∧
        error = ⟨1 + front.count '\n', .invalidConstant token⟩ := by
  obtain ⟨placed, places, _, tokens⟩ := exists_places_imageTokens text
  rw [ofHexImage_eq_error_iff_mapM, tokens, List.mapM_map, mapM_eq_error_iff]
  simp only [Function.comp_apply, imageWord_eq_error_iff, imageWord_eq_ok_iff,
    numberedToken]
  constructor
  · rintro ⟨index, ⟨front, token⟩, at_index, ⟨unread, rfl⟩, before⟩
    refine ⟨front, token, ⟨?_, unread, ?_⟩, rfl⟩
    · exact (places.exact front token).mp (List.mem_of_getElem? at_index)
    · intro front' token' back' found shorter
      have member := (places.exact front' token').mpr ⟨back', found⟩
      obtain ⟨index', at_index'⟩ := List.mem_iff_getElem?.mp member
      have earlier := places.lt_of_length_lt at_index' at_index shorter
      exact before _ (List.mem_of_getElem?
        ((List.getElem?_take_of_lt earlier).trans at_index'))
  · rintro ⟨front, token, ⟨found, unread, first⟩, rfl⟩
    have member := (places.exact front token).mpr found
    obtain ⟨index, at_index⟩ := List.mem_iff_getElem?.mp member
    refine ⟨index, (front, token), at_index, ⟨unread, rfl⟩, ?_⟩
    rintro ⟨front', token'⟩ among
    obtain ⟨index', at_index'⟩ := List.mem_iff_getElem?.mp among
    rw [List.getElem?_take] at at_index'
    split at at_index'
    next earlier =>
        obtain ⟨back', found'⟩ := (places.exact front' token').mp
          (List.mem_of_getElem? at_index')
        exact first front' token' back' found'
          (places.length_lt_of_lt at_index' at_index earlier)
    next => cases at_index'

end Reading

section Joined

private theorem imageWord_tokenBelow (count : Nat) (entry : Text × Nat) :
    imageWord (tokenBelow count entry) =
      (imageWord entry).mapError (SourceError.below count) := by
  rw [imageWord, imageWord, tokenBelow]
  cases constant entry.1 with
  | error cause => rfl
  | ok word => rfl

private theorem ofHexImage_append_of_error (failed : ofHexImage first = .error error)
    (second : Text) : ofHexImage (first ++ '\n' :: second) = .error error := by
  rw [ofHexImage_eq_error_iff_mapM] at failed ⊢
  rw [imageTokens_append]
  exact mapM_append_of_error failed

private theorem ofHexImage_append_of_ok (read : ofHexImage first = .ok program)
    (second : Text) :
    ofHexImage (first ++ '\n' :: second) =
      ((ofHexImage second).mapError
        (SourceError.below (1 + first.count '\n'))).map fun others =>
          ofWords (program.words ++ others.words) := by
  have traversed := (ofHexImage_eq_ok_iff_mapM.mp read).2
  have moved : ((imageTokens second).map
      (tokenBelow (1 + first.count '\n'))).mapM imageWord =
      ((imageTokens second).mapM imageWord).mapError
        (SourceError.below (1 + first.count '\n')) :=
    mapM_map_mapError (imageWord_tokenBelow _) (imageTokens second)
  rw [ofHexImage, imageTokens_append, mapM_append_of_ok traversed, moved, ofHexImage]
  cases (imageTokens second).mapM imageWord with
  | error cause => rfl
  | ok words => rfl

theorem exists_ofHexImage_append_iff :
    (∃ program, ofHexImage (first ++ '\n' :: second) = .ok program) ↔
      (∃ program, ofHexImage first = .ok program) ∧
        ∃ program, ofHexImage second = .ok program := by
  rw [exists_ofHexImage_iff, exists_ofHexImage_iff, exists_ofHexImage_iff,
    Text.words_append_cons rfl, List.forall_mem_append]

end Joined

/-- An image is the list of the words of its text, whatever its lines are. It is read
exactly if each word is a constant, and otherwise fails at the first that is none,
on its line. Two images with a newline between them are one image. -/
theorem image_is_flat_word_list (text : Text) :
    (∃ placed, Text.Places isBlank text placed ∧
      placed.map Prod.snd = Text.words isBlank text) ∧
    ((∃ program, ofHexImage text = .ok program) ↔
      ∀ token ∈ Text.words isBlank text, ∃ word, constant token = .ok word) ∧
    (∀ program, ofHexImage text = .ok program ↔
      program.lines = none ∧
        List.Forall₂ (fun token word => constant token = .ok word)
          (Text.words isBlank text) program.words) ∧
    (∀ error, ofHexImage text = .error error ↔
      ∃ front token, FirstUnread text front token ∧
        error = ⟨1 + front.count '\n', .invalidConstant token⟩) ∧
    ∀ more,
      ((∃ program, ofHexImage (text ++ '\n' :: more) = .ok program) ↔
        (∃ program, ofHexImage text = .ok program) ∧
          ∃ program, ofHexImage more = .ok program) ∧
      (∀ error, ofHexImage text = .error error →
        ofHexImage (text ++ '\n' :: more) = .error error) ∧
      ∀ program, ofHexImage text = .ok program →
        (∀ others, ofHexImage more = .ok others →
          ofHexImage (text ++ '\n' :: more) =
            .ok (ofWords (program.words ++ others.words))) ∧
        ∀ error, ofHexImage more = .error error →
          ofHexImage (text ++ '\n' :: more) =
            .error ⟨error.line + (1 + text.count '\n'), error.cause⟩ := by
  refine ⟨?_, exists_ofHexImage_iff, fun _ => ofHexImage_eq_ok_iff,
    fun _ => ofHexImage_eq_error_iff, fun more => ?_⟩
  · exact Text.exists_places isBlank text
  · refine ⟨exists_ofHexImage_append_iff, fun error failed =>
      ofHexImage_append_of_error failed more, ?_⟩
    intro program read
    rw [ofHexImage_append_of_ok read]
    constructor
    · intro others read'
      rw [read']
      rfl
    · intro error failed
      rw [failed]
      rfl

end WordMachine.Program
