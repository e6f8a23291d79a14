import Mathlib.Data.PEquiv
import WordMachine.Proofs.Assembly.Grammar
import WordMachine.Proofs.Program.HexText

namespace WordMachine.Program

open Assembly (Region Statement statements statementsFrom tokenLines tokenLinesOf
  tokens)

/-! The source map of an assembled program, as it is put together line by line in a
map that is read from both sides, and what the lookups in it give. -/

/-- Maps between numbers that can be read from both sides. -/
structure PairMaps (Map : Type) where
  empty : Map
  insert : Map → Nat → Nat → Map
  getByLeft : Map → Nat → Option Nat
  getByRight : Map → Nat → Option Nat

variable {Map : Type} {library : PairMaps Map}

namespace PairMaps

/-- What the documentation says of such maps. An insertion drops every pair that
has a side in common with the new one. -/
structure Documented (library : PairMaps Map) : Prop where
  empty (left : Nat) : library.getByLeft library.empty left = none
  insert (map : Map) (left right left' right' : Nat) :
    library.getByLeft (library.insert map left right) left' = some right' ↔
      left' = left ∧ right' = right ∨
        left' ≠ left ∧ right' ≠ right ∧ library.getByLeft map left' = some right'
  paired (map : Map) (left right : Nat) :
    library.getByRight map right = some left ↔ library.getByLeft map left = some right

theorem Documented.insert_of_unused (documented : library.Documented) {map : Map}
    {left right : Nat} (unused : library.getByLeft map left = none)
    (unused' : library.getByRight map right = none) (left' : Nat) :
    library.getByLeft (library.insert map left right) left' =
      if left' = left then some right else library.getByLeft map left' := by
  have apart {left' right' : Nat} (found : library.getByLeft map left' = some right') :
      left' ≠ left ∧ right' ≠ right := by
    constructor
    · rintro rfl
      cases unused.symm.trans found
    · rintro rfl
      cases unused'.symm.trans ((documented.paired map left' _).mpr found)
  apply Option.ext
  intro right'
  rw [documented.insert]
  split
  · next same => simp [same, eq_comm]
  · next other =>
      constructor
      · rintro (⟨same, _⟩ | ⟨_, _, found⟩)
        · exact absurd same other
        · exact found
      · intro found
        exact .inr ⟨other, (apart found).2, found⟩

end PairMaps

structure Assembling (Map : Type) where
  words : List Word
  sourceMap : Map
  region : Region

namespace PairMaps

variable (library : PairMaps Map)

def start : Assembling Map :=
  ⟨[], library.empty, .instructions⟩

def advance (state : Assembling Map) (entry : Text × Nat) :
    Except SourceError (Assembling Map) :=
  match tokens entry.1 with
  | [] => .ok state
  | found =>
      (Statement.locatedWord ⟨entry.2, state.region, found⟩).map fun word =>
        ⟨state.words ++ [word],
          library.insert state.sourceMap state.words.length entry.2,
          state.region.after found⟩

def assembleLines (lines : List (Text × Nat)) : Except SourceError (Assembling Map) :=
  lines.foldlM library.advance library.start

end PairMaps

section Loop

variable {state state' final : Assembling Map} {line : Text} {number : Nat}
  {lines front back : List (Text × Nat)}

theorem advance_of_blank (blank : tokens line = []) :
    library.advance state (line, number) = .ok state := by
  rw [PairMaps.advance, blank]

theorem advance_of_present (present : tokens line ≠ []) :
    library.advance state (line, number) =
      (Statement.locatedWord ⟨number, state.region, tokens line⟩).map fun word =>
        ⟨state.words ++ [word],
          library.insert state.sourceMap state.words.length number,
          state.region.after (tokens line)⟩ := by
  rw [PairMaps.advance]
  split
  · next blank => exact absurd blank present
  · rfl

private theorem advance_eq_ok_of_present (present : tokens line ≠ [])
    (advanced : library.advance state (line, number) = .ok state') :
    ∃ word, state' = ⟨state.words ++ [word],
      library.insert state.sourceMap state.words.length number,
      state.region.after (tokens line)⟩ := by
  rw [advance_of_present present] at advanced
  cases found : Statement.locatedWord ⟨number, state.region, tokens line⟩ with
  | error error =>
      rw [found] at advanced
      cases advanced
  | ok word =>
      rw [found] at advanced
      cases advanced
      exact ⟨word, rfl⟩

/-- The loop stops at the same line as the traversal of the statements, or finds the
same words. -/
theorem words_of_foldlM (lines : List (Text × Nat)) (state : Assembling Map) :
    (lines.foldlM library.advance state).map Assembling.words =
      ((statementsFrom state.region lines).mapM Statement.locatedWord).map
        (state.words ++ ·) := by
  induction lines generalizing state with
  | nil => simp [pure, Except.pure, Except.map]
  | cons entry rest induction =>
      obtain ⟨line, number⟩ := entry
      rw [List.foldlM_cons]
      by_cases blank : tokens line = []
      · rw [advance_of_blank blank, Assembly.statementsFrom_blank _ _ _ blank,
          ← induction state]
        rfl
      · rw [advance_of_present blank, Assembly.statementsFrom_cons _ _ _ blank,
          List.mapM_cons]
        cases Statement.locatedWord ⟨number, state.region, tokens line⟩ with
        | error error => rfl
        | ok word =>
            refine (induction _).trans ?_
            cases (statementsFrom (state.region.after (tokens line)) rest).mapM
                Statement.locatedWord with
            | error error => rfl
            | ok words => exact congrArg Except.ok (List.append_assoc _ _ _)

private theorem words_of_assembleLines (library : PairMaps Map) (text : Text) :
    (library.assembleLines (Text.numberedLines text)).map Assembling.words =
      (assemble text).map Program.words := by
  rw [PairMaps.assembleLines, words_of_foldlM, PairMaps.start, assemble, ← statements]
  cases (statements text).mapM Statement.locatedWord with
  | error error => rfl
  | ok words => rfl

private theorem exists_states_of_foldlM
    (assembled : (front ++ (line, number) :: back).foldlM library.advance state =
      .ok final) :
    ∃ before after, front.foldlM library.advance state = .ok before ∧
      library.advance before (line, number) = .ok after ∧
      back.foldlM library.advance after = .ok final := by
  rw [List.foldlM_append, bind_eq_ok_iff] at assembled
  obtain ⟨before, reached, rest⟩ := assembled
  rw [List.foldlM_cons, bind_eq_ok_iff] at rest
  obtain ⟨after, advanced, rest⟩ := rest
  exact ⟨before, after, reached, advanced, rest⟩

end Loop

private def numbersOf (lines : List (Text × Nat)) : List Nat :=
  (tokenLinesOf lines).map Prod.snd

section Numbers

variable {line : Text} {number : Nat} {lines : List (Text × Nat)}

private theorem numbersOf_concat (lines : List (Text × Nat)) (line : Text)
    (number : Nat) :
    numbersOf (lines ++ [(line, number)]) =
      if tokens line = [] then numbersOf lines else numbersOf lines ++ [number] := by
  have parts : tokenLinesOf (lines ++ [(line, number)]) =
      tokenLinesOf lines ++ tokenLinesOf [(line, number)] := by
    rw [tokenLinesOf, List.map_append, List.filter_append]
    rfl
  rw [numbersOf, parts, List.map_append, Assembly.tokenLinesOf_cons]
  split
  · exact List.append_nil _
  · rfl

private theorem getElem?_concat {α : Type} (items : List α) (item : α) (index : Nat) :
    (items ++ [item])[index]? =
      if index = items.length then some item else items[index]? := by
  split
  · next last =>
      subst last
      exact List.getElem?_concat_length
  · next other =>
      rcases Nat.lt_or_gt_of_ne other with before | behind
      · exact List.getElem?_append_left before
      · rw [List.getElem?_eq_none (Nat.le_of_lt behind), List.getElem?_eq_none]
        rw [List.length_append]
        exact behind

private theorem mem_numbersOf_iff :
    number ∈ numbersOf lines ↔ ∃ line, (line, number) ∈ lines ∧ tokens line ≠ [] := by
  simp [numbersOf, tokenLinesOf]

end Numbers

private structure Maps (library : PairMaps Map) (lines : List (Text × Nat))
    (state : Assembling Map) : Prop where
  counted : state.words.length = (numbersOf lines).length
  mapped (address : Nat) :
    library.getByLeft state.sourceMap address = (numbersOf lines)[address]?

section Invariant

variable {state state' final : Assembling Map} {line : Text} {number : Nat}
  {lines front back : List (Text × Nat)}

private theorem maps_start (documented : library.Documented) :
    Maps library [] library.start where
  counted := rfl
  mapped address := documented.empty address

private theorem Maps.unused (maps : Maps library lines state) :
    library.getByLeft state.sourceMap state.words.length = none := by
  rw [maps.mapped, maps.counted]
  exact List.getElem?_eq_none (Nat.le_refl _)

private theorem Maps.unused_line (documented : library.Documented)
    (maps : Maps library lines state) (fresh : ∀ entry ∈ lines, entry.2 < number) :
    library.getByRight state.sourceMap number = none := by
  rw [Option.eq_none_iff_forall_ne_some]
  intro address found
  rw [documented.paired, maps.mapped] at found
  obtain ⟨line, member, _⟩ := mem_numbersOf_iff.mp (List.mem_of_getElem? found)
  exact absurd (fresh _ member) (Nat.lt_irrefl _)

private theorem Maps.advance (documented : library.Documented)
    (maps : Maps library lines state)
    (fresh : ∀ entry ∈ lines, entry.2 < number)
    (advanced : library.advance state (line, number) = .ok state') :
    Maps library (lines ++ [(line, number)]) state' := by
  by_cases blank : tokens line = []
  · rw [advance_of_blank blank] at advanced
    cases advanced
    constructor
    case counted => rw [numbersOf_concat, if_pos blank, maps.counted]
    case mapped =>
      rw [numbersOf_concat, if_pos blank]
      exact maps.mapped
  · have insertion := documented.insert_of_unused maps.unused
      (maps.unused_line documented fresh)
    obtain ⟨word, rfl⟩ := advance_eq_ok_of_present blank advanced
    constructor
    case counted =>
      rw [numbersOf_concat, if_neg blank, List.length_append, List.length_append,
        maps.counted]
      rfl
    case mapped =>
      intro address
      rw [insertion, numbersOf_concat, if_neg blank, getElem?_concat, maps.counted,
        maps.mapped]

/-- Numbers that increase along the lines are new at each of them. -/
private theorem Maps.foldlM (documented : library.Documented)
    (maps : Maps library front state)
    (increasing : (front ++ back).Pairwise (·.2 < ·.2))
    (assembled : back.foldlM library.advance state = .ok final) :
    Maps library (front ++ back) final := by
  induction back generalizing front state with
  | nil =>
      cases assembled
      rwa [List.append_nil]
  | cons entry rest induction =>
      obtain ⟨line, number⟩ := entry
      rw [List.foldlM_cons, bind_eq_ok_iff] at assembled
      obtain ⟨middle, advanced, rest'⟩ := assembled
      have fresh : ∀ earlier ∈ front, earlier.2 < number := fun earlier member =>
        (List.pairwise_append.mp increasing).2.2 earlier member _ List.mem_cons_self
      rw [List.append_cons] at increasing ⊢
      exact induction (maps.advance documented fresh advanced) increasing rest'

end Invariant

/-- Two lookups between the addresses of words and the lines of a text. An address
stands for the line with tokens that has as many others before it. -/
structure Numbers (text : Text) (count : Nat) (lineOf addressOf : Nat → Option Nat) :
    Prop where
  mapped (address : Nat) : (∃ line, lineOf address = some line) ↔ address < count
  counted (address : Nat) :
    lineOf address = (tokenLines text)[address]?.map Prod.snd
  increasing {first second line line' : Nat} (before : first < second)
    (found : lineOf first = some line) (found' : lineOf second = some line') :
    line < line'
  present (line : Nat) :
    (∃ address, addressOf line = some address) ↔
      ∃ content, (content, line) ∈ Text.numberedLines text ∧ tokens content ≠ []
  forth {address line : Nat} (found : lineOf address = some line) :
    addressOf line = some address
  back {address line : Nat} (found : addressOf line = some address) :
    lineOf address = some line

structure Keeps (library : PairMaps Map) (before : Assembling Map) (line : Text)
    (number : Nat) (after : Assembling Map) : Prop where
  kept {address earlier : Nat}
    (found : library.getByLeft before.sourceMap address = some earlier) :
    library.getByLeft after.sourceMap address = some earlier
  unused : library.getByLeft before.sourceMap before.words.length = none
  unused_line : library.getByRight before.sourceMap number = none

section Lookups

variable {text : Text} {program : Program}

private theorem numbers_of_paired {lineOf addressOf : Nat → Option Nat}
    (counted : ∀ address,
      lineOf address = (numbersOf (Text.numberedLines text))[address]?)
    (paired : ∀ address line,
      addressOf line = some address ↔ lineOf address = some line) :
    Numbers text (tokenLines text).length lineOf addressOf where
  mapped address := by
    have length : (numbersOf (Text.numberedLines text)).length =
        (tokenLines text).length := List.length_map ..
    rw [counted, ← length]
    constructor
    · rintro ⟨line, found⟩
      exact (List.getElem?_eq_some_iff.mp found).1
    · intro inside
      exact ⟨_, List.getElem?_eq_getElem inside⟩
  counted address := by
    rw [counted, numbersOf, List.getElem?_map]
    rfl
  increasing before found found' := by
    rw [counted] at found found'
    obtain ⟨inside, rfl⟩ := List.getElem?_eq_some_iff.mp found
    obtain ⟨inside', rfl⟩ := List.getElem?_eq_some_iff.mp found'
    exact List.pairwise_iff_getElem.mp (Assembly.increasing_tokenLines text) _ _
      inside inside' before
  present line := by
    simp only [paired, counted]
    rw [← mem_numbersOf_iff, List.mem_iff_getElem?]
  forth found := (paired _ _).mpr found
  back found := (paired _ _).mp found

private theorem numbers_of_assemble (assembled : assemble text = .ok program) :
    Numbers text program.words.length program.lineOfAddress program.addressOfLine := by
  have recorded := Assembly.lines_of_assemble assembled
  rw [Assembly.length_words_of_assemble assembled]
  apply numbers_of_paired
  · intro address
    rw [lineOfAddress, recorded]
    rfl
  · intro address line
    apply addressOfLine_eq_some_iff
    intro lines same
    cases recorded.symm.trans same
    exact (Assembly.increasing_tokenLines text).imp Nat.ne_of_lt

private theorem Maps.keeps (documented : library.Documented)
    {before after : Assembling Map}
    {front : List (Text × Nat)} {line : Text} {number : Nat}
    (maps : Maps library front before) (fresh : ∀ entry ∈ front, entry.2 < number)
    (advanced : library.advance before (line, number) = .ok after) :
    Keeps library before line number after where
  kept found := by
    rw [maps.mapped] at found
    rw [(maps.advance documented fresh advanced).mapped, numbersOf_concat]
    split
    · exact found
    · obtain ⟨inside, _⟩ := List.getElem?_eq_some_iff.mp found
      rw [List.getElem?_append_left inside]
      exact found
  unused := maps.unused
  unused_line := maps.unused_line documented fresh

private theorem exists_final_of_assemble (library : PairMaps Map)
    (assembled : assemble text = .ok program) :
    ∃ final, library.assembleLines (Text.numberedLines text) = .ok final ∧
      final.words = program.words := by
  have words := words_of_assembleLines library text
  rw [assembled] at words
  cases ended : library.assembleLines (Text.numberedLines text) with
  | error error =>
      rw [ended] at words
      cases words
  | ok final =>
      rw [ended] at words
      exact ⟨final, rfl, Except.ok.inj words⟩

end Lookups

/-- The source map of a program numbers its words by their lines, increasingly and in
both directions, and the loop that fills it displaces no pair. -/
theorem source_map_is_an_increasing_bijection (documented : library.Documented)
    {text : Text} {program : Program} (assembled : assemble text = .ok program) :
    Numbers text program.words.length program.lineOfAddress program.addressOfLine ∧
      ∃ final, library.assembleLines (Text.numberedLines text) = .ok final ∧
        final.words = program.words ∧
        (∀ address, library.getByLeft final.sourceMap address =
          program.lineOfAddress address) ∧
        (∀ line, library.getByRight final.sourceMap line =
          program.addressOfLine line) ∧
        ∀ front line number back,
          Text.numberedLines text = front ++ (line, number) :: back →
            ∃ before after, library.assembleLines front = .ok before ∧
              library.advance before (line, number) = .ok after ∧
              back.foldlM library.advance after = .ok final ∧
              Keeps library before line number after := by
  have numbers := numbers_of_assemble assembled
  obtain ⟨final, ended, words⟩ := exists_final_of_assemble library assembled
  have increasing := Assembly.increasing_numberedLines text
  have maps := (maps_start documented).foldlM documented increasing ended
  have same (address : Nat) : library.getByLeft final.sourceMap address =
      program.lineOfAddress address := by
    rw [maps.mapped, numbers.counted, ← List.getElem?_map]
    rfl
  refine ⟨numbers, final, ended, words, same, fun line => ?_, ?_⟩
  · apply Option.ext
    intro address
    rw [documented.paired, same]
    exact ⟨numbers.forth, numbers.back⟩
  · intro front line number back cut
    rw [PairMaps.assembleLines, cut] at ended
    obtain ⟨before, after, reached, advanced, rest⟩ := exists_states_of_foldlM ended
    rw [cut, List.pairwise_append] at increasing
    have maps := (maps_start documented).foldlM documented
      (by rw [List.nil_append]; exact increasing.1) reached
    exact ⟨before, after, reached, advanced, rest, maps.keeps documented
      (fun entry member => increasing.2.2 entry member _ List.mem_cons_self) advanced⟩

def replaced (lookup : Nat → Option Nat) (key value : Nat) : Nat → Option Nat :=
  fun key' => if key' = key then some value else (lookup key').filter (· != value)

theorem replaced_eq_some_iff {lookup : Nat → Option Nat} {key value key' value' : Nat} :
    replaced lookup key value key' = some value' ↔
      key' = key ∧ value' = value ∨
        key' ≠ key ∧ value' ≠ value ∧ lookup key' = some value' := by
  rw [replaced]
  split
  · next same => simp [same, eq_comm]
  · next other => simp [other, Option.filter_eq_some_iff, and_comm]

namespace PairMaps

def standard : PairMaps (Nat ≃. Nat) where
  empty := ⊥
  insert map left right :=
    { toFun := replaced map left right
      invFun := replaced map.symm right left
      inv := by
        intro left' right'
        rw [replaced_eq_some_iff, replaced_eq_some_iff, map.eq_some_iff]
        exact or_congr and_comm and_left_comm }
  getByLeft map := map
  getByRight map := map.symm

theorem documented_standard : standard.Documented where
  empty _ := rfl
  insert _ _ _ _ _ := replaced_eq_some_iff
  paired map _ _ := map.eq_some_iff

end PairMaps

theorem source_map_is_an_increasing_bijection_below_a_comment :
    PairMaps.standard.Documented ∧
      assemble "halt\n# data\n\n2a".toList = .ok ⟨[0, 42], some [1, 4]⟩ ∧
      ∃ final, PairMaps.standard.assembleLines
          (Text.numberedLines "halt\n# data\n\n2a".toList) = .ok final ∧
        PairMaps.standard.getByLeft final.sourceMap 1 = some 4 ∧
        PairMaps.standard.getByRight final.sourceMap 4 = some 1 ∧
        PairMaps.standard.getByRight final.sourceMap 2 = none := by
  obtain ⟨_, final, ended, _, left, right, _⟩ :=
    source_map_is_an_increasing_bijection PairMaps.documented_standard
      (show assemble "halt\n# data\n\n2a".toList = .ok ⟨[0, 42], some [1, 4]⟩ from rfl)
  exact ⟨PairMaps.documented_standard, rfl, final, ended, left 1, right 4, right 2⟩

end WordMachine.Program
