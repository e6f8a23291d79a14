import Mathlib.Data.List.TakeWhile
import WordMachine.Assembly.Token

namespace WordMachine.Assembly

/-! Parser combinators, known by their documentation, and an instance of them. -/

/-- A parser takes a part from the front of a text, or refuses the text. It gives
the rest of the text and what it has read. -/
abbrev Parser (α : Type) :=
  Text → Option (Text × α)

namespace Parser

variable {α β : Type}

def run (inside : Char → Bool) : Parser Text := fun text =>
  if text.takeWhile inside = [] then none
  else some (text.dropWhile inside, text.takeWhile inside)

/-- What a list goes on with behind an item. A separator without an item behind it
is given back. -/
inductive Continued (separator : Parser α) (item : Parser β) :
    Text → Text → List β → Prop
  | unseparated {text : Text} (ends : separator text = none) :
      Continued separator item text text []
  | givenBack {text middle : Text} {between : α}
      (separated : separator text = some (middle, between))
      (shorter : middle.length < text.length) (ends : item middle = none) :
      Continued separator item text text []
  | item {text middle after last : Text} {between : α} {found : β}
      {others : List β} (separated : separator text = some (middle, between))
      (shorter : middle.length < text.length)
      (taken : item middle = some (after, found))
      (shorter' : after.length < middle.length)
      (continued : Continued separator item after last others) :
      Continued separator item text last (found :: others)

/-- A list of items with separators between them. -/
inductive Separated (separator : Parser α) (item : Parser β) :
    Text → Text → List β → Prop
  | empty {text : Text} (ends : item text = none) :
      Separated separator item text text []
  | cons {text after last : Text} {found : β} {others : List β}
      (taken : item text = some (after, found))
      (shorter : after.length < text.length)
      (continued : Continued separator item after last others) :
      Separated separator item text last (found :: others)

theorem run_cases (inside : Char → Bool) (text : Text) :
    run inside text = none ∧ (∀ c ∈ text.head?, inside c = false) ∨
      run inside text = some (text.dropWhile inside, text.takeWhile inside) ∧
        (text.dropWhile inside).length < text.length ∧
          ∃ c ∈ text.head?, inside c = true := by
  cases text with
  | nil => exact .inl ⟨rfl, nofun⟩
  | cons c rest =>
      cases kind : inside c with
      | false =>
          refine .inl ⟨if_pos (List.takeWhile_cons_of_neg (by simp [kind])), ?_⟩
          rintro _ ⟨⟩
          exact kind
      | true =>
          refine .inr ⟨if_neg ?_, ?_, c, rfl, kind⟩
          · rw [List.takeWhile_cons_of_pos kind]
            exact List.cons_ne_nil c _
          · rw [List.dropWhile_cons_of_pos kind, List.length_cons]
            exact Nat.lt_succ_of_le (List.dropWhile_suffix inside).length_le

def itemsBehind (separator : Parser α) (item : Parser β) (text : Text) :
    Option (Text × List β) :=
  match separator text with
  | none => some (text, [])
  | some (middle, _) =>
      if middle.length < text.length then
        match item middle with
        | none => some (text, [])
        | some (after, found) =>
            if after.length < text.length then
              (itemsBehind separator item after).map fun (last, others) =>
                (last, found :: others)
            else none
      else none
termination_by text.length

def separatedList (separator : Parser α) (item : Parser β) : Parser (List β) :=
  fun text =>
    match item text with
    | none => some (text, [])
    | some (after, found) =>
        if after.length < text.length then
          (itemsBehind separator item after).map fun (last, others) =>
            (last, found :: others)
        else none

variable {separator : Parser α} {item : Parser β} {text last : Text} {found : List β}

theorem Continued.itemsBehind_eq
    (continued : Continued separator item text last found) :
    itemsBehind separator item text = some (last, found) := by
  induction continued with
  | unseparated ends => rw [itemsBehind, ends]
  | givenBack separated shorter ends =>
      rw [itemsBehind, separated]
      simp only
      rw [if_pos shorter, ends]
  | item separated shorter taken shorter' _ induction =>
      rw [itemsBehind, separated]
      simp only
      rw [if_pos shorter, taken]
      simp only
      rw [if_pos (shorter'.trans shorter), induction]
      rfl

theorem Separated.separatedList_eq
    (separated : Separated separator item text last found) :
    separatedList separator item text = some (last, found) := by
  cases separated with
  | empty ends => rw [separatedList, ends]
  | cons taken shorter continued =>
      rw [separatedList, taken]
      simp only
      rw [if_pos shorter, continued.itemsBehind_eq]
      rfl

end Parser

/-- The parsers and combinators that the grammar of a line is written with. -/
structure Combinators where
  isNot : List Char → Parser Text
  oneChar : Char → Parser Char
  space0 : Parser Text
  space1 : Parser Text
  rest : Parser Text
  opt {α : Type} : Parser α → Parser (Option α)
  preceded {α β : Type} : Parser α → Parser β → Parser β
  terminated {α β : Type} : Parser α → Parser β → Parser α
  delimited {α β γ : Type} : Parser α → Parser β → Parser γ → Parser β
  separatedList {α β : Type} : Parser α → Parser β → Parser (List β)
  allConsuming {α : Type} : Parser α → Parser α

namespace Combinators

/-- What the documentation says of the combinators. -/
structure Documented (library : Combinators) : Prop where
  isNot (stops : List Char) :
    library.isNot stops = .run fun c => !stops.contains c
  oneChar (c : Char) (text : Text) :
    library.oneChar c text =
      match text with
      | [] => none
      | first :: rest => if first = c then some (rest, first) else none
  space0 (text : Text) :
    library.space0 text =
      some (text.dropWhile isSeparator, text.takeWhile isSeparator)
  space1 : library.space1 = .run isSeparator
  rest (text : Text) : library.rest text = some ([], text)
  opt {α : Type} (parser : Parser α) (text : Text) :
    library.opt parser text =
      match parser text with
      | none => some (text, none)
      | some (rest, found) => some (rest, some found)
  preceded {α β : Type} (first : Parser α) (second : Parser β) (text : Text) :
    library.preceded first second text =
      (first text).bind fun (rest, _) => second rest
  terminated {α β : Type} (first : Parser α) (second : Parser β) (text : Text) :
    library.terminated first second text =
      (first text).bind fun (rest, found) =>
        (second rest).map fun (rest, _) => (rest, found)
  delimited {α β γ : Type} (first : Parser α) (second : Parser β)
      (third : Parser γ) (text : Text) :
    library.delimited first second third text =
      (first text).bind fun (rest, _) =>
        (second rest).bind fun (rest, found) =>
          (third rest).map fun (rest, _) => (rest, found)
  separatedList {α β : Type} {separator : Parser α} {item : Parser β}
      {text last : Text} {found : List β}
      (separated : Parser.Separated separator item text last found) :
    library.separatedList separator item text = some (last, found)
  allConsuming {α : Type} (parser : Parser α) (text : Text) :
    library.allConsuming parser text =
      (parser text).filter fun (rest, _) => rest.isEmpty

def standard : Combinators where
  isNot stops := .run fun c => !stops.contains c
  oneChar c
    | [] => none
    | first :: rest => if first = c then some (rest, first) else none
  space0 text := some (text.dropWhile isSeparator, text.takeWhile isSeparator)
  space1 := .run isSeparator
  rest text := some ([], text)
  opt parser text :=
    match parser text with
    | none => some (text, none)
    | some (rest, found) => some (rest, some found)
  preceded first second text := (first text).bind fun (rest, _) => second rest
  terminated first second text :=
    (first text).bind fun (rest, found) =>
      (second rest).map fun (rest, _) => (rest, found)
  delimited first second third text :=
    (first text).bind fun (rest, _) =>
      (second rest).bind fun (rest, found) =>
        (third rest).map fun (rest, _) => (rest, found)
  separatedList := Parser.separatedList
  allConsuming parser text := (parser text).filter fun (rest, _) => rest.isEmpty

theorem documented_standard : standard.Documented where
  isNot _ := rfl
  oneChar c text := by cases text <;> rfl
  space0 _ := rfl
  space1 := rfl
  rest _ := rfl
  opt _ _ := rfl
  preceded _ _ _ := rfl
  terminated _ _ _ := rfl
  delimited _ _ _ _ := rfl
  separatedList separated := separated.separatedList_eq
  allConsuming _ _ := rfl

end Combinators

end WordMachine.Assembly
