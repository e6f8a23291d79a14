import WordMachine.Proofs.Console.Command
import WordMachine.Proofs.Text.Lines

namespace WordMachine.Console

/-! A session executes the lines of its input one after another, up to the first
that quits. -/

open Session

/-- A line quits if its first word is `quit`, whatever comes after that. -/
def Quits (line : Text) : Prop :=
  (line.words isBlank).head? = some ['q', 'u', 'i', 't']

instance : DecidablePred Quits :=
  fun _ => inferInstanceAs (Decidable (_ = _))

inductive Exit where
  | quit
  | ended
  | undecodable
  deriving DecidableEq, Repr

namespace Exit

def result : Exit → Except Fault Unit
  | .quit => .ok ()
  | .ended => .ok ()
  | .undecodable => .error .notUtf8

def closing : Exit → String
  | .quit => "bye\n"
  | .ended => prompt ++ "bye\n"
  | .undecodable => prompt

end Exit

/-- The lines that a session executes, and the exit it takes after them. The
lines after a line that quits, or that is not a text, play no part. -/
inductive Consults (lines : List Bytes) : List Text → Exit → Prop
  | quit {before : List Text} {last : Text} {rest : List Bytes}
      (split : lines = before.map Text.encode ++ Text.encode last :: rest)
      (stays : ∀ line ∈ before, ¬ Quits line) (quits : Quits last) :
      Consults lines (before ++ [last]) .quit
  | ended {texts : List Text} (all : lines = texts.map Text.encode)
      (stays : ∀ line ∈ texts, ¬ Quits line) : Consults lines texts .ended
  | undecodable {before : List Text} {line : Bytes} {rest : List Bytes}
      (split : lines = before.map Text.encode ++ line :: rest)
      (stays : ∀ line ∈ before, ¬ Quits line)
      (garbled : Bytes.decode? line = none) : Consults lines before .undecodable

/-- The answer to a line on a console of its own, added to what was printed
before and to the prompt. -/
def respond (state : Machine × World) (line : Text) : Machine × World :=
  let prompted := state.2.shown prompt
  let answer := (execute line : Session (StateM World) Flow).on state.1
    (prompted.facing #[] none)
  (answer.1.2, answer.2.facing
    (prompted.output ++ answer.2.output.toList) none)

private theorem exists_consults (lines : List Bytes) :
    ∃ texts exit, Consults lines texts exit := by
  induction lines with
  | nil => exact ⟨[], .ended, .ended rfl (by simp)⟩
  | cons line rest induction =>
      cases read : Bytes.decode? line with
      | none =>
          exact ⟨[], .undecodable, .undecodable (List.nil_append _) (by simp) read⟩
      | some text =>
          have encoded := Bytes.decode?_eq_some_iff.mp read
          subst encoded
          by_cases quits : Quits text
          · exact ⟨[text], .quit, @Consults.quit _ [] text rest rfl (by simp) quits⟩
          · have stays' {texts : List Text} (stays : ∀ line ∈ texts, ¬ Quits line) :
                ∀ line ∈ text :: texts, ¬ Quits line :=
              List.forall_mem_cons.mpr ⟨quits, stays⟩
            obtain ⟨texts, exit, consults⟩ := induction
            refine ⟨text :: texts, exit, ?_⟩
            cases consults with
            | @quit before last others split stays quits' =>
                exact .quit (congrArg (text.encode :: ·) split)
                  (stays' stays) quits'
            | ended all stays =>
                exact .ended (congrArg (text.encode :: ·) all) (stays' stays)
            | undecodable split stays garbled =>
                exact .undecodable (congrArg (text.encode :: ·) split)
                  (stays' stays) garbled

theorem ofKeyword_eq_quit_iff {argument : Option Text} {keyword : Keyword} :
    Command.ofKeyword argument keyword = .quit ↔ keyword = .quit := by
  constructor
  · intro quits
    cases keyword with
    | load => cases argument <;> cases quits
    | step =>
        simp only [Command.ofKeyword] at quits
        split at quits <;> cases quits
    | quit => rfl
    | memory | registers | run | reset | help => cases quits
  · rintro rfl
    rfl

theorem ofLine_eq_quit_iff {line : Text} :
    Command.ofLine line = .quit ↔ Quits line := by
  rw [Command.ofLine, Quits]
  cases line.words isBlank with
  | nil => simp
  | cons name arguments =>
      rw [List.head?_cons, Option.some_inj]
      cases found : Keyword.ofName? name with
      | none =>
          simp only [found, reduceCtorEq, false_iff]
          rintro rfl
          cases found
      | some keyword =>
          simp only [found, ofKeyword_eq_quit_iff]
          have named := Keyword.ofName?_eq_some_iff.mp found
          subst named
          cases keyword <;> decide

theorem flow_eq_quit_iff {command : Command} :
    command.flow = .quit ↔ command = .quit := by
  cases command <;> simp [Command.flow]

private theorem flow_ofLine (line : Text) :
    (Command.ofLine line).flow = if Quits line then .quit else .proceed := by
  by_cases quits : Quits line
  · rw [if_pos quits]
    exact flow_eq_quit_iff.mpr (ofLine_eq_quit_iff.mpr quits)
  · have proceeds := (flow_eq_quit_iff.trans ofLine_eq_quit_iff).not.mpr quits
    rw [if_neg quits]
    cases flow : (Command.ofLine line).flow with
    | quit => exact absurd flow proceeds
    | proceed => rfl

section

variable {machine : Machine} {world : World} {state : Machine × World}

private theorem on_execute (free : world.room = none) (line : Text) :
    (execute line : Session (StateM World) Flow).on machine
      (world.shown prompt) =
        ((.ok (if Quits line then .quit else .proceed),
          (respond (machine, world) line).1),
            (respond (machine, world) line).2) := by
  obtain ⟨prints, after, world', plays, -⟩ :=
    @plays_execute machine (world.shown prompt) line
  have free' : (world.shown prompt).room = none := free
  have here := plays.unbounded (world.shown prompt).output
  have apart := plays.unbounded #[]
  rw [World.facing_of_free free', flow_ofLine] at here
  simp only [respond, apart]
  rw [here]
  simp [World.facing]

theorem on_converse_cons (free : state.2.room = none) (line : Text)
    (rest : List Bytes) :
    (Session.converse (line.encode :: rest) :
      Session (StateM World) Unit).on state.1 state.2 =
        if Quits line then
          ((.ok (), (respond state line).1), (respond state line).2)
        else
          (Session.converse rest : Session (StateM World) Unit).on
            (respond state line).1 (respond state line).2 := by
  rw [Session.converse_cons, on_bind, on_print _ free]
  simp only [executeBytes_of_read (Text.decode?_encode line), on_bind,
    on_execute free]
  by_cases quits : Quits line
  · simp only [if_pos quits]
    rfl
  · simp only [if_neg quits]

theorem room_of_respond (state : Machine × World) (line : Text) :
    (respond state line).2.room = none := rfl

/-- Lines that do not quit are executed one after another. -/
theorem on_converse_append (free : state.2.room = none) {before : List Text}
    (stays : ∀ line ∈ before, ¬ Quits line) (rest : List Bytes) :
    (Session.converse (before.map Text.encode ++ rest) :
      Session (StateM World) Unit).on state.1 state.2 =
        (Session.converse rest : Session (StateM World) Unit).on
          (before.foldl respond state).1 (before.foldl respond state).2 := by
  induction before generalizing state with
  | nil => rfl
  | cons line others induction =>
      obtain ⟨first, later⟩ := List.forall_mem_cons.mp stays
      rw [List.map_cons, List.cons_append, on_converse_cons free, if_neg first]
      exact induction (room_of_respond state line) later

theorem room_of_foldl_respond (free : state.2.room = none) (lines : List Text) :
    (lines.foldl respond state).2.room = none := by
  induction lines generalizing state with
  | nil => exact free
  | cons line rest induction => exact induction (room_of_respond state line)

theorem on_control_opened (free : world.room = none) (input : Bytes) :
    (Session.control input : Session (StateM World) Unit).on machine world =
      (do Session.converse (inputLines input); printLine "bye" :
        Session (StateM World) Unit).on machine
          (world.shown (banner ++ "\n")) := by
  have opened : (printLine banner : Session (StateM World) Unit).on machine world =
      ((.ok (), machine), world.shown (banner ++ "\n")) := on_print _ free
  rw [Session.control, Session.between, on_bind, opened]

theorem Consults.on_control {input : Bytes} {texts : List Text} {exit : Exit}
    (consults : Consults (inputLines input) texts exit) (free : world.room = none)
    (opened : state = (machine, world.shown (banner ++ "\n"))) :
    (Session.control input : Session (StateM World) Unit).on machine world =
      ((exit.result, (texts.foldl respond state).1),
        (texts.foldl respond state).2.shown exit.closing) := by
  have start : state.2.room = none := by
    rw [opened, World.room_shown, free]
  have conversation : ∀ (before : List Text) (rest : List Bytes),
      inputLines input = before.map Text.encode ++ rest →
      (∀ line ∈ before, ¬ Quits line) →
      (Session.converse (inputLines input) : Session (StateM World) Unit).on machine
        (world.shown (banner ++ "\n")) =
          (Session.converse rest : Session (StateM World) Unit).on
            (before.foldl respond state).1 (before.foldl respond state).2 := by
    intro before rest split stays
    rw [split, ← on_converse_append start stays rest, opened]
  cases consults with
  | @quit before last rest split stays quits =>
      have still := room_of_foldl_respond start before
      have talk := conversation before _ split stays
      rw [on_converse_cons still, if_pos quits] at talk
      rw [on_control_opened free, on_bind, talk, List.foldl_append]
      exact on_print "bye\n" (room_of_respond _ last)
  | ended all stays =>
      have still := room_of_foldl_respond start texts
      have talk := conversation texts [] (by rw [all, List.append_nil]) stays
      rw [Session.converse_nil, on_print prompt still] at talk
      rw [on_control_opened free, on_bind, talk, Exit.closing, ← World.shown_shown]
      exact on_print "bye\n" still
  | @undecodable before line rest split stays garbled =>
      have still := room_of_foldl_respond start texts
      have talk := conversation texts _ split stays
      rw [Session.converse_cons, on_bind, on_print prompt still] at talk
      simp only [executeBytes, garbled] at talk
      rw [on_control_opened free, on_bind, talk]
      rfl

end

/-- A session prints the banner and answers its lines in turn, up to the first
that quits. Then it says goodbye, after one more prompt if no line quits. It
fails at a prompt if the line there is not a text. No answer ends it but the one
to a line that quits. -/
theorem control_executes_lines_up_to_quit (machine : Machine) (files : FileTree)
    (input : Bytes) :
    (∃ lines texts exit, Lined 10 13 input lines ∧ Consults lines texts exit) ∧
    (∀ lines texts exit, Lined 10 13 input lines → Consults lines texts exit →
      let state := texts.foldl respond
        (machine, (World.new files none).shown (banner ++ "\n"))
      (Session.control input : Session (StateM World) Unit).on machine
          (World.new files none) =
        ((exit.result, state.1), state.2.shown exit.closing)) ∧
    (∀ (machine : Machine) (world : World) (line : Text), world.room = none →
      ∃ after world',
        (execute line : Session (StateM World) Flow).on machine world =
            ((.ok (if Quits line then .quit else .proceed), after), world') ∧
          (Quits line → after = machine ∧ world' = world)) := by
  refine ⟨?_, ?_, ?_⟩
  · obtain ⟨texts, exit, consults⟩ := exists_consults (inputLines input)
    exact ⟨_, texts, exit, lined_splitLines input, consults⟩
  · intro lines texts exit lined consults
    have split : inputLines input = lines := lined.splitLines_eq (by decide)
    rw [← split] at consults
    exact consults.on_control rfl rfl
  · intro machine world line free
    by_cases quits : Quits line
    · refine ⟨machine, world, ?_, fun _ => ⟨rfl, rfl⟩⟩
      rw [execute, ofLine_eq_quit_iff.mpr quits, if_pos quits]
      rfl
    · obtain ⟨prints, after, world', plays, -⟩ := @plays_execute machine world line
      have executed := plays.unbounded world.output
      rw [World.facing_of_free free, flow_ofLine] at executed
      exact ⟨_, _, executed, fun quits' => absurd quits' quits⟩

end WordMachine.Console
