import WordMachine.Proofs.Console.Command

namespace WordMachine.Console

/-! A console that breaks cuts the output of a session short, and leaves the
machine in a state that the session goes through before a console that works. -/

open Session

/-- The points of a conversation where it prints: it has executed some lines, and
prompts for the next or answers it. -/
inductive ConversePoint :
    Machine → World → List Bytes → Machine → World → String → Prop
  | prompting {machine : Machine} {world : World} {lines : List Bytes} :
      ConversePoint machine world lines machine world prompt
  | answering {machine machine' : Machine} {world world' : World} {line : Bytes}
      {rest : List Bytes} {text : Text} {answer : String}
      (read : Bytes.decode? line = some text)
      (point : LinePoint machine (world.shown prompt) text machine' world'
        answer) :
      ConversePoint machine world (line :: rest) machine' world' answer
  | executed {machine after machine' : Machine} {world between world' : World}
      {line : Bytes} {rest : List Bytes} {text : Text} {answer : String}
      (read : Bytes.decode? line = some text)
      (execution : (execute text : Session (StateM World) Flow).on machine
        (world.shown prompt) = ((.ok .proceed, after), between))
      (point : ConversePoint after between rest machine' world' answer) :
      ConversePoint machine world (line :: rest) machine' world' answer

inductive SessionPoint (machine : Machine) (world : World) (input : Bytes) :
    Machine → World → String → Prop
  | opening : SessionPoint machine world input machine world (banner ++ "\n")
  | conversing {machine' : Machine} {world' : World} {text : String}
      (point : ConversePoint machine (world.shown (banner ++ "\n"))
        (inputLines input) machine' world' text) :
      SessionPoint machine world input machine' world' text
  | closing {after : Machine} {world' : World}
      (conversation : (Session.converse (inputLines input) :
        Session (StateM World) Unit).on machine
          (world.shown (banner ++ "\n")) = ((.ok (), after), world')) :
      SessionPoint machine world input after world' "bye\n"

section

variable {machine : Machine} {world : World}

private theorem plays_converse (lines : List Bytes) :
    ∃ prints result after world', Plays (Session.converse lines) machine world
      prints ((result, after), world') ∧
      ∀ output, Along (ConversePoint machine (world.facing output none) lines)
        prints output := by
  induction lines generalizing machine world with
  | nil =>
      rw [converse_nil]
      exact ⟨_, .ok (), _, _, plays_print prompt,
        fun _ => ⟨.prompting, trivial⟩⟩
  | cons line rest induction =>
      rw [converse_cons]
      cases read : Bytes.decode? line with
      | none =>
          have fails : Plays (executeBytes line) machine world []
              ((.error .notUtf8, machine), world) := by
            rw [executeBytes, read]
            exact plays_throw .notUtf8
          exact ⟨_, _, _, _, (plays_print prompt).bind fails.bind_error,
            fun _ => ⟨.prompting, trivial⟩⟩
      | some text =>
          obtain ⟨answer, after, world', plays, along⟩ :=
            @plays_execute machine world text
          have execution : ∀ output, (execute text : Session (StateM World) Flow).on
              machine ((world.facing output none).shown prompt) =
                ((.ok (Command.ofLine text).flow, after), world'.facing
                  (output ++ (Text.encode prompt.toList ++
                    answer.flatMap Print.bytes)) none) := by
            intro output
            rw [← World.append_append]
            exact plays.unbounded (output ++ Text.encode prompt.toList)
          have answers : ∀ output, Along
              (ConversePoint machine (world.facing output none) (line :: rest))
              answer (output ++ Text.encode prompt.toList) := fun output =>
            (along _).imp fun _ _ _ point => .answering read point
          rw [← executeBytes_of_read read] at plays
          cases flow : (Command.ofLine text).flow with
          | quit =>
              rw [flow] at plays
              refine ⟨_, .ok (), after, world', (plays_print prompt).bind
                (plays.bind (plays_pure ())), fun output => ⟨.prompting, ?_⟩⟩
              rw [List.append_nil]
              exact answers output
          | proceed =>
              rw [flow] at plays execution
              obtain ⟨later, result, after', last, plays', along'⟩ :=
                @induction after world'
              refine ⟨_, result, after', last, (plays_print prompt).bind
                (plays.bind plays'), fun output => ⟨.prompting, ?_⟩⟩
              refine (answers output).append ?_
              rw [World.append_append]
              exact (along' _).imp fun _ _ _ point =>
                .executed read (execution output) point

private theorem plays_control (input : Bytes) :
    ∃ prints result after world', Plays (Session.control input) machine world
      prints ((result, after), world') ∧
      ∀ output, Along (SessionPoint machine (world.facing output none) input)
        prints output := by
  obtain ⟨talk, result, after, world', plays, along⟩ :=
    @plays_converse machine world (inputLines input)
  have talks : ∀ output, Along
      (SessionPoint machine (world.facing output none) input) talk
        (output ++ Text.encode (banner ++ "\n").toList) := fun output =>
    (along _).imp fun _ _ _ point => .conversing point
  cases result with
  | error fault =>
      refine ⟨_, _, _, _, (plays_printLine banner).bind plays.bind_error,
        fun output => ⟨.opening, talks output⟩⟩
  | ok done =>
      refine ⟨_, _, _, _, (plays_printLine banner).bind
        (plays.bind (plays_printLine "bye")), fun output => ⟨.opening, ?_⟩⟩
      have conversation := plays.unbounded
        (output ++ Text.encode (banner ++ "\n").toList)
      exact (talks output).append ⟨.closing conversation, trivial⟩

end

/-- Before a console with room for `limit` bytes, a session prints the first
`limit` bytes of what it prints before a console that works. If that is all, it
does all that it does there. Otherwise it fails at the text that holds the first
byte too many, in the state in which that text is printed there. -/
theorem broken_console_cuts_session (machine : Machine) (files : FileTree)
    (input : Bytes) (limit : Nat) :
    let whole := (Session.control input : Session (StateM World) Unit).on machine
      (World.new files none)
    let broken := (Session.control input : Session (StateM World) Unit).on machine
      (World.new files (some limit))
    broken.2.output.toList = whole.2.output.toList.take limit ∧
    (whole.2.output.size ≤ limit →
      broken.1 = whole.1 ∧ broken.2.files = whole.2.files ∧
        broken.2.journal = whole.2.journal) ∧
    (limit < whole.2.output.size → ∃ machine' world' text later,
      SessionPoint machine (World.new files none) input machine' world' text ∧
      whole.2.output = world'.output ++ (Text.encode text.toList ++ later) ∧
      world'.output.size ≤ limit ∧
      limit < world'.output.size + (Text.encode text.toList).length ∧
      broken.1 = (.error .outputLimit, machine') ∧
      broken.2.files = world'.files ∧ broken.2.journal = world'.journal) := by
  intro whole broken
  obtain ⟨prints, result, after, world', plays, along⟩ :=
    @plays_control machine (World.new files none) input
  have wholly : whole = ((result, after), world'.facing
      ((#[] : Array UInt8) ++ prints.flatMap Print.bytes) none) :=
    plays.unbounded #[]
  have brokenly : broken = play ((result, after), world') prints #[] (some limit) :=
    plays #[] (some limit)
  have bytes : whole.2.output.toList = prints.flatMap Print.bytes := by
    rw [wholly]
    exact Array.toList_appendList
  have size : whole.2.output.size = (prints.flatMap Print.bytes).length := by
    rw [← bytes, Array.length_toList]
  rw [bytes, size]
  by_cases fits : (prints.flatMap Print.bytes).length ≤ limit
  · rw [play_of_fits fits] at brokenly
    rw [brokenly, wholly]
    refine ⟨?_, fun _ => ⟨rfl, rfl, rfl⟩, fun short => absurd fits (by omega)⟩
    rw [List.take_of_length_le fits]
    exact Array.toList_appendList
  · have short : limit < (prints.flatMap Print.bytes).length := by omega
    obtain ⟨machine', world', text, later, point, parts, before, beyond, stopped⟩ :=
      play_of_short short (along #[])
    rw [stopped] at brokenly
    rw [Array.size_empty, Nat.zero_add] at before beyond
    rw [brokenly]
    refine ⟨Array.toList_appendList, fun fits' => absurd fits' fits, fun _ => ?_⟩
    refine ⟨machine', world', text, later, point, ?_, before, beyond, rfl, rfl, rfl⟩
    rw [parts, wholly]
    rfl

end WordMachine.Console
