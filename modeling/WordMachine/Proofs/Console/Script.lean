import WordMachine.Proofs.Console.Output
import WordMachine.Proofs.Program.File

namespace WordMachine

/-! What a session does does not depend on its console: it prints the same texts
in the same states before every console, up to the first one that has no room.
The texts with their states are the script of the session. -/

namespace World

def facing (world : World) (output : Array UInt8) (room : Option Nat) : World :=
  { world with output := output, room := room }

def shown (world : World) (text : String) : World :=
  { world with output := world.output ++ Text.encode text.toList }

theorem facing_of_free {world : World} (free : world.room = none) :
    world.facing world.output none = world := by
  rw [← free]
  rfl

theorem room_shown (world : World) (text : String) :
    (world.shown text).room = world.room := rfl

theorem shown_shown (world : World) (first second : String) :
    (world.shown first).shown second = world.shown (first ++ second) := by
  simp only [shown, append_append, String.toList_append, Text.encode_append]

private theorem facing_print (world : World) (text : String) :
    world.facing (world.print text).2.output (world.print text).2.room =
      (world.print text).2 := by
  simp only [print]
  split
  · rfl
  · split <;> rfl

theorem size_append (output : Array UInt8) (bytes : Bytes) :
    (output ++ bytes).size = output.size + bytes.length := by
  rw [← Array.length_toList, Array.toList_appendList, List.length_append,
    Array.length_toList]

end World

/-- Actions that do not touch the console. -/
def Quiet {α : Type} (action : StateM World α) : Prop :=
  ∀ world output room, action (world.facing output room) =
    ((action world).1, (action world).2.facing output room)

section Quiet

variable {α β : Type}

theorem quiet_pure (value : α) : Quiet (pure value) :=
  fun _ _ _ => rfl

theorem Quiet.bind {first : StateM World α} {next : α → StateM World β}
    (quiet : Quiet first) (quiet' : ∀ value, Quiet (next value)) :
    Quiet (first >>= next) := by
  intro world output room
  rw [World.bind_apply, World.bind_apply, quiet]
  exact quiet' _ _ output room

theorem quiet_note (event : Event) :
    Quiet (Host.note event : StateM World Unit) :=
  fun _ _ _ => rfl

theorem quiet_noteAll (events : List Event) :
    Quiet (Host.noteAll events : StateM World Unit) := by
  induction events with
  | nil => exact quiet_pure ()
  | cons event rest induction => exact (quiet_note event).bind fun _ => induction

private theorem quiet_readFile (path : Path) :
    Quiet (Host.readFile path : StateM World (Except Fault Bytes)) :=
  fun _ _ _ => rfl

private theorem quiet_writeFile (path : Path) (contents : Bytes) :
    Quiet (Host.writeFile path contents : StateM World (Except Fault Unit)) := by
  intro world output room
  change (world.facing output room).writeFile path contents =
    ((world.writeFile path contents).1,
      (world.writeFile path contents).2.facing output room)
  have files : (world.facing output room).files = world.files := rfl
  unfold World.writeFile
  rw [files]
  cases world.files.write path contents with
  | ok files => rfl
  | error fault => rfl

variable (config : Config) (path : Path) (program : Program)

private theorem quiet_save :
    Quiet (ProgramFile.save path program : StateM World (Option Fault)) := by
  have written : Quiet (ProgramFile.writeImage path program :
      StateM World (Except Fault Unit)) := by
    unfold ProgramFile.writeImage
    split
    · exact quiet_pure _
    · exact quiet_writeFile _ _
  refine written.bind fun result => ?_
  cases result with
  | ok done => exact quiet_pure none
  | error fault => exact (quiet_note _).bind fun _ => quiet_pure _

private theorem quiet_complete :
    Quiet (ProgramFile.complete config path program :
      StateM World ProgramFile) := by
  unfold ProgramFile.complete
  split
  · refine (quiet_note _).bind fun _ => ?_
    split
    · exact (quiet_save path program).bind fun _ => quiet_pure _
    · exact quiet_pure _
  · exact (quiet_note _).bind fun _ => quiet_pure _

private theorem quiet_read :
    Quiet (ProgramFile.read config path :
      StateM World (Except LoadError ProgramFile)) := by
  refine (quiet_readFile path).bind fun contents => ?_
  cases contents with
  | error fault => exact quiet_pure _
  | ok bytes =>
      simp only
      cases Bytes.decode? bytes with
      | none => exact quiet_pure _
      | some text =>
          simp only
          cases ProgramFile.parse config path text with
          | error error => exact quiet_pure _
          | ok program =>
              exact (quiet_complete config path program).bind fun _ =>
                quiet_pure _

private theorem quiet_install (machine : Machine) :
    Quiet (machine.install program :
      StateM World (Except MemoryError Unit × Machine)) := by
  unfold Machine.install
  cases machine.load program with
  | error error => exact quiet_pure _
  | ok loaded => exact (quiet_note _).bind fun _ => quiet_pure _

theorem quiet_loadFile (machine : Machine) :
    Quiet (machine.loadFile path :
      StateM World (Except LoadError ProgramFile × Machine)) := by
  refine (quiet_read machine.config path).bind fun result => ?_
  cases result with
  | error error => exact quiet_pure _
  | ok file =>
      refine (quiet_install file.program machine).bind fun outcome => ?_
      rcases outcome with ⟨_ | _, after⟩
      · exact quiet_pure _
      · exact quiet_pure _

end Quiet

namespace Console

structure Print where
  machine : Machine
  world : World
  text : String

namespace Print

def bytes (print : Print) : Bytes :=
  Text.encode print.text.toList

end Print

abbrev Outcome (α : Type) := (Except Fault α × Machine) × World

variable {α β : Type}

/-- Prints in turn on a console, up to the first that fails. -/
def play (last : Outcome α) :
    List Print → Array UInt8 → Option Nat → Outcome α
  | [], output, room => (last.1, last.2.facing output room)
  | next :: rest, output, room =>
      match (next.world.facing output room).print next.text with
      | (.ok (), world) => play last rest world.output world.room
      | (.error fault, world) => ((.error fault, next.machine), world)

/-- A session prints in turn, before every console, and ends in an outcome. -/
def Plays (session : Session (StateM World) α) (machine : Machine)
    (world : World) (prints : List Print) (last : Outcome α) : Prop :=
  ∀ output room, session.on machine (world.facing output room) =
    play last prints output room

def Along (holds : Machine → World → String → Prop) :
    List Print → Array UInt8 → Prop
  | [], _ => True
  | next :: rest, output =>
      holds next.machine (next.world.facing output none) next.text ∧
        Along holds rest (output ++ next.bytes)

section Play

variable {last : Outcome α} {output : Array UInt8}

theorem play_unbounded (prints : List Print) :
    play last prints output none =
      (last.1, last.2.facing (output ++ prints.flatMap Print.bytes) none) := by
  induction prints generalizing output with
  | nil =>
      rw [List.flatMap_nil, Array.appendList_nil]
      rfl
  | cons next rest induction =>
      rw [List.flatMap_cons, ← World.append_append]
      exact induction

theorem play_of_fits {prints : List Print} {room : Nat}
    (fits : (prints.flatMap Print.bytes).length ≤ room) :
    play last prints output (some room) =
      (last.1, last.2.facing (output ++ prints.flatMap Print.bytes)
        (some (room - (prints.flatMap Print.bytes).length))) := by
  induction prints generalizing output room with
  | nil =>
      rw [List.flatMap_nil, Array.appendList_nil]
      rfl
  | cons next rest induction =>
      rw [List.flatMap_cons, List.length_append] at fits
      have first : (Text.encode next.text.toList).length ≤ room :=
        Nat.le_trans (Nat.le_add_right _ _) fits
      have others : (rest.flatMap Print.bytes).length ≤
          room - next.bytes.length := by omega
      simp only [play, World.print, World.facing, if_pos first]
      rw [List.flatMap_cons, List.length_append, ← World.append_append,
        ← Nat.sub_sub]
      exact induction others

theorem Along.imp {holds holds' : Machine → World → String → Prop}
    {prints : List Print} (along : Along holds prints output)
    (implies : ∀ machine world text, holds machine world text →
      holds' machine world text) : Along holds' prints output := by
  induction prints generalizing output with
  | nil => trivial
  | cons next rest induction =>
      exact ⟨implies _ _ _ along.1, induction along.2⟩

theorem Along.append {holds : Machine → World → String → Prop}
    {front back : List Print} (first : Along holds front output)
    (second : Along holds back (output ++ front.flatMap Print.bytes)) :
    Along holds (front ++ back) output := by
  induction front generalizing output with
  | nil =>
      rw [List.flatMap_nil, Array.appendList_nil] at second
      exact second
  | cons next rest induction =>
      obtain ⟨here, others⟩ := first
      rw [List.flatMap_cons, ← World.append_append] at second
      exact ⟨here, induction others second⟩

/-- Before a console with too little room, the prints end at the text that holds
the first byte too many. -/
theorem play_of_short {prints : List Print} {room : Nat}
    {holds : Machine → World → String → Prop}
    (short : room < (prints.flatMap Print.bytes).length)
    (along : Along holds prints output) :
    ∃ machine world text later, holds machine world text ∧
      world.output ++ (Text.encode text.toList ++ later) =
        output ++ prints.flatMap Print.bytes ∧
      world.output.size ≤ output.size + room ∧
      output.size + room <
        world.output.size + (Text.encode text.toList).length ∧
      play last prints output (some room) =
        ((.error .outputLimit, machine),
          world.facing (output ++ (prints.flatMap Print.bytes).take room)
            (some 0)) := by
  induction prints generalizing output room with
  | nil => exact absurd short (Nat.not_lt_zero room)
  | cons next rest induction =>
      obtain ⟨here, others⟩ := along
      rw [List.flatMap_cons, List.length_append] at short
      by_cases first : next.bytes.length ≤ room
      · have short' : room - next.bytes.length <
            (rest.flatMap Print.bytes).length := by omega
        obtain ⟨machine, world, text, later, point, whole, before, beyond,
          stopped⟩ := induction short' others
        have size := World.size_append output next.bytes
        have first' : (Text.encode next.text.toList).length ≤ room := first
        refine ⟨machine, world, text, later, point, ?_, by omega, by omega, ?_⟩
        · rw [whole, List.flatMap_cons, World.append_append]
        · simp only [play, World.print, World.facing, if_pos first']
          rw [List.flatMap_cons, List.take_append,
            List.take_of_length_le first, ← World.append_append]
          exact stopped
      · have first' : ¬ (Text.encode next.text.toList).length ≤ room := first
        refine ⟨_, _, _, rest.flatMap Print.bytes, here, rfl,
          Nat.le_add_right _ _, ?_, ?_⟩
        · exact Nat.add_lt_add_left (Nat.lt_of_not_le first') _
        · have cut : ((next :: rest).flatMap Print.bytes).take room =
              (Text.encode next.text.toList).take room :=
            List.take_append_of_le_length (Nat.le_of_not_le first)
          simp only [play, World.print, World.facing, if_neg first', cut]

end Play

section Plays

variable {machine : Machine} {world : World}

theorem Plays.unbounded {session : Session (StateM World) α}
    {prints : List Print} {last : Outcome α}
    (plays : Plays session machine world prints last) (output : Array UInt8) :
    session.on machine (world.facing output none) =
      (last.1, last.2.facing (output ++ prints.flatMap Print.bytes) none) :=
  (plays output none).trans (play_unbounded prints)

theorem plays_pure (value : α) :
    Plays (pure value) machine world [] ((.ok value, machine), world) :=
  fun _ _ => rfl

theorem plays_throw (fault : Fault) :
    Plays (throw fault : Session (StateM World) α) machine world []
      ((.error fault, machine), world) :=
  fun _ _ => rfl

theorem plays_get :
    Plays (get : Session (StateM World) Machine) machine world []
      ((.ok machine, machine), world) :=
  fun _ _ => rfl

theorem plays_set (after : Machine) :
    Plays (set after : Session (StateM World) PUnit) machine world []
      ((.ok ⟨⟩, after), world) :=
  fun _ _ => rfl

theorem plays_modify (change : Machine → Machine) :
    Plays (modify change : Session (StateM World) PUnit) machine world []
      ((.ok ⟨⟩, change machine), world) :=
  fun _ _ => rfl

theorem plays_lift {action : StateM World α} (quiet : Quiet action) :
    Plays (liftM action) machine world []
      ((.ok (action world).1, machine), (action world).2) := by
  intro output room
  rw [Session.on_lift, quiet]
  rfl

theorem on_print (text : String) (free : world.room = none) :
    (Session.print text : Session (StateM World) Unit).on machine world =
      ((.ok (), machine), world.shown text) := by
  have room : (Host.print text : StateM World _) world =
      (.ok (), world.shown text) :=
    World.print_unbounded text free
  rw [Session.print, Session.on_bind, Session.on_lift, room]
  rfl

theorem plays_print (text : String) :
    Plays (Session.print text) machine world [⟨machine, world, text⟩]
      ((.ok (), machine), world) := by
  intro output room
  have printed : (Host.print text : StateM World _) (world.facing output room) =
      (world.facing output room).print text := rfl
  rw [Session.print, Session.on_bind, Session.on_lift, printed]
  have console := World.facing_print (world.facing output room) text
  simp only [play]
  rcases print : (world.facing output room).print text with ⟨_ | _, after⟩
  · rfl
  · rw [print] at console
    exact Prod.ext rfl console.symm

theorem Plays.bind {first : Session (StateM World) α}
    {next : α → Session (StateM World) β} {value : α} {after : Machine}
    {world' : World} {front back : List Print} {last : Outcome β}
    (plays : Plays first machine world front ((.ok value, after), world'))
    (plays' : Plays (next value) after world' back last) :
    Plays (first >>= next) machine world (front ++ back) last := by
  intro output room
  rw [Session.on_bind, plays]
  clear plays
  induction front generalizing output room with
  | nil => exact plays' output room
  | cons print rest induction =>
      simp only [List.cons_append, play]
      rcases (print.world.facing output room).print print.text with
        ⟨_ | _, world⟩
      · rfl
      · exact induction world.output world.room

theorem Plays.bind_pure {first : Session (StateM World) α}
    {value : α} {after : Machine} {world' : World} {prints : List Print}
    (plays : Plays first machine world prints ((.ok value, after), world'))
    (result : β) :
    Plays (first >>= fun _ => pure result) machine world prints
      ((.ok result, after), world') := by
  have whole := @Plays.bind _ _ machine world first (fun _ => pure result)
    _ _ _ _ _ _ plays (plays_pure result)
  rwa [List.append_nil] at whole

theorem Plays.bind_error {first : Session (StateM World) α}
    {next : α → Session (StateM World) β} {fault : Fault} {after : Machine}
    {world' : World} {front : List Print}
    (plays : Plays first machine world front ((.error fault, after), world')) :
    Plays (first >>= next) machine world front
      ((.error fault, after), world') := by
  intro output room
  rw [Session.on_bind, plays]
  clear plays
  induction front generalizing output room with
  | nil => rfl
  | cons print rest induction =>
      simp only [play]
      rcases (print.world.facing output room).print print.text with
        ⟨_ | _, world⟩
      · rfl
      · exact induction world.output world.room

end Plays

end Console

end WordMachine
