import WordMachine.Console.Session
import WordMachine.World

namespace WordMachine

/-! Sessions on a world: how one part follows another, and what they print when
the output has room for everything. -/

namespace World

def printed (world : World) (lines : List String) : World :=
  { world with output := world.output ++
      Text.encode (lines.flatMap fun line => line.toList ++ ['\n']) }

def noted (world : World) (events : List Event) : World :=
  { world with journal := world.journal ++ events }

@[simp] theorem printed_nil (world : World) : world.printed [] = world := by
  simp [printed]

@[simp] theorem noted_nil (world : World) : world.noted [] = world := by
  simp [noted]

theorem append_append {α : Type} (items : Array α)
    (first second : List α) :
    items ++ first ++ second = items ++ (first ++ second) :=
  Array.ext' (by simp)

theorem printed_printed (world : World) (first second : List String) :
    (world.printed first).printed second = world.printed (first ++ second) := by
  simp only [printed, append_append, List.flatMap_append, Text.encode_append]

theorem noted_noted (world : World) (first second : List Event) :
    (world.noted first).noted second = world.noted (first ++ second) := by
  simp only [noted, append_append]

theorem noted_printed (world : World) (lines : List String)
    (events : List Event) :
    (world.printed lines).noted events = (world.noted events).printed lines :=
  rfl

theorem note_eq_noted (world : World) (event : Event) :
    world.note event = world.noted [event] := by
  simp [note, noted]

end World

theorem noteAll_world (events : List Event) (world : World) :
    (Host.noteAll events : StateM World Unit) world =
      ((), world.noted events) := by
  induction events generalizing world with
  | nil => rw [World.noted_nil]; rfl
  | cons event rest induction =>
      have first := world.note_eq_noted event
      calc
        (Host.noteAll (event :: rest) : StateM World Unit) world =
            (Host.noteAll rest : StateM World Unit) (world.note event) := rfl
        _ = ((), (world.noted [event]).noted rest) := by rw [induction, first]
        _ = ((), world.noted (event :: rest)) := by rw [World.noted_noted]; rfl

namespace Console.Session

variable {α β : Type} {machine after : Machine} {world world' : World}

theorem on_bind (first : Session (StateM World) α)
    (next : α → Session (StateM World) β) :
    (first >>= next).on machine world =
      match first.on machine world with
      | ((.ok value, after), world') => (next value).on after world'
      | ((.error fault, after), world') => ((.error fault, after), world') := by
  change (match first.on machine world with
    | ((result, after), world') =>
        (ExceptT.bindCont next result : StateT Machine (StateM World) _)
          after world') = _
  rcases first.on machine world with ⟨⟨result, after⟩, world'⟩
  cases result with
  | ok value => rfl
  | error fault => rfl

theorem on_pure (value : α) :
    (pure value : Session (StateM World) α).on machine world =
      ((.ok value, machine), world) := rfl

theorem on_lift (action : StateM World α) :
    (liftM action : Session (StateM World) α).on machine world =
      ((.ok (action world).1, machine), (action world).2) := rfl

theorem on_get :
    (get : Session (StateM World) Machine).on machine world =
      ((.ok machine, machine), world) := rfl

theorem on_set :
    (set after : Session (StateM World) PUnit).on machine world =
      ((.ok ⟨⟩, after), world) := rfl

theorem on_printLine (text : String) (free : world.room = none) :
    (printLine text : Session (StateM World) Unit).on machine world =
      ((.ok (), machine), world.printed [text]) := by
  have room : (Host.print (text ++ "\n") : StateM World _) world =
      (.ok (), world.printed [text]) := by
    change world.print (text ++ "\n") = _
    rw [World.print_unbounded _ free]
    simp [World.printed]
  rw [printLine, print, on_bind, on_lift, room]
  rfl

theorem on_step (free : world.room = none) :
    (step : Session (StateM World) _).on machine world =
      ((.ok machine.step.1, machine.step.2),
        (world.noted machine.stepEvents).printed
          (machine.step.2.diagnostic.toList.map Diagnostic.message)) := by
  simp only [step, on_bind, on_get, on_lift, noteAll_world, on_set]
  cases machine.step.2.diagnostic with
  | none =>
      rw [Option.toList_none, List.map_nil, World.printed_nil]
      exact on_pure machine.step.1
  | some diagnostic =>
      have still : (world.noted machine.stepEvents).room = none := free
      simp only [on_bind, on_printLine diagnostic.message still]
      rfl

end Console.Session

end WordMachine
