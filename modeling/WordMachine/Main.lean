import WordMachine.CommandLine.Run

/-! The program itself: the host is the operating system, and the console reads
standard input line by line. -/

namespace WordMachine

def Fault.ofError : IO.Error → Fault
  | .noFileOrDirectory _ _ _ => .notFound
  | .inappropriateType _ 21 _ => .isDirectory
  | .inappropriateType _ _ _ => .notDirectory
  | error => .other (toString error)

def attempt {α : Type} (action : IO α) : IO (Except Fault α) := do
  try
    return .ok (← action)
  catch error =>
    return .error (Fault.ofError error)

/-- Files are opened by names in UTF-8. -/
def fileName (path : Path) : IO String :=
  match Bytes.decode? path.bytes with
  | some text => pure (String.ofList text)
  | none => throw (.userError "file name is not UTF-8")

instance : Host IO where
  readFile path := attempt do
    return (← IO.FS.readBinFile (← fileName path)).data.toList
  writeFile path contents := attempt do
    IO.FS.writeBinFile (← fileName path) contents.toByteArray
  print text := attempt do
    let output ← IO.getStdout
    output.putStr text
    output.flush
  complain text := IO.eprint text
  note _ := pure ()

/-- The bytes up to and including the next newline, last first. -/
partial def readBytes (input : IO.FS.Stream) (line : Bytes) : IO Bytes := do
  match (← input.read 1).data.toList with
  | [] => return line
  | byte :: _ => if byte == 10 then return byte :: line else readBytes input (byte :: line)

def readLine (input : IO.FS.Stream) : IO (Option Bytes) := do
  return (Console.Session.inputLines (← readBytes input []).reverse).head?

partial def converse (input : IO.FS.Stream) : Console.Session IO Unit := do
  match ← Console.Session.turn (readLine input) with
  | .proceed => converse input
  | .quit => pure ()

def environment : IO (String → Option Text) := do
  let names := [Config.capacityVariable, Config.stepBudgetVariable, Config.persistVariable]
  let values ← names.mapM fun name => return (name, ← IO.getEnv name)
  return fun name => ((values.lookup name).bind id).map String.toList

def program (arguments : List String) : IO UInt32 := do
  match ← CommandLine.start CommandLine.Invocation.ofArguments (← environment)
      (arguments.map String.toList) with
  | .exit code => return code.toUInt32
  | .console machine =>
      let (result, _) ← (Console.Session.between (converse (← IO.getStdin))).on machine
      let code ← CommandLine.close result
      return code.toUInt32

end WordMachine

def main (arguments : List String) : IO UInt32 :=
  WordMachine.program arguments
