import DemonBoard.Command

/-! The command line, on a database that starts empty. -/

open DemonBoard in
def main (arguments : List String) : IO UInt32 := do
  match (Command.run Database.empty arguments).result with
  | .ok report =>
    report.lines.forM IO.println
    return 0
  | .error (.usage code) => return code.toUInt32
  | .error cause =>
    IO.eprintln cause.message
    return 1
