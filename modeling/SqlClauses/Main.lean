import SqlClauses.Command.Run

/-!
# The program

Reads the arguments, the environment, files and standard input, and prints what comes out of the
call.
-/

namespace SqlClauses.Command

/-- The fault behind an error of the system. -/
def ReadFault.ofError : IO.Error → ReadFault
  | .noFileOrDirectory .. => .notFound
  | .inappropriateType .. => .isDirectory
  | error => .other (toString error).toList

/-- The files and the standard input of the system. -/
def systemSurroundings : Surroundings IO where
  readFile path := do
    match ← (IO.FS.readBinFile (String.ofList path)).toBaseIO with
    | .ok bytes => return .ok bytes
    | .error error => return .error (.ofError error)
  readInput := do
    let input ← IO.getStdin
    if ← input.isTty then return none
    match ← (IO.FS.Stream.readBinToEnd input).toBaseIO with
    | .ok bytes => return some (.ok bytes)
    | .error error => return some (.error (.ofError error))

end SqlClauses.Command

open SqlClauses Command in
/-- Carries out one call and returns its exit code. -/
def main (arguments : List String) : IO UInt32 := do
  let setting ← IO.getEnv "SQL_EXPR_PRETTY"
  let result ← outcome systemSurroundings (arguments.map String.toList) (setting.map String.toList)
  IO.eprint (String.ofList result.messages)
  IO.print (String.ofList result.output)
  return result.exitCode
