import Airspace.Service.Session

/-! # The command line

  Reads position reports from the standard input, one a line, and prints an answer
  for each to the standard output. The environment says where the tables are and
  what is checked. The input ends at its end or at a line that is not well-formed
  text.
-/

namespace Airspace.Console

/-- Whether there is a directory at a path, seen from the current directory. -/
def isDirectory (path : String) : IO Bool := do
  ((← IO.currentDir) / path).isDir

/-- What is at a path. -/
def readContent (path : String) : IO (Option Content) := do
  if ← isDirectory path then return some .folder
  match ← (IO.FS.readBinFile path).toBaseIO with
  | .ok bytes => return some (.bytes bytes.toList)
  | .error (.noFileOrDirectory ..) => return none
  | .error e => return some (.unreadable (toString e))

/-- The tables in a directory, as they are now. -/
def readVolume (dir : String) : IO Volume := do
  if ← isDirectory dir then
    Table.all.foldlM (fun v t => do
      match ← readContent (dir ++ "/" ++ t.fileName) with
      | some content => return v.put t content
      | none => return v) .empty
  else return .unmounted

/-- The variables of the service that are set. -/
def readEnvironment : IO Environment := do
  let entries ← Environment.names.filterMapM fun name => do
    return (← IO.getEnv name).map fun value => (name, value.toUTF8.toList)
  return ⟨entries⟩

/-- The bytes up to the next line feed, with it, or up to the end of the input. -/
partial def readLine (input : IO.FS.Stream) (before : ByteArray) : IO ByteArray := do
  let next ← input.read 1
  let line := before ++ next
  if next.isEmpty || next.toList == [Text.LineMarks.ofBytes.feed] then return line
  readLine input line

/-- How the service reads reports. -/
def parse : PositionReport.Parser := PositionReport.ofText? JsonNumber.quick?

/-- Answers the reports of the input, one after the other. -/
partial def serve (dir : String) (input output : IO.FS.Stream) (g : Guard) : IO Unit := do
  let line := Reading.ofBytes (← readLine input .empty).toList
  match line.lines with
  | [] => return
  | text :: _ =>
    match PositionReport.ofLine? parse text with
    | none => serve dir input output g
    | some r =>
      let v ← if g.mayLoad r.ready then readVolume dir else pure .unmounted
      let h := g.handle v r
      output.putStrLn h.answer.line
      output.flush
      serve dir input output h.guard

end Airspace.Console

open Airspace in
def main : IO Unit := do
  let env ← Console.readEnvironment
  let settings := ServiceSettings.ofEnvironment env ServiceSettings.defaultName
  let v ← Console.readVolume settings.dataDir
  Console.serve settings.dataDir (← IO.getStdin) (← IO.getStdout) (.ofEnvironment .sphere env v)
