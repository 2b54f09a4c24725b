import Airspace.Environment
import Airspace.Service.Pipeline

/-! # A session of the service

  A session starts a guard, configured by the environment, on a volume, and prints
  an answer for every report of its input. The globe and the parser of reports come
  from elsewhere.
-/

namespace Airspace

/-- The name of the service where nothing else is said. -/
def ServiceSettings.defaultName : String := "rid-checker"

/-- The guard that a session begins with. -/
def Guard.ofEnvironment (globe : Globe) (env : Environment) (v : Volume) : Guard :=
  (Guard.new globe (.ofEnvironment env)).start v

/-- The lines that a session prints on an input. -/
def sessionOutput (globe : Globe) (parse : PositionReport.Parser) (env : Environment) (v : Volume)
    (input : List UInt8) : List String :=
  let reports := PositionReport.ofInput parse (.ofBytes input)
  ((Guard.ofEnvironment globe env v).answers v reports).map Answer.line

end Airspace
