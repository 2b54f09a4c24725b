/-! # Alerts

  What an operator is told about a failure: one of a few codes and a message.
-/

namespace Airspace

/-- The kind of a failure. -/
inductive AlertCode
  /-- A buffer could not grow. -/
  | outOfMemory
  /-- A buffer reached its limit. -/
  | capacityExceeded
  /-- The record store is not there or a table cannot be read. -/
  | storageUnavailable
  /-- There is no position yet. -/
  | noFix
  /-- A record cannot be read. -/
  | malformedRecord
deriving DecidableEq

/-- The name of a code. -/
def AlertCode.name : AlertCode → String
  | outOfMemory => "OutOfMemory"
  | capacityExceeded => "CapacityExceeded"
  | storageUnavailable => "StorageUnavailable"
  | noFix => "NoFix"
  | malformedRecord => "MalformedRecord"

/-- A failure as reported. -/
structure Alert where
  /-- Its kind. -/
  code : AlertCode
  /-- What happened. -/
  text : String
deriving DecidableEq

/-- An alert in one line. -/
def Alert.message (a : Alert) : String := a.code.name ++ ": " ++ a.text

end Airspace
