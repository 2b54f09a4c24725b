import Airspace.Table
import Airspace.Text.Line

/-! # Record volumes

  A volume holds the tables as contents of lines. It may not be mounted, a table
  may be missing or empty, and reading may fail: at once, at a line that is not
  well-formed text, or anywhere else because the medium fails. Opening a table gives
  a reading: the lines up to the first fault, if there is one. Every opening starts
  from the first line.
-/

namespace Airspace

/-- What a volume holds under the name of a table. -/
inductive Content
  /-- Text. -/
  | text (s : String)
  /-- Bytes that may or may not be text. -/
  | bytes (bs : List UInt8)
  /-- Bytes behind which reading fails, and why. -/
  | broken (bs : List UInt8) (cause : String)

/-- Something that opens but cannot be read, and why. -/
def Content.unreadable (cause : String) : Content := .broken [] cause

/-- A directory under the name of a table. -/
def Content.folder : Content := .unreadable "Is a directory (os error 21)"

/-- A volume with the tables on it. -/
structure Volume where
  /-- Whether the volume is there at all. -/
  mounted : Bool
  /-- What it holds for each table, if anything. -/
  table : Table → Option Content

namespace Volume

/-- A mounted volume without tables. -/
def empty : Volume := ⟨true, fun _ => none⟩

/-- A volume that is not mounted. -/
def unmounted : Volume := ⟨false, fun _ => none⟩

/-- The volume with a table set to a content. -/
def put (v : Volume) (t : Table) (c : Content) : Volume :=
  { v with table := fun u => if u = t then some c else v.table u }

/-- The volume without a table. -/
def drop (v : Volume) (t : Table) : Volume :=
  { v with table := fun u => if u = t then none else v.table u }

/-- The volume with a table set to lines of text. -/
def putLines (v : Volume) (t : Table) (lines : List String) : Volume :=
  v.put t (.text (String.ofList (Text.joinLines .ofChars (lines.map String.toList))))

end Volume

/-! ### Readings -/

/-- The lines of a table up to the first fault. -/
structure Reading where
  /-- The lines that can be read. -/
  lines : List String
  /-- Why reading stops after them, if it does not reach the end. -/
  fault : Option String

namespace Reading

/-- What is said of a line that is not well-formed text. -/
def notText : String := "stream did not contain valid UTF-8"

/-- Decodes lines one after the other, up to the first that is not well-formed. -/
def ofEncoded : List (List UInt8) → Reading
  | [] => ⟨[], none⟩
  | line :: rest =>
    match String.fromUTF8? ⟨line.toArray⟩ with
    | some s =>
      let r := ofEncoded rest
      ⟨s :: r.lines, r.fault⟩
    | none => ⟨[], some notText⟩

/-- The reading of a text. -/
def ofText (s : String) : Reading :=
  ⟨(Text.lines .ofChars s.toList).map String.ofList, none⟩

/-- The reading of bytes. -/
def ofBytes (bs : List UInt8) : Reading := ofEncoded (Text.lines .ofBytes bs)

/-- The reading of bytes behind which reading fails. A line that has not ended before
    is lost. -/
def ofBroken (bs : List UInt8) (cause : String) : Reading :=
  let r := ofBytes (Text.ended .ofBytes bs)
  ⟨r.lines, r.fault.or (some cause)⟩

end Reading

/-! ### Opening a table -/

/-- Why a table cannot be read. -/
inductive StorageFault
  /-- The volume is not mounted. -/
  | unmounted
  /-- The volume does not hold the table. -/
  | missing (t : Table)
  /-- The table has not a single byte. -/
  | empty (t : Table)
  /-- Reading fails. -/
  | unreadable (t : Table) (cause : String)
deriving DecidableEq

/-- What a storage fault says. -/
def StorageFault.message : StorageFault → String
  | unmounted => "record store is not mounted"
  | missing t => "table " ++ t.name ++ " not found"
  | empty t => "table " ++ t.name ++ " is empty"
  | unreadable t cause => "failed reading table " ++ t.name ++ ": " ++ cause

/-- The fault below a storage fault, if it wraps one. -/
def StorageFault.cause? : StorageFault → Option String
  | unreadable _ cause => some cause
  | _ => none

/-- Opens a table for reading from its first line. -/
def Volume.read (v : Volume) (t : Table) : Except StorageFault Reading :=
  if !v.mounted then .error .unmounted
  else match v.table t with
    | none => .error (.missing t)
    | some (.text s) => if s.isEmpty then .error (.empty t) else .ok (.ofText s)
    | some (.bytes bs) => if bs.isEmpty then .error (.empty t) else .ok (.ofBytes bs)
    | some (.broken bs cause) =>
      if bs.isEmpty then .error (.unreadable t cause) else .ok (.ofBroken bs cause)

end Airspace
