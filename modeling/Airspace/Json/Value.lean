import Airspace.Json.Number

/-! # JSON values

  A value of JSON text, kept as it was written: numbers keep their digits, members
  stand in their order and may repeat a key. Escapes in a text may spell
  half of a surrogate pair; such a text is no string, but the JSON text around it
  is still well formed, so the value records only that it is not readable.
-/

namespace Airspace

/-- A text, or `none` if it holds half of a surrogate pair. -/
abbrev JsonText := Option String

/-- A JSON value. -/
inductive Json
  | null
  | bool (b : Bool)
  | number (n : JsonNumber)
  | text (t : JsonText)
  | array (items : List Json)
  | object (members : List (JsonText × Json))

/-! ### Texts -/

/-- Joins code points and halves of surrogate pairs to characters; `none` if a half
    is left alone. -/
def joinSurrogates : List Nat → Option (List Char)
  | [] => some []
  | [u] => if 0xD800 ≤ u && u < 0xE000 then none else some [Char.ofNat u]
  | u :: w :: rest =>
    if 0xD800 ≤ u && u < 0xDC00 then
      if 0xDC00 ≤ w && w < 0xE000 then
        (joinSurrogates rest).map (Char.ofNat (0x10000 + (u - 0xD800) * 0x400 + (w - 0xDC00)) :: ·)
      else none
    else if 0xDC00 ≤ u && u < 0xE000 then none
    else (joinSurrogates (w :: rest)).map (Char.ofNat u :: ·)

/-- The text of a list of code points and halves of surrogate pairs. -/
def JsonText.ofUnits (us : List Nat) : JsonText := (joinSurrogates us).map String.ofList

/-- The digit of a value below 16. -/
def hexDigit (n : Nat) : Char :=
  if n < 10 then Char.ofNat ('0'.toNat + n) else Char.ofNat ('a'.toNat + (n - 10))

/-- A character inside a quoted text. -/
def escapeChar (c : Char) : List Char :=
  match c with
  | '"' => ['\\', '"']
  | '\\' => ['\\', '\\']
  | '\n' => ['\\', 'n']
  | '\r' => ['\\', 'r']
  | '\t' => ['\\', 't']
  | _ =>
    if c.toNat == 8 then ['\\', 'b']
    else if c.toNat == 12 then ['\\', 'f']
    else if c.toNat < 0x20 then
      ['\\', 'u', '0', '0', hexDigit (c.toNat / 16), hexDigit (c.toNat % 16)]
    else [c]

/-- A text in quotes. -/
def quoteJson (s : String) : String :=
  String.ofList ('"' :: s.toList.flatMap escapeChar ++ ['"'])

end Airspace
