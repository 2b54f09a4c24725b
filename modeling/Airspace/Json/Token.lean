import Airspace.Json.Value

/-! # JSON tokens

  The text is read character by character. Blanks between tokens are the space, the
  tab, the line feed and the carriage return only; a control character inside a
  text is refused.
-/

namespace Airspace

/-- A token of JSON text. -/
inductive JsonToken
  | beginArray
  | endArray
  | beginObject
  | endObject
  | colon
  | comma
  /-- A value that is not built from others. -/
  | scalar (j : Json)

namespace JsonToken

/-- What the character before left open. -/
inductive Mode
  /-- Between tokens. -/
  | between
  /-- In a number, its characters last first. -/
  | number (cs : List Char)
  /-- In a word, its characters last first. -/
  | word (cs : List Char)
  /-- In a text, its units last first. -/
  | text (us : List Nat)
  /-- After a backslash in a text. -/
  | escape (us : List Nat)
  /-- In an escape by code: the digits to come and the value of those read. -/
  | code (us : List Nat) (left value : Nat)

/-- A scan in progress. -/
structure Scan where
  /-- What is open. -/
  mode : Mode
  /-- The tokens before, last first. -/
  tokens : List JsonToken

/-- The value of a word. -/
def ofWord? (cs : List Char) : Option JsonToken :=
  match String.ofList cs with
  | "null" => some (.scalar .null)
  | "true" => some (.scalar (.bool true))
  | "false" => some (.scalar (.bool false))
  | _ => none

/-- The value of a hexadecimal digit. -/
def hexValue? (c : Char) : Option Nat :=
  if c.isDigit then some (c.toNat - '0'.toNat)
  else if 'a' ≤ c && c ≤ 'f' then some (c.toNat - 'a'.toNat + 10)
  else if 'A' ≤ c && c ≤ 'F' then some (c.toNat - 'A'.toNat + 10)
  else none

/-- The character that a one-letter escape stands for. -/
def escaped? (c : Char) : Option Nat :=
  match c with
  | '"' => some c.toNat
  | '\\' => some c.toNat
  | '/' => some c.toNat
  | 'b' => some 8
  | 'f' => some 12
  | 'n' => some 10
  | 'r' => some 13
  | 't' => some 9
  | _ => none

/-- Whether a character goes on with a number. -/
def inNumber (c : Char) : Bool :=
  c.isDigit || c == '+' || c == '-' || c == '.' || c == 'e' || c == 'E'

namespace Scan

/-- Ends a number or a word. -/
def settle? (s : Scan) : Option Scan :=
  match s.mode with
  | .number cs =>
    (JsonNumber.read? cs.reverse).map fun n => ⟨.between, .scalar (.number n) :: s.tokens⟩
  | .word cs => (ofWord? cs.reverse).map fun t => ⟨.between, t :: s.tokens⟩
  | _ => some s

/-- Takes a character between tokens. -/
def begin? (tokens : List JsonToken) (c : Char) : Option Scan :=
  match c with
  | ' ' | '\t' | '\n' | '\r' => some ⟨.between, tokens⟩
  | '[' => some ⟨.between, .beginArray :: tokens⟩
  | ']' => some ⟨.between, .endArray :: tokens⟩
  | '\x7b' => some ⟨.between, .beginObject :: tokens⟩
  | '\x7d' => some ⟨.between, .endObject :: tokens⟩
  | ':' => some ⟨.between, .colon :: tokens⟩
  | ',' => some ⟨.between, .comma :: tokens⟩
  | '"' => some ⟨.text [], tokens⟩
  | _ =>
    if c.isDigit || c == '-' then some ⟨.number [c], tokens⟩
    else if c.isAlpha then some ⟨.word [c], tokens⟩
    else none

/-- Takes one more character. -/
def step? (s : Scan) (c : Char) : Option Scan :=
  match s.mode with
  | .between => begin? s.tokens c
  | .number cs =>
    if inNumber c then some ⟨.number (c :: cs), s.tokens⟩
    else s.settle?.bind fun s => begin? s.tokens c
  | .word cs =>
    if c.isAlphanum then some ⟨.word (c :: cs), s.tokens⟩
    else s.settle?.bind fun s => begin? s.tokens c
  | .text us =>
    if c == '"' then some ⟨.between, .scalar (.text (.ofUnits us.reverse)) :: s.tokens⟩
    else if c == '\\' then some ⟨.escape us, s.tokens⟩
    else if c.toNat < 0x20 then none
    else some ⟨.text (c.toNat :: us), s.tokens⟩
  | .escape us =>
    if c == 'u' then some ⟨.code us 4 0, s.tokens⟩
    else (escaped? c).map fun u => ⟨.text (u :: us), s.tokens⟩
  | .code us left value =>
    (hexValue? c).map fun d =>
      if left ≤ 1 then ⟨.text ((16 * value + d) :: us), s.tokens⟩
      else ⟨.code us (left - 1) (16 * value + d), s.tokens⟩

/-- The tokens at the end of the text, unless something is open. -/
def finish? (s : Scan) : Option (List JsonToken) :=
  s.settle?.bind fun s =>
    match s.mode with
    | .between => some s.tokens.reverse
    | _ => none

end Scan

/-- The tokens of a text. -/
def scan? (cs : List Char) : Option (List JsonToken) :=
  (cs.foldlM Scan.step? ⟨.between, []⟩).bind Scan.finish?

end JsonToken

end Airspace
