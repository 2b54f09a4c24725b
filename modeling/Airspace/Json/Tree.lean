import Airspace.Json.Token

/-! # JSON trees

  Tokens are put together to one value with a stack of the arrays and objects that
  are open, so no depth of nesting is too deep.
-/

namespace Airspace.Json

/-- An array or object that is open. -/
inductive Frame
  /-- An array, with its items last first. -/
  | array (items : List Json)
  /-- An object between members, with its members last first. -/
  | object (members : List (JsonText × Json))
  /-- An object in which the value of a key is to come. -/
  | member (members : List (JsonText × Json)) (key : JsonText)

/-- What may come next. -/
inductive Need
  /-- A value; or, if the array has just begun, its end. -/
  | value (fresh : Bool)
  /-- A key; or, if the object has just begun, its end. -/
  | key (fresh : Bool)
  /-- The colon after a key. -/
  | colon
  /-- A comma or an end, after a value. -/
  | next

/-- A tree in progress. -/
structure Growth where
  /-- What is open, innermost first. -/
  stack : List Frame
  /-- What may come next. -/
  need : Need
  /-- The whole value, once it is complete. -/
  root : Option Json

namespace Growth

/-- Puts a complete value where it belongs. -/
def place? (stack : List Frame) (j : Json) : Option Growth :=
  match stack with
  | [] => some ⟨[], .next, some j⟩
  | .array items :: below => some ⟨.array (j :: items) :: below, .next, none⟩
  | .member members key :: below => some ⟨.object ((key, j) :: members) :: below, .next, none⟩
  | .object _ :: _ => none

/-- Ends the innermost array. -/
def endArray? : List Frame → Option Growth
  | .array items :: below => place? below (.array items.reverse)
  | _ => none

/-- Ends the innermost object. -/
def endObject? : List Frame → Option Growth
  | .object members :: below => place? below (.object members.reverse)
  | _ => none

/-- Takes one more token. -/
def step? (g : Growth) (t : JsonToken) : Option Growth :=
  match g.need, t with
  | .value _, .scalar j => place? g.stack j
  | .value _, .beginArray => some ⟨.array [] :: g.stack, .value true, none⟩
  | .value _, .beginObject => some ⟨.object [] :: g.stack, .key true, none⟩
  | .value true, .endArray => endArray? g.stack
  | .key _, .scalar (.text key) =>
    match g.stack with
    | .object members :: below => some ⟨.member members key :: below, .colon, none⟩
    | _ => none
  | .key true, .endObject => endObject? g.stack
  | .colon, .colon => some { g with need := .value false }
  | .next, .comma =>
    match g.stack with
    | .array _ :: _ => some { g with need := .value false }
    | .object _ :: _ => some { g with need := .key false }
    | _ => none
  | .next, .endArray => endArray? g.stack
  | .next, .endObject => endObject? g.stack
  | _, _ => none

end Growth

/-- The value that the tokens spell, if they spell exactly one. -/
def ofTokens? (ts : List JsonToken) : Option Json :=
  (ts.foldlM Growth.step? ⟨[], .value false, none⟩).bind Growth.root

/-- Reads a JSON text. -/
def read? (cs : List Char) : Option Json := (JsonToken.scan? cs).bind ofTokens?

end Airspace.Json
