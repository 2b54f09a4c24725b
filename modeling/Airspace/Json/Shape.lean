import Airspace.Json.Tree

/-! # Values of fixed shape

  Records, names and numbers are read from JSON without coercions. A record is an
  object, or an array of its fields in their order. In an object, unknown members
  are passed over whatever they hold, but a known one may not repeat, and every key
  has to be readable. A name may stand as the only key of an object, beside null.
-/

namespace Airspace.Json

/-- A truth value. -/
def bool? : Json → Option Bool
  | bool b => some b
  | _ => none

/-- A text. -/
def string? : Json → Option String
  | text t => t
  | _ => none

/-- A number as a double, in a way of rounding. -/
def float? (rounding : JsonNumber.Rounding) : Json → Option Float
  | number n => rounding n
  | _ => none

/-- A natural number below `bound`, written with digits alone. -/
def nat? (bound : Nat) : Json → Option Nat
  | number n =>
    if n.plain && !n.value.negative && n.value.digits < bound then some n.value.digits else none
  | _ => none

/-- A value or null. -/
def optional {α : Type} (read : Json → Option α) : Json → Option (Option α)
  | null => some none
  | j => (read j).map some

/-- One of the values of a type, by its name. -/
def named? {α : Type} (name : α → String) (all : List α) : Json → Option α
  | text (some s) => all.find? fun a => name a == s
  | object [(some s, null)] => all.find? fun a => name a == s
  | _ => none

/-! ### Records -/

/-- The only member with a key, or `none` if there is none; a second one is refused. -/
def member? (members : List (JsonText × Json)) (key : String) : Option (Option Json) :=
  match members.filter fun m => m.1 == some key with
  | [] => some none
  | [m] => some (some m.2)
  | _ => none

/-- The fields of a record by their names. As an array a record may be without as
    many of its last fields as `spare` says. -/
def fields? (names : List String) (spare : Nat) : Json → Option (List (Option Json))
  | array items =>
    if items.length ≤ names.length && names.length ≤ items.length + spare then
      some (items.map some ++ List.replicate (names.length - items.length) none)
    else none
  | object members =>
    if members.all fun m => m.1.isSome then names.mapM (member? members) else none
  | _ => none

/-- A field that has to be there. -/
def required {α : Type} (read : Json → Option α) (field : Option Json) : Option α :=
  field.bind read

/-- A field that may be null or missing. -/
def possible {α : Type} (read : Json → Option α) (field : Option Json) : Option (Option α) :=
  match field with
  | none => some none
  | some j => optional read j

end Airspace.Json
