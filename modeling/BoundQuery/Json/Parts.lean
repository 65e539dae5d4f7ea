import BoundQuery.Json.Reader

/-!
# Records in JSON

A record is written as an object, or as an array of its parts in order with the last ones left out.
In an object other members are passed over without a look at their values, but a part must not occur
twice.
-/

namespace BoundQuery.Document
set_option autoImplicit false

/-- The one member with a name, if there is one; nothing if there are several. -/
def member? (fields : List (Option String × Document)) (name : String) : Option (Option Document) :=
  match fields.filter (·.1 == some name) with
  | [] => some none
  | [(_, document)] => some (some document)
  | _ => none

/-- The parts of a record by their names; a part that is left out is `none`. -/
def parts? (names : List String) : Document → Option (List (Option Document))
  | .array items =>
    if items.length ≤ names.length then
      some (items.map some ++ List.replicate (names.length - items.length) none)
    else none
  | .object fields =>
    if fields.all (·.1.isSome) then names.mapM (member? fields) else none
  | _ => none

def string? : Document → Option String
  | .string s => s
  | _ => none

def bool? : Document → Option Bool
  | .bool b => some b
  | _ => none

/-- The members of an object in the order of the text, each read by a function; null has none. -/
def pairs? {α : Type} (read : Document → Option α) : Document → Option (List (String × α))
  | .null => some []
  | .object fields =>
    fields.mapM fun (key, document) =>
      match key, read document with
      | some k, some v => some (k, v)
      | _, _ => none
  | _ => none

end BoundQuery.Document
