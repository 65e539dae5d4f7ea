import BoundQuery.Toml.Scalar

/-!
# Tables that stand for moments

A table within a document stands for a moment if the first of its keys, in their order, is a certain
one. Then the value of that key is the text of a date, a time or both, and nothing else in the table
is looked at. A document with such a table but without such a text is refused.
-/

namespace BoundQuery.Toml
set_option autoImplicit false

/-- The key of a table that stands for a moment. -/
def momentKey : String := "$__toml_private_datetime"

def isMomentText : Toml → Bool
  | .string s => isMoment s.toList
  | _ => false

/-- The value of the key for a moment, if no key comes before it. -/
def moment? (entries : Entries) : Option Toml :=
  if entries.any fun entry => entry.1 < momentKey then none else entries.lookup momentKey

mutual

/-- Whether every table in a value that stands for a moment has its text. -/
def hasMoments : Toml → Bool
  | .array items => itemsHaveMoments items
  | .table _ entries =>
    match moment? entries with
    | some value => isMomentText value
    | none => entriesHaveMoments entries
  | .tables items => tablesHaveMoments items
  | _ => true

def itemsHaveMoments : List Toml → Bool
  | [] => true
  | item :: rest => hasMoments item && itemsHaveMoments rest

def entriesHaveMoments : List (String × Toml) → Bool
  | [] => true
  | (_, value) :: rest => hasMoments value && entriesHaveMoments rest

def tablesHaveMoments : List (List (String × Toml)) → Bool
  | [] => true
  | entries :: rest =>
    (match moment? entries with
      | some value => isMomentText value
      | none => entriesHaveMoments entries)
    && tablesHaveMoments rest

end

end BoundQuery.Toml
