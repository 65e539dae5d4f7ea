import BoundQuery.Json.Parts
import BoundQuery.Text.Blank
import BoundQuery.Text.Numeral

/-!
# Page requests

A request names a page, its size, a search term, filters and an ordering. Page and size may be
numbers or numerals; anything else, and anything below one, stands for the default. Both, and the
number of rows before the page, are at most the largest signed 64-bit integer.
-/

namespace BoundQuery
set_option autoImplicit false

structure PageRequest where
  page : Option UInt64 := none
  limit : Option UInt64 := none
  search : Option String := none
  filters : List (String × Json) := []
  sorting : List (String × String) := []
  deriving Repr

namespace PageRequest

def defaultPage : UInt64 := 1

def defaultLimit : UInt64 := 10

def maxRows : UInt64 := 9223372036854775807

/-- A number from one on, or else a default, and at most `maxRows`. -/
def effective (asked : Option UInt64) (default : UInt64) : UInt64 :=
  min ((asked.filter (1 ≤ ·)).getD default) maxRows

def pageNumber (r : PageRequest) : UInt64 := effective r.page defaultPage

def pageSize (r : PageRequest) : UInt64 := effective r.limit defaultLimit

/-- A product, or the largest number if the product is larger. -/
def saturatingMul (a b : UInt64) : UInt64 :=
  if a.toNat * b.toNat ≤ Text.uint64Max then a * b else UInt64.ofNat Text.uint64Max

def offset (r : PageRequest) : UInt64 := min (saturatingMul (r.pageNumber - 1) r.pageSize) maxRows

/-- A number or a numeral; anything else counts as left out. -/
def countOf : Json → Option UInt64
  | .string s => (Text.readUInt64 (Text.trim s)).toOption
  | value => value.toUInt64?

def count? : Option Document → Option (Option UInt64)
  | none => some none
  | some document => document.value?.map countOf

def term? : Option Document → Option (Option String)
  | none | some .null => some none
  | some document => document.string?.map some

def filters? : Option Document → Option (List (String × Json))
  | none => some []
  | some document => document.pairs? Document.value?

def sorting? : Option Document → Option (List (String × String))
  | none => some []
  | some document => document.pairs? Document.string?

def ofDocument? (document : Document) : Option PageRequest :=
  match document.parts? ["page", "limit", "search", "filters", "sorting"] with
  | some [page, limit, search, filters, sorting] =>
    match count? page, count? limit, term? search, filters? filters, sorting? sorting with
    | some page, some limit, some search, some filters, some sorting =>
      some ⟨page, limit, search, filters, sorting⟩
    | _, _, _, _, _ => none
  | _ => none

def ofText? (s : String) : Option PageRequest := (Document.ofText? s).bind ofDocument?

def ofPage (page limit : UInt64) : PageRequest := { page := some page, limit := some limit }

def withSearch (r : PageRequest) (term : String) : PageRequest := { r with search := some term }

def withFilter (r : PageRequest) (column : String) (value : Json) : PageRequest :=
  { r with filters := r.filters ++ [(column, value)] }

def withSort (r : PageRequest) (column direction : String) : PageRequest :=
  { r with sorting := r.sorting ++ [(column, direction)] }

end PageRequest

end BoundQuery
