import BoundQuery.Json.Document
import BoundQuery.Bytes

/-!
# Reading JSON

The strict grammar: no comments, no trailing commas, no leading zeros, four kinds of blank. Arrays
and objects that nest deeper than 127 levels are passed over: they follow the grammar, but nothing
of them is kept. Every reader takes the characters that are left and returns what it found with the
rest.
-/

namespace BoundQuery.Document
set_option autoImplicit false

def maxDepth : Nat := 127

def isSpace (c : Char) : Bool := c == ' ' || c == '\t' || c == '\n' || c == '\r'

def skipSpace (cs : List Char) : List Char := cs.dropWhile isSpace

/-- A part of a string: a character, or a code unit from an escape. -/
inductive Unit16 where
  | char (c : Char)
  | unit (n : Nat)

def readUnit? : List Char → Option (Nat × List Char)
  | a :: b :: c :: d :: rest =>
    match Bytes.hexValue? a, Bytes.hexValue? b, Bytes.hexValue? c, Bytes.hexValue? d with
    | some a, some b, some c, some d => some (((a * 16 + b) * 16 + c) * 16 + d, rest)
    | _, _, _, _ => none
  | _ => none

def escaped? (c : Char) : Option Char :=
  if c = '\x22' ∨ c = '\\' ∨ c = '/' then some c
  else if c = 'b' then some '\x08'
  else if c = 'f' then some '\x0c'
  else if c = 'n' then some '\n'
  else if c = 'r' then some '\r'
  else if c = 't' then some '\t'
  else none

def readParts? : Nat → List Char → Option (List Unit16 × List Char)
  | 0, _ => none
  | fuel + 1, cs =>
    match cs with
    | [] => none
    | '\x22' :: rest => some ([], rest)
    | '\\' :: 'u' :: rest =>
      match readUnit? rest with
      | none => none
      | some (n, rest) => (readParts? fuel rest).map fun (parts, rest) => (.unit n :: parts, rest)
    | '\\' :: c :: rest =>
      match escaped? c with
      | none => none
      | some d => (readParts? fuel rest).map fun (parts, rest) => (.char d :: parts, rest)
    | c :: rest =>
      if c.toNat < 0x20 ∨ c = '\\' then none
      else (readParts? fuel rest).map fun (parts, rest) => (.char c :: parts, rest)

/-- Puts surrogate pairs together; nothing if a half stands alone. -/
def joinParts? : List Unit16 → Option (List Char)
  | [] => some []
  | .char c :: rest => (joinParts? rest).map (c :: ·)
  | .unit n :: rest =>
    if 0xDC00 ≤ n ∧ n < 0xE000 then none
    else if 0xD800 ≤ n ∧ n < 0xDC00 then
      match rest with
      | .unit low :: rest =>
        if 0xDC00 ≤ low ∧ low < 0xE000 then
          (joinParts? rest).map (Char.ofNat (0x10000 + (n - 0xD800) * 0x400 + (low - 0xDC00)) :: ·)
        else none
      | _ => none
    else (joinParts? rest).map (Char.ofNat n :: ·)

def readString? (cs : List Char) : Option (Option String × List Char) :=
  (readParts? (cs.length + 1) cs).map fun (parts, rest) => ((joinParts? parts).map .ofList, rest)

def readExponent? (cs : List Char) : Option (Option Int × List Char) :=
  let digits (negative : Bool) (cs : List Char) : Option (Option Int × List Char) :=
    let ds := cs.takeWhile Char.isDigit
    if ds.isEmpty then none
    else
      let n : Int := digitsValue ds
      some (some (if negative then -n else n), cs.dropWhile Char.isDigit)
  match cs with
  | c :: rest =>
    if c = 'e' ∨ c = 'E' then
      match rest with
      | '+' :: rest => digits false rest
      | '-' :: rest => digits true rest
      | _ => digits false rest
    else some (none, cs)
  | [] => some (none, [])

def readUnsigned? (negative : Bool) (cs : List Char) : Option (Spelling × List Char) :=
  let whole :=
    match cs with
    | '0' :: _ => ['0']
    | _ => cs.takeWhile Char.isDigit
  let rest := cs.drop whole.length
  if whole.isEmpty then none
  else
    let finish (fraction rest : List Char) : Option (Spelling × List Char) :=
      (readExponent? rest).map fun (exponent, rest) => (⟨negative, whole, fraction, exponent⟩, rest)
    match rest with
    | '.' :: tail =>
      let fraction := tail.takeWhile Char.isDigit
      if fraction.isEmpty then none else finish fraction (tail.dropWhile Char.isDigit)
    | _ => finish [] rest

def readNumber? : List Char → Option (Spelling × List Char)
  | '-' :: rest => readUnsigned? true rest
  | cs => readUnsigned? false cs

def readScalar? : List Char → Option (Document × List Char)
  | 'n' :: 'u' :: 'l' :: 'l' :: rest => some (.null, rest)
  | 't' :: 'r' :: 'u' :: 'e' :: rest => some (.bool true, rest)
  | 'f' :: 'a' :: 'l' :: 's' :: 'e' :: rest => some (.bool false, rest)
  | '\x22' :: rest => (readString? rest).map fun (s, rest) => (.string s, rest)
  | cs => (readNumber? cs).map fun (n, rest) => (.number n, rest)

def readKey? (cs : List Char) : Option (Option String × List Char) :=
  match skipSpace cs with
  | '\x22' :: rest =>
    match readString? rest with
    | none => none
    | some (key, rest) =>
      match skipSpace rest with
      | ':' :: rest => some (key, rest)
      | _ => none
  | _ => none

/-- What has to come next in a text that is passed over. -/
inductive Expected where
  | value
  /-- What may stand behind an opening bracket: a value or a key, or the closing bracket. -/
  | opened
  /-- What may stand behind a value: a comma or a closing bracket, if there are open ones. -/
  | more
  deriving DecidableEq, Repr

inductive Bracket where
  | square
  | curly
  deriving DecidableEq, Repr

namespace Bracket

def opening : Bracket → Char
  | square => '['
  | curly => '\x7b'

def closing : Bracket → Char
  | square => ']'
  | curly => '\x7d'

def opened? (c : Char) : Option Bracket :=
  if c = opening square then some square else if c = opening curly then some curly else none

end Bracket

/-- Passes a value inside brackets, for an object with its key in front. -/
def passKey? : Bracket → List Char → Option (List Char)
  | .square, cs => some cs
  | .curly, cs => (readKey? cs).map (·.2)

/-- Passes over one value, however deeply it nests. The brackets are those that are open. -/
def pass? : Nat → Expected → List Bracket → List Char → Option (List Char)
  | _, .more, [], cs => some cs
  | 0, _, _, _ => none
  | fuel + 1, .more, bracket :: outer, cs =>
    match skipSpace cs with
    | ',' :: rest => (passKey? bracket rest).bind (pass? fuel .value (bracket :: outer))
    | c :: rest => if c = bracket.closing then pass? fuel .more outer rest else none
    | [] => none
  | fuel + 1, .opened, bracket :: outer, cs =>
    match skipSpace cs with
    | c :: rest =>
      if c = bracket.closing then pass? fuel .more outer rest
      else (passKey? bracket (c :: rest)).bind (pass? fuel .value (bracket :: outer))
    | [] => none
  | fuel + 1, _, brackets, cs =>
    match skipSpace cs with
    | c :: rest =>
      match Bracket.opened? c with
      | some bracket => pass? fuel .opened (bracket :: brackets) rest
      | none => (readScalar? (c :: rest)).bind fun found => pass? fuel .more brackets found.2
    | [] => none

mutual

/-- A value, after blanks, within `depth` further levels. -/
def read? : Nat → Nat → List Char → Option (Document × List Char)
  | 0, _, _ => none
  | fuel + 1, depth, cs =>
    match skipSpace cs with
    | '[' :: rest =>
      match depth, skipSpace rest with
      | 0, _ => (pass? fuel .opened [.square] rest).map fun rest => (.tooDeep, rest)
      | _ + 1, ']' :: rest => some (.array [], rest)
      | depth + 1, _ => (readItems? fuel depth rest).map fun (items, rest) => (.array items, rest)
    | '\x7b' :: rest =>
      match depth, skipSpace rest with
      | 0, _ => (pass? fuel .opened [.curly] rest).map fun rest => (.tooDeep, rest)
      | _ + 1, '\x7d' :: rest => some (.object [], rest)
      | depth + 1, _ =>
        (readFields? fuel depth rest).map fun (fields, rest) => (.object fields, rest)
    | cs => readScalar? cs

def readItems? : Nat → Nat → List Char → Option (List Document × List Char)
  | 0, _, _ => none
  | fuel + 1, depth, cs =>
    match read? fuel depth cs with
    | none => none
    | some (item, rest) =>
      match skipSpace rest with
      | ',' :: rest => (readItems? fuel depth rest).map fun (items, rest) => (item :: items, rest)
      | ']' :: rest => some ([item], rest)
      | _ => none

def readFields? : Nat → Nat → List Char → Option (List (Option String × Document) × List Char)
  | 0, _, _ => none
  | fuel + 1, depth, cs =>
    match readKey? cs with
    | none => none
    | some (key, rest) =>
      match read? fuel depth rest with
      | none => none
      | some (item, rest) =>
        match skipSpace rest with
        | ',' :: rest =>
          (readFields? fuel depth rest).map fun (fields, rest) => ((key, item) :: fields, rest)
        | '\x7d' :: rest => some ([(key, item)], rest)
        | _ => none

end

def ofText? (s : String) : Option Document :=
  let cs := s.toList
  match read? (2 * cs.length + 2) maxDepth cs with
  | some (document, rest) => if (skipSpace rest).isEmpty then some document else none
  | none => none

end BoundQuery.Document

namespace BoundQuery
set_option autoImplicit false

def Json.ofText? (s : String) : Option Json := (Document.ofText? s).bind Document.value?

end BoundQuery
