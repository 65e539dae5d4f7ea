import BoundQuery.Toml.Moment

/-!
# Reading TOML

Lines end with a line feed, before which a carriage return may stand; no other control character
occurs, except tabs. Tables in braces may go over several lines and end with a comma, as arrays may.
Arrays and such tables nest up to 80 levels, and a key has up to 80 parts. Every reader takes the
characters that are left and returns what it found with the rest.
-/

namespace BoundQuery.Toml
set_option autoImplicit false

/-- The deepest nesting of arrays and tables in braces, and the longest key in its parts. -/
def maxDepth : Nat := 80

def isControl (c : Char) : Bool := (c.toNat < 0x20 && c != '\t') || c.toNat == 0x7F

def isSpace (c : Char) : Bool := c == ' ' || c == '\t'

def skipSpace (cs : List Char) : List Char := cs.dropWhile isSpace

/-- Drops spaces, line ends and comments at the front; `comment` says that a comment has begun. -/
def skipGap? (comment : Bool) : List Char → Option (List Char)
  | [] => some []
  | '\r' :: '\n' :: rest => skipGap? false rest
  | c :: rest =>
    if c = '\n' then skipGap? false rest
    else if comment then
      if isControl c then none else skipGap? true rest
    else if isSpace c then skipGap? false rest
    else if c = '#' then skipGap? true rest
    else some (c :: rest)

/-- Drops what may follow on a line, and its end; `comment` says that a comment has begun. -/
def endLine? (comment : Bool) : List Char → Option (List Char)
  | [] => some []
  | '\r' :: '\n' :: rest => some rest
  | c :: rest =>
    if c = '\n' then some rest
    else if comment then
      if isControl c then none else endLine? true rest
    else if isSpace c then endLine? false rest
    else if c = '#' then endLine? true rest
    else none

def readCode? (count : Nat) (cs : List Char) : Option (Char × List Char) :=
  let digits := cs.take count
  if digits.length = count ∧ digits.all fun c => (Bytes.hexValue? c).isSome then
    let n := baseValue 16 digits
    if n.isValidChar then some (Char.ofNat n, cs.drop count) else none
  else none

def readEscape? : List Char → Option (Char × List Char)
  | 'x' :: rest => readCode? 2 rest
  | 'u' :: rest => readCode? 4 rest
  | 'U' :: rest => readCode? 8 rest
  | c :: rest =>
    if c = '\x22' ∨ c = '\\' then some (c, rest)
    else if c = 'b' then some ('\x08', rest)
    else if c = 't' then some ('\t', rest)
    else if c = 'n' then some ('\n', rest)
    else if c = 'f' then some ('\x0c', rest)
    else if c = 'r' then some ('\r', rest)
    else if c = 'e' then some ('\x1b', rest)
    else none
  | [] => none

def readBasic? : Nat → List Char → Option (List Char × List Char)
  | 0, _ => none
  | fuel + 1, cs =>
    match cs with
    | [] => none
    | '\x22' :: rest => some ([], rest)
    | '\\' :: rest =>
      match readEscape? rest with
      | none => none
      | some (c, rest) => (readBasic? fuel rest).map fun (text, rest) => (c :: text, rest)
    | c :: rest =>
      if isControl c then none
      else (readBasic? fuel rest).map fun (text, rest) => (c :: text, rest)

def readLiteral? : List Char → Option (List Char × List Char)
  | [] => none
  | c :: rest =>
    if c = '\'' then some ([], rest)
    else if isControl c then none
    else (readLiteral? rest).map fun (text, rest) => (c :: text, rest)

/-- The quotes before three closing quotes, of which there are at most two, and the rest. -/
def closing? (quote : Char) (cs : List Char) : Option (List Char × List Char) :=
  let run := (cs.take 5).takeWhile (· == quote)
  if run.length < 3 then none else some (run.drop 3, cs.drop run.length)

def skipLines : List Char → List Char
  | '\r' :: '\n' :: rest => skipLines rest
  | c :: rest => if isSpace c || c == '\n' then skipLines rest else c :: rest
  | [] => []

/-- The text behind a backslash at the end of a line: the line end and all blanks are left out. -/
def continued? (cs : List Char) : Option (List Char) :=
  match skipSpace cs with
  | '\n' :: rest => some (skipLines rest)
  | '\r' :: '\n' :: rest => some (skipLines rest)
  | _ => none

def readLongBasic? : Nat → List Char → Option (List Char × List Char)
  | 0, _ => none
  | fuel + 1, cs =>
    match closing? '\x22' cs, cs with
    | some found, _ => some found
    | none, [] => none
    | none, '\\' :: rest =>
      match continued? rest with
      | some rest => readLongBasic? fuel rest
      | none =>
        match readEscape? rest with
        | none => none
        | some (c, rest) => (readLongBasic? fuel rest).map fun (text, rest) => (c :: text, rest)
    | none, '\r' :: '\n' :: rest =>
      (readLongBasic? fuel rest).map fun (text, rest) => ('\r' :: '\n' :: text, rest)
    | none, c :: rest =>
      if isControl c ∧ c ≠ '\n' then none
      else (readLongBasic? fuel rest).map fun (text, rest) => (c :: text, rest)

def readLongLiteral? (cs : List Char) : Option (List Char × List Char) :=
  match closing? '\'' cs, cs with
  | some found, _ => some found
  | none, [] => none
  | none, '\r' :: '\n' :: rest =>
    (readLongLiteral? rest).map fun (text, rest) => ('\r' :: '\n' :: text, rest)
  | none, c :: rest =>
    if isControl c ∧ c ≠ '\n' then none
    else (readLongLiteral? rest).map fun (text, rest) => (c :: text, rest)

def skipLineEnd : List Char → List Char
  | '\n' :: rest => rest
  | '\r' :: '\n' :: rest => rest
  | cs => cs

def readString? (cs : List Char) : Option (List Char × List Char) :=
  match cs with
  | '\x22' :: '\x22' :: '\x22' :: rest => readLongBasic? cs.length (skipLineEnd rest)
  | '\'' :: '\'' :: '\'' :: rest => readLongLiteral? (skipLineEnd rest)
  | '\x22' :: rest => readBasic? cs.length rest
  | '\'' :: rest => readLiteral? rest
  | _ => none

def isKeyChar (c : Char) : Bool := c.isAlphanum || c == '_' || c == '-'

def readPlainKey? (cs : List Char) : Option (List Char × List Char) :=
  match cs with
  | '\x22' :: rest => readBasic? cs.length rest
  | '\'' :: rest => readLiteral? rest
  | _ =>
    let key := cs.takeWhile isKeyChar
    if key.isEmpty then none else some (key, cs.drop key.length)

/-- A key of up to so many parts with the spaces around it and its points. -/
def readParts? : Nat → List Char → Option (List String × List Char)
  | 0, _ => none
  | count + 1, cs =>
    match readPlainKey? (skipSpace cs) with
    | none => none
    | some (key, rest) =>
      match skipSpace rest with
      | '.' :: rest => (readParts? count rest).map fun (path, rest) => (.ofList key :: path, rest)
      | rest => some ([.ofList key], rest)

def readKey? (cs : List Char) : Option (List String × List Char) := readParts? maxDepth cs

def isScalarChar (c : Char) : Bool :=
  c.isAlphanum || c == '_' || c == '+' || c == '-' || c == '.' || c == ':'

/-- A value without quotes; a single space may part a date from a time. -/
def readBare? (cs : List Char) : Option (Toml × List Char) :=
  let run := cs.takeWhile isScalarChar
  let rest := cs.drop run.length
  let longer :=
    match skipDate? run, rest with
    | some [], ' ' :: c :: more => if c.isDigit then c :: more.takeWhile isScalarChar else []
    | _, _ => []
  if longer.isEmpty then (readScalar? run).map fun value => (value, rest)
  else (readScalar? (run ++ ' ' :: longer)).map fun value => (value, rest.drop (longer.length + 1))

/-- The key of a pair in braces, with what may stand around the equals sign behind it. -/
def readPairKey? (cs : List Char) : Option (List String × List Char) :=
  match readKey? cs with
  | none => none
  | some (path, rest) =>
    match skipGap? false rest with
    | some ('=' :: rest) => (skipGap? false rest).map fun rest => (path, rest)
    | _ => none

mutual

def readValue? : Nat → Nat → List Char → Option (Toml × List Char)
  | 0, _, _ => none
  | fuel + 1, depth, cs =>
    match cs with
    | '[' :: rest =>
      match depth with
      | 0 => none
      | depth + 1 => (readItems? fuel depth rest).map fun (items, rest) => (.array items, rest)
    | '\x7b' :: rest =>
      match depth with
      | 0 => none
      | depth + 1 =>
        match readPairs? fuel depth rest with
        | none => none
        | some (pairs, rest) =>
          (Entries.ofPairs? pairs []).map fun entries => (.table .inline entries, rest)
    | _ =>
      match readString? cs with
      | some (text, rest) => some (.string (.ofList text), rest)
      | none => readBare? cs

def readItems? : Nat → Nat → List Char → Option (List Toml × List Char)
  | 0, _, _ => none
  | fuel + 1, depth, cs =>
    match skipGap? false cs with
    | some (']' :: rest) => some ([], rest)
    | some cs =>
      match readValue? fuel depth cs with
      | none => none
      | some (item, rest) =>
        match skipGap? false rest with
        | some (',' :: rest) =>
          (readItems? fuel depth rest).map fun (items, rest) => (item :: items, rest)
        | some (']' :: rest) => some ([item], rest)
        | _ => none
    | none => none

def readPairs? : Nat → Nat → List Char → Option (List (List String × Toml) × List Char)
  | 0, _, _ => none
  | fuel + 1, depth, cs =>
    match skipGap? false cs with
    | some ('\x7d' :: rest) => some ([], rest)
    | some cs =>
      match readPairKey? cs with
      | none => none
      | some (path, rest) =>
        match readValue? fuel depth rest with
        | none => none
        | some (value, rest) =>
          match skipGap? false rest with
          | some (',' :: rest) =>
            (readPairs? fuel depth rest).map fun (pairs, rest) => ((path, value) :: pairs, rest)
          | some ('\x7d' :: rest) => some ([(path, value)], rest)
          | _ => none
    | none => none

end

def readLines? : Nat → List Char → Option (List Line)
  | 0, _ => none
  | fuel + 1, cs =>
    match skipSpace cs with
    | [] => some []
    | '\n' :: rest => readLines? fuel rest
    | '\r' :: '\n' :: rest => readLines? fuel rest
    | '#' :: rest => (endLine? true rest).bind (readLines? fuel)
    | '[' :: '[' :: rest =>
      match readKey? rest with
      | some (path, ']' :: ']' :: rest) =>
        ((endLine? false rest).bind (readLines? fuel)).map (.repeatedHeader path :: ·)
      | _ => none
    | '[' :: rest =>
      match readKey? rest with
      | some (path, ']' :: rest) =>
        ((endLine? false rest).bind (readLines? fuel)).map (.header path :: ·)
      | _ => none
    | rest =>
      match readKey? rest with
      | some (path, '=' :: rest) =>
        match readValue? (2 * rest.length + 2) maxDepth (skipSpace rest) with
        | none => none
        | some (value, rest) =>
          ((endLine? false rest).bind (readLines? fuel)).map (.pair path value :: ·)
      | _ => none

/-- The table that a document holds; a byte order mark in front of it is skipped. -/
def ofText? (s : String) : Option Entries :=
  let cs :=
    match s.toList with
    | '\ufeff' :: rest => rest
    | cs => cs
  ((readLines? (cs.length + 1) cs).bind fun lines => Entries.ofLines? lines [] []).filter
    entriesHaveMoments

end BoundQuery.Toml
