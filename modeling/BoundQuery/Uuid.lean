import BoundQuery.Bytes

/-!
# Universally unique identifiers

An identifier is sixteen bytes. It is read from 32 hexadecimal digits, or from digits in five groups
with hyphens between them, which may stand in braces or behind `urn:uuid:`.
-/

namespace BoundQuery
set_option autoImplicit false

structure Uuid where
  bytes : Bytes
  deriving DecidableEq, Repr

namespace Uuid

def groupLengths : List Nat := [8, 4, 4, 4, 12]

def ofDigits? (cs : List Char) : Option Uuid :=
  if cs.length = 32 then (Bytes.ofHexChars? cs).map Uuid.mk else none

/-- The digits of groups with hyphens between them. -/
def groups? : List Nat → List Char → Option (List Char)
  | [], cs => if cs.isEmpty then some [] else none
  | [length], cs => if cs.length = length then some cs else none
  | length :: lengths, cs =>
    match cs.drop length with
    | '-' :: rest => (groups? lengths rest).map (cs.take length ++ ·)
    | _ => none

def ofGroups? (cs : List Char) : Option Uuid := (groups? groupLengths cs).bind ofDigits?

/-- What stands in front of an identifier in a resource name, in letters of either case. -/
def resourceMark : List Char := "urn:uuid:".toList

def ofText? (s : String) : Option Uuid :=
  let cs := s.toList
  match cs with
  | '\x7b' :: rest => if rest.getLast? = some '\x7d' then ofGroups? rest.dropLast else none
  | _ =>
    if (cs.take resourceMark.length).map Char.toLower = resourceMark then
      ofGroups? (cs.drop resourceMark.length)
    else ofDigits? cs <|> ofGroups? cs

def hyphenate : List Nat → List Char → List Char
  | [], cs => cs
  | [_], cs => cs
  | length :: lengths, cs => cs.take length ++ '-' :: hyphenate lengths (cs.drop length)

def text (u : Uuid) : String := .ofList (hyphenate groupLengths u.bytes.toHex.toList)

end Uuid

end BoundQuery
