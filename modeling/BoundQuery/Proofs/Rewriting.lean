import BoundQuery.Proofs.Parameters
import BoundQuery.Proofs.Tokens

/-!
# Binding, token by token

Binding writes each placeholder of a text as a parameter and copies every other token. The bound
text has the tokens of the text, with the characters of the parameters in the places of the
placeholders: what stood before or behind a placeholder is read as before. So nothing in a bound
text is left to bind.
-/

namespace BoundQuery

set_option autoImplicit false

namespace Token

/-- A token as it is, and a placeholder in the form that its key has. -/
def write (form : String → String) : Token → List Char
  | key name => (form name).toList
  | t => t.spell

theorem flatMap_write_pieces (form : String → String) (ts : List Token) :
    (ts.flatMap Token.pieces).flatMap (Piece.write form) = ts.flatMap (write form) := by
  rw [List.flatMap_assoc]
  apply List.flatMap_congr
  intro t _
  cases t with
  | key name => simp [Token.pieces, Piece.write, write]
  | _ => simp [Token.pieces, Piece.write, write, List.flatMap_map]

end Token

open Placeholder

theorem Dialect.plain_parameter (d : Dialect) (n : Nat) : Plain (d.parameter n) := by
  cases d with
  | mysql => exact (by decide : Plain "?")
  | postgres => exact Plain.append (by decide) (plain_naturalText n)

namespace Registry

/--
Every text is split into tokens in one way. Binding fails if and only if a placeholder among them
has a key that is not held, and then at the first of those. Otherwise each placeholder becomes a
question mark for MySQL and a dollar sign with its number for PostgreSQL, every other token stays as
it is, and the value at that number is the one that is held under the key.
-/
theorem bind_tokens (r : Registry) (d : Dialect) (sql : String) :
    ∃ tokens, (∀ others, Token.Splits sql.toList others ↔ others = tokens) ∧
      let keys := tokens.filterMap Token.key?
      let form key := match d with
        | .mysql => "?"
        | .postgres => "$" ++ (ordinal keys key).repr
      ((∃ before key after, keys = before ++ key :: after ∧
          (∀ other ∈ before, other ∈ r.keys) ∧ key ∉ r.keys ∧
          r.bind d sql = .error (.unboundPlaceholder key)) ∨
        (∀ key ∈ keys, key ∈ r.keys) ∧ ∃ values,
          r.bind d sql = .ok ⟨.ofList (tokens.flatMap (Token.write form)), values⟩ ∧
          (d.numbers keys).map (fun number => values[number - 1]?) = keys.map r.get? ∧
          (∀ key ∈ keys, ∃ value, (key, value) ∈ r.entries ∧ r.get? key = some value) ∧
          values.length = largest (d.numbers keys)) := by
  obtain ⟨tokens, hsplits⟩ := Token.exists_splits sql.toList
  have hscan : scan sql = tokens.flatMap Token.pieces := hsplits.pieces
  have hkeys : Placeholder.keys (scan sql) = tokens.filterMap Token.key? := by
    rw [hscan, Token.keys_flatMap_pieces]
  refine ⟨tokens, fun others => ⟨hsplits.unique, ?_⟩, ?_⟩
  · rintro rfl
    exact hsplits
  intro keys form
  rcases r.held_or_first keys with hheld | ⟨before, key, after, hsplit, hbefore, hkey⟩
  · have hbind := bind_of_held d hkeys hheld
    have hform : (fun key => d.parameter (ordinal keys key)) = form := by
      cases d <;> rfl
    rw [hform, written, hscan, Token.flatMap_write_pieces] at hbind
    refine .inr ⟨hheld, r.listed d keys, hbind, getElem?_listed d hheld, ?_, length_listed d hheld⟩
    intro key hkey
    obtain ⟨value, hvalue⟩ := Option.isSome_iff_exists.mp (isSome_get?_iff.mpr (hheld key hkey))
    exact ⟨value, get?_eq_some_iff.mp hvalue, hvalue⟩
  · exact .inl ⟨before, key, after, hsplit, hbefore, hkey,
      bind_of_first d (hkeys.trans hsplit) hbefore hkey⟩

/-- A cast before a placeholder, one next to another, a colon of its own and an open region. -/
theorem bind_tokens_colons :
    let r := (({} : Registry).register "a" (.int 1)).register "b" .null
    let sql := ":::b:a::é:`:a"
    Token.Splits sql.toList [.cast, .key "b", .key "a", .cast, .char 'é', .char ':',
        .openRegion '\x60' [':', 'a']] ∧
      r.bind .postgres sql = .ok ⟨"::$1$2::é:`:a", [.null, .int 1]⟩ ∧
      r.bind .mysql sql = .ok ⟨"::??::é:`:a", [.null, .int 1]⟩ ∧
      ({} : Registry).bind .mysql sql = .error (.unboundPlaceholder "b") := by
  intro r sql
  have hsplits : Token.Splits sql.toList [.cast, .key "b", .key "a", .cast, .char 'é', .char ':',
      .openRegion '\x60' [':', 'a']] := by
    have hsql : sql.toList =
        [':', ':', ':', 'b', ':', 'a', ':', ':', 'é', ':', '\x60', ':', 'a'] := by
      decide
    rw [hsql]
    repeat refine .of_first? rfl ?_
    exact .nil
  have hbind (d : Dialect) : r.bind d sql = .ok ⟨match d with
      | .mysql => "::??::é:`:a"
      | .postgres => "::$1$2::é:`:a", [.null, .int 1]⟩ := by
    obtain ⟨tokens, hunique, hcases⟩ := r.bind_tokens d sql
    rw [← (hunique _).mp hsplits] at hcases
    rcases hcases with ⟨before, key, after, hsplit, _, hkey, _⟩ |
      ⟨_, values, hbind, hvalues, _, hlength⟩
    · have hmem : key ∈ ["b", "a"] := by
        change ["b", "a"] = _ at hsplit
        simp [hsplit]
      exact absurd (List.forall_mem_cons.mpr ⟨by decide, by decide⟩ key hmem) hkey
    · have hcount : values.length = 2 := by cases d <;> exact hlength
      obtain ⟨first, second, rfl⟩ := List.length_eq_two.mp hcount
      have hheld : [some first, some second] = [some .null, some (.int 1)] := by
        cases d <;> exact hvalues
      cases hheld
      rw [hbind]
      cases d <;> rfl
  refine ⟨hsplits, hbind .postgres, hbind .mysql, ?_⟩
  obtain ⟨tokens, hunique, hcases⟩ := ({} : Registry).bind_tokens .mysql sql
  rw [← (hunique _).mp hsplits] at hcases
  rcases hcases with ⟨before, key, after, hsplit, hbefore, _, hfails⟩ | ⟨hheld, _⟩
  · cases before with
    | nil =>
      change ["b", "a"] = key :: after at hsplit
      cases hsplit
      exact hfails
    | cons other before => exact absurd (hbefore other List.mem_cons_self) List.not_mem_nil
  · exact absurd (hheld "b" List.mem_cons_self) List.not_mem_nil

end Registry

namespace Token

/-- A token as it is, and a placeholder as the characters of its form. -/
def bound (form : String → String) : Token → List Token
  | key name => (form name).toList.map .char
  | t => [t]

theorem Splits.append_plain {cs rest : List Char} {ts : List Token}
    (hplain : ∀ c ∈ cs, isMark c = false ∧ c ≠ ':') (h : Splits rest ts) :
    Splits (cs ++ rest) (cs.map .char ++ ts) := by
  induction cs with
  | nil => exact h
  | cons c cs ih =>
    obtain ⟨hmark, hcolon⟩ := hplain c List.mem_cons_self
    have hrest := ih fun d hd => hplain d (List.mem_cons_of_mem c hd)
    have hfits : (char c).Fits (cs ++ rest) := ⟨hmark, fun h => absurd h hcolon⟩
    exact .cons hfits hrest

variable {rest : List Char} {ts : List Token}

theorem Splits.head?_write (h : Splits rest ts) (hcolon : ':' ∉ rest.head?)
    (form : String → String) : (ts.flatMap (write form)).head? = rest.head? := by
  cases h with
  | nil => rfl
  | @cons t rest ts hfits hrest =>
    cases t with
    | key name => exact absurd rfl hcolon
    | _ => rfl

/-- Behind a token that is no placeholder, the next one may be written in a form. -/
theorem Fits.of_write {t : Token} (h : t.Fits rest) (hkey : t.key? = none) (hrest : Splits rest ts)
    (form : String → String) : t.Fits (ts.flatMap (write form)) := by
  cases t with
  | region mark body => exact h
  | openRegion mark body =>
    obtain ⟨hmark, hbody, rfl⟩ := h
    have hnone : [] = ts := Splits.nil.unique hrest ▸ rfl
    rw [← hnone]
    exact ⟨hmark, hbody, rfl⟩
  | cast => trivial
  | key name => cases hkey
  | char c =>
    obtain ⟨hmark, hnext⟩ := h
    refine ⟨hmark, fun hc => ?_⟩
    have hcolon : ':' ∉ rest.head? := fun hmem => (hnext hc ':' hmem).1 rfl
    rw [hrest.head?_write hcolon]
    exact hnext hc

theorem Splits.write (h : Splits rest ts) {form : String → String}
    (hform : ∀ key, Plain (form key)) :
    Splits (ts.flatMap (write form)) (ts.flatMap (bound form)) := by
  induction h with
  | nil => exact .nil
  | @cons t rest ts hfits hrest ih =>
    rw [List.flatMap_cons, List.flatMap_cons]
    cases t with
    | key name => exact ih.append_plain (hform name)
    | _ => exact .cons (hfits.of_write rfl hrest form) ih

theorem filterMap_key?_bound (form : String → String) (ts : List Token) :
    (ts.flatMap (bound form)).filterMap key? = [] := by
  rw [List.filterMap_flatMap, List.flatMap_eq_nil_iff]
  intro t _
  cases t with
  | key name =>
    rw [bound, List.filterMap_map, List.filterMap_eq_nil_iff]
    intro c _
    rfl
  | _ => rfl

end Token

namespace Registry

/-- A text without placeholders is bound to itself, by any registry. -/
theorem bind_of_keyless (r : Registry) (d : Dialect) {text : String}
    (h : Placeholder.keys (scan text) = []) : r.bind d text = .ok ⟨text, []⟩ := by
  have hbind : r.bind d text = .ok ⟨boundForm d 0 text, []⟩ := by
    apply r.bind_of_nodup d
    · rw [h]
      exact List.nodup_nil
    · rw [h]
      rfl
  rwa [boundForm, numbered_of_keyless d.parameter 0 h, spell_scan, String.ofList_toList] at hbind

theorem keys_scan_written {form : String → String} (hform : ∀ key, Plain (form key))
    (sql : String) : Placeholder.keys (scan (written form sql)) = [] := by
  obtain ⟨tokens, hsplits⟩ := Token.exists_splits sql.toList
  have hscan : scan sql = tokens.flatMap Token.pieces := hsplits.pieces
  have hbound := (hsplits.write hform).pieces
  rw [written, hscan, Token.flatMap_write_pieces, scan, String.toList_ofList, hbound,
    Token.keys_flatMap_pieces, Token.filterMap_key?_bound]

theorem exists_written_of_bind {r : Registry} {d : Dialect} {sql : String}
    {statement : BoundStatement} (h : r.bind d sql = .ok statement) :
    ∃ number : String → Nat, statement.sql = written (fun key => d.parameter (number key)) sql := by
  rcases r.held_or_first (Placeholder.keys (scan sql)) with
    hheld | ⟨_, _, _, hsplit, hbefore, hkey⟩
  · rw [bind_of_held d rfl hheld] at h
    cases h
    exact ⟨_, rfl⟩
  · rw [bind_of_first d hsplit hbefore hkey] at h
    cases h

/-- A bound text has no placeholder left and gains none: any registry binds it to itself for either
dialect, with no values. -/
theorem bind_sql_of_bind {r : Registry} {d : Dialect} {sql : String} {statement : BoundStatement}
    (h : r.bind d sql = .ok statement) (other : Registry) (d' : Dialect) :
    other.bind d' statement.sql = .ok ⟨statement.sql, []⟩ := by
  obtain ⟨number, hsql⟩ := exists_written_of_bind h
  rw [hsql]
  exact bind_of_keyless other d'
    (keys_scan_written (fun key => d.plain_parameter (number key)) sql)

/-- Colons before, between and behind placeholders, a region, and one that is left open. -/
theorem bind_sql_of_bind_colons :
    let r := ({} : Registry).register "a" (.int 1)
    let text := "::$1$1::b: ':a' $1'x:a"
    r.bind .postgres ":::a:a::b: ':a' :a'x:a" = .ok ⟨text, [.int 1]⟩ ∧
      ({} : Registry).bind .mysql text = .ok ⟨text, []⟩ := by
  intro r text
  have hkeys : Placeholder.keys (scan ":::a:a::b: ':a' :a'x:a") = ["a", "a", "a"] := by
    decide +kernel
  have htext : written (fun key => Dialect.parameter .postgres (ordinal ["a", "a", "a"] key))
      ":::a:a::b: ':a' :a'x:a" = text := by
    decide +kernel
  have hbind : r.bind .postgres ":::a:a::b: ':a' :a'x:a" = .ok ⟨text, [.int 1]⟩ := by
    rw [bind_of_held .postgres hkeys (by decide), htext]
    rfl
  exact ⟨hbind, bind_sql_of_bind hbind {} .mysql⟩

end Registry

end BoundQuery
