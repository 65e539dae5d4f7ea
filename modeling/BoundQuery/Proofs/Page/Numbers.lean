import BoundQuery.Proofs.Json.Literal
import BoundQuery.Proofs.Page.Arithmetic

/-!
# The numbers of a page in a request body

A body gives page and size as literals or as strings, and both spellings of an integer have the same
effect: from one on the integer itself, at most the largest signed one, and below one the default.
An integer beyond 64 bits has the effect of the default as well, so the rule that larger numbers are
cut down to the largest one ends there.
-/

namespace BoundQuery.PageRequest

set_option autoImplicit false

/-- The two numbers of a request. -/
inductive Count where
  | page
  | limit
  deriving DecidableEq, Repr

namespace Count

def name : Count → String
  | page => "page"
  | limit => "limit"

def default : Count → UInt64
  | page => defaultPage
  | limit => defaultLimit

/-- What a request has stored. -/
def stored (r : PageRequest) : Count → Option UInt64
  | page => r.page
  | limit => r.limit

/-- What has an effect on the answer. -/
def effect (r : PageRequest) : Count → UInt64
  | page => r.pageNumber
  | limit => r.pageSize

theorem effect_eq (c : Count) (r : PageRequest) :
    c.effect r = effective (c.stored r) c.default := by
  cases c <;> rfl

end Count

def partNames : List String := ["page", "limit", "search", "filters", "sorting"]

/-- The document that a body gives for a part of the request. -/
def part? (body name : String) : Option Document :=
  match (Document.ofText? body).bind (Document.parts? partNames) with
  | some parts => ((partNames.zip parts).lookup name).join
  | none => none

/-- A body gives an integer, in one of its spellings, for a number of the request. -/
def Gives (body : String) (c : Count) (n : Int) : Prop :=
  ∃ document, part? body c.name = some document ∧ document.Gives n

/-- A request is read from a body that gives an integer for one of its numbers. -/
def Asks (r : PageRequest) (c : Count) (n : Int) : Prop :=
  ∃ body, ofText? body = some r ∧ Gives body c n

/-- What may be stored for an integer: itself, or nothing if it is below one or beyond 64 bits. -/
def Stands (stored : Option UInt64) (n : Int) : Prop :=
  (∃ m : Nat, (m : Int) = n ∧ m ≤ Text.uint64Max ∧ stored = some (UInt64.ofNat m)) ∨
    (n < 1 ∨ (Text.uint64Max : Int) < n) ∧ stored = none

/-- The number that has an effect if an integer is given. -/
def Count.granted (c : Count) (n : Int) : Nat :=
  if 1 ≤ n ∧ n ≤ Text.uint64Max then min n.toNat Text.int64Max else c.default.toNat

theorem toNat_effective_none (c : Count) : (effective none c.default).toNat = c.default.toNat := by
  cases c <;> rfl

theorem toNat_effective_ofNat {m : Nat} (c : Count) (hm : m ≤ Text.uint64Max) :
    (effective (some (UInt64.ofNat m)) c.default).toNat =
      if 1 ≤ m then min m Text.int64Max else c.default.toNat := by
  have hmax : maxRows.toNat = Text.int64Max := rfl
  have hvalue : (UInt64.ofNat m).toNat = m := UInt64.toNat_ofNat_of_lt' (Nat.lt_succ_of_le hm)
  have hone : (1 : UInt64) ≤ UInt64.ofNat m ↔ 1 ≤ m := by
    rw [UInt64.le_iff_toNat_le, hvalue]
    rfl
  by_cases h : 1 ≤ m
  · rw [effective, Option.filter_some_pos (by simpa using hone.mpr h), Option.getD_some,
      UInt64.toNat_min, hmax, hvalue, if_pos h]
  · rw [if_neg h, ← toNat_effective_none c, effective, effective,
      Option.filter_some_neg (by simpa using fun hle => h (hone.mp hle))]
    rfl

theorem Stands.toNat_effective {stored : Option UInt64} {n : Int} (h : Stands stored n)
    (c : Count) : (effective stored c.default).toNat = c.granted n := by
  rcases h with ⟨m, rfl, hm, rfl⟩ | ⟨hn, rfl⟩
  · rw [toNat_effective_ofNat c hm, Count.granted, Int.toNat_natCast]
    by_cases h : 1 ≤ m
    · rw [if_pos h, if_pos (by omega)]
    · rw [if_neg h, if_neg (by omega)]
  · rw [toNat_effective_none, Count.granted, if_neg (by omega)]

theorem stands_integer {n : Int} (h : n ≤ Text.uint64Max) : Stands (countOf (.integer n)) n := by
  have hread : countOf (.integer n) =
      if 0 ≤ n ∧ n ≤ Text.uint64Max then some (UInt64.ofNat n.toNat) else none := rfl
  rw [hread]
  by_cases hn : 0 ≤ n
  · obtain ⟨m, rfl⟩ := Int.eq_ofNat_of_zero_le hn
    rw [if_pos ⟨hn, h⟩]
    exact .inl ⟨m, rfl, by omega, rfl⟩
  · rw [if_neg (fun hboth => hn hboth.1)]
    exact .inr ⟨.inl (by omega), rfl⟩

theorem stands_string {s : String} {n : Int} (h : Text.Shows s n) :
    Stands (countOf (.string s)) n := by
  rw [countOf, Text.readUInt64]
  rcases (Text.spells_trim_iff.mpr h).readNatural_outcomes Text.uint64Max with
    ⟨m, hread, hm, hle⟩ | ⟨⟨e, hread⟩, hn⟩
  · rw [hread]
    exact .inl ⟨m, hm, hle, rfl⟩
  · rw [hread]
    exact .inr ⟨hn, rfl⟩

theorem stands_of_gives {document : Document} {n : Int} {stored : Option UInt64}
    (h : document.Gives n) (hstored : count? (some document) = some stored) :
    Stands stored n := by
  rw [count?] at hstored
  cases h with
  | @literal s _ h =>
    rw [Document.value?] at hstored
    rcases h.value?_outcomes with ⟨hn, hvalue⟩ | ⟨hn, hvalue⟩
    · rw [hvalue] at hstored
      cases hstored
      exact stands_integer hn
    · rw [hvalue] at hstored
      cases hfloat : s.toFloat? with
      | none =>
        rw [hfloat] at hstored
        cases hstored
      | some x =>
        rw [hfloat] at hstored
        cases hstored
        exact .inr ⟨hn, rfl⟩
  | numeral h =>
    rw [Document.value?] at hstored
    cases hstored
    exact stands_string h

theorem count?_part? {body : String} {r : PageRequest} (h : ofText? body = some r) (c : Count) :
    count? (part? body c.name) = some (c.stored r) := by
  obtain ⟨document, hdocument, h⟩ := Option.bind_eq_some_iff.mp h
  unfold ofDocument? at h
  split at h
  next page limit search filters sorting hparts =>
    have hpart : (Document.ofText? body).bind (Document.parts? partNames) =
        some [page, limit, search, filters, sorting] := by
      rw [hdocument]
      exact hparts
    split at h
    next hpage hlimit _ _ _ =>
      cases h
      rw [part?, hpart]
      cases c with
      | page => exact hpage
      | limit => exact hlimit
    next => cases h
  next => cases h

/-- A request has the effect that is granted for the integer that its body gives. -/
theorem Asks.toNat_effect {r : PageRequest} {c : Count} {n : Int} (h : r.Asks c n) :
    (c.effect r).toNat = c.granted n := by
  obtain ⟨body, hr, document, hpart, hgives⟩ := h
  have hstored := count?_part? hr c
  rw [hpart] at hstored
  rw [c.effect_eq]
  exact (stands_of_gives hgives hstored).toNat_effective c

/--
Who asks for an integer gets that integer, at most the largest signed one, and the default if it is
below one. How the integer is spelled has no say, and who asks for a smaller one from one on does
not get more.
-/
structure Honours (n : Int) : Prop where
  granted : ∀ (c : Count) (r : PageRequest), r.Asks c n →
    (c.effect r).toNat = if 1 ≤ n then min n.toNat Text.int64Max else c.default.toNat
  alike : ∀ (c : Count) (r r' : PageRequest), r.Asks c n → r'.Asks c n → c.effect r = c.effect r'
  monotone : ∀ (c : Count) (m : Int) (r r' : PageRequest), r.Asks c m → r'.Asks c n →
    1 ≤ m → m ≤ n → c.effect r ≤ c.effect r'

theorem Count.granted_of_le {c : Count} {n : Int} (hn : n ≤ Text.uint64Max) :
    c.granted n = if 1 ≤ n then min n.toNat Text.int64Max else c.default.toNat := by
  rw [Count.granted]
  by_cases hone : 1 ≤ n
  · rw [if_pos ⟨hone, hn⟩, if_pos hone]
  · rw [if_neg (fun h => hone h.1), if_neg hone]

theorem honours_of_le {n : Int} (hn : n ≤ Text.uint64Max) : Honours n where
  granted c r h := by rw [h.toNat_effect, Count.granted_of_le hn]
  alike c r r' h h' := UInt64.toNat_inj.mp (h.toNat_effect.trans h'.toNat_effect.symm)
  monotone c m r r' h h' hone hle := by
    rw [UInt64.le_iff_toNat_le, h.toNat_effect, h'.toNat_effect, Count.granted_of_le hn,
      Count.granted_of_le (Int.le_trans hle hn), if_pos hone, if_pos (Int.le_trans hone hle)]
    omega

section Bodies

variable {body : String} {document : Document}

theorem part?_of_member {c : Count}
    (h : Document.ofText? body = some (.object [(some c.name, document)])) :
    part? body c.name = some document := by
  rw [part?, h]
  cases c <;> rfl

theorem exists_ofText?_of_member {c : Count} {stored : Option UInt64}
    (h : Document.ofText? body = some (.object [(some c.name, document)]))
    (hstored : count? (some document) = some stored) : ∃ r, ofText? body = some r := by
  rw [ofText?, h, Option.bind_some]
  cases c with
  | page =>
    have hparts : Document.parts? partNames (.object [(some "page", document)]) =
        some [some document, none, none, none, none] := rfl
    simp only [partNames] at hparts
    simp only [Count.name, ofDocument?, hparts, hstored]
    exact ⟨_, rfl⟩
  | limit =>
    have hparts : Document.parts? partNames (.object [(some "limit", document)]) =
        some [none, some document, none, none, none] := rfl
    simp only [partNames] at hparts
    simp only [Count.name, ofDocument?, hparts, hstored]
    exact ⟨_, rfl⟩

theorem isBare_of_mem_name (c : Count) : ∀ x ∈ c.name.toList, Document.IsBare x := by
  have hall : c.name.toList.all fun x => decide (Document.IsBare x) := by cases c <;> rfl
  intro x hx
  exact of_decide_eq_true (List.all_eq_true.mp hall x hx)

/-- A body that gives an integer as a literal. -/
def literalBody (c : Count) (n : Int) : String :=
  Document.memberText c.name (Text.integerText n)

/-- A body that gives an integer as a string. -/
def stringBody (c : Count) (n : Int) : String :=
  Document.memberText c.name ("\x22" ++ Text.integerText n ++ "\x22")

theorem ofText?_stringBody (c : Count) (n : Int) :
    Document.ofText? (stringBody c n) =
      some (.object [(some c.name, .string (some (Text.integerText n)))]) :=
  Document.ofText?_quoted (isBare_of_mem_name c) fun _ => Document.isBare_of_mem_integerText

theorem gives_literalBody (c : Count) (n : Int) : Gives (literalBody c n) c n := by
  obtain ⟨document, hgives, hread⟩ :=
    Document.exists_ofText?_integerText (isBare_of_mem_name c) n
  exact ⟨document, part?_of_member hread, hgives⟩

theorem gives_stringBody (c : Count) (n : Int) : Gives (stringBody c n) c n := by
  refine ⟨_, part?_of_member (ofText?_stringBody c n), .numeral ?_⟩
  exact ⟨[], _, [], (List.append_nil _).symm, List.forall_mem_nil _, List.forall_mem_nil _,
    Text.spells_integerText n⟩

theorem exists_asks (c : Count) (n : Int) : ∃ r, Asks r c n := by
  obtain ⟨r, hr⟩ := exists_ofText?_of_member (ofText?_stringBody c n) rfl
  exact ⟨r, _, hr, gives_stringBody c n⟩

end Bodies

theorem not_honours_of_lt {n : Int} (hn : (Text.uint64Max : Int) < n) : ¬ Honours n := by
  intro h
  obtain ⟨r, hasks⟩ := exists_asks .page n
  have hgranted := hasks.toNat_effect
  have hmax : Text.int64Max = 9223372036854775807 ∧ Text.uint64Max = 18446744073709551615 :=
    ⟨rfl, rfl⟩
  have hdefault : Count.page.default.toNat = 1 := rfl
  rw [h.granted .page r hasks, Count.granted, if_pos (by omega), if_neg (by omega)] at hgranted
  omega

/--
Every integer can be given as a literal and as a string. Who asks for it is honoured if and only if
it does not exceed 64 bits; beyond, as below one, the default is granted.
-/
theorem honours_iff (n : Int) :
    (∀ c, Gives (literalBody c n) c n ∧ Gives (stringBody c n) c n ∧ ∃ r, Asks r c n) ∧
      (∀ c r, Asks r c n → (c.effect r).toNat = c.granted n) ∧
      (Honours n ↔ n ≤ Text.uint64Max) := by
  refine ⟨fun c => ⟨gives_literalBody c n, gives_stringBody c n, exists_asks c n⟩,
    fun c r h => h.toNat_effect, ?_, honours_of_le⟩
  intro h
  by_contra hn
  exact not_honours_of_lt (Int.lt_of_not_ge hn) h

/-- The largest unsigned integer in both spellings, and seven below it. -/
theorem honours_iff_largest :
    let n : Int := 18446744073709551615
    literalBody .page n = "\x7b\x22page\x22:18446744073709551615\x7d" ∧
      stringBody .page n = "\x7b\x22page\x22:\x2218446744073709551615\x22\x7d" ∧
      ∃ seven r r', ofText? (literalBody .page 7) = some seven ∧
        ofText? (literalBody .page n) = some r ∧ ofText? (stringBody .page n) = some r' ∧
        r.pageNumber.toNat = 9223372036854775807 ∧ r.pageNumber = r'.pageNumber ∧
        seven.pageNumber ≤ r.pageNumber := by
  intro n
  obtain ⟨hgives, hgranted, hhonours⟩ := honours_iff n
  obtain ⟨hseven, -⟩ := honours_iff 7
  have hread : (ofText? (literalBody .page 7)).isSome ∧ (ofText? (literalBody .page n)).isSome ∧
      (ofText? (stringBody .page n)).isSome := by
    decide +kernel
  obtain ⟨seven, hreadSeven⟩ := Option.isSome_iff_exists.mp hread.1
  obtain ⟨r, hr⟩ := Option.isSome_iff_exists.mp hread.2.1
  obtain ⟨r', hr'⟩ := Option.isSome_iff_exists.mp hread.2.2
  have hasksSeven : Asks seven .page 7 := ⟨_, hreadSeven, (hseven .page).1⟩
  have hasks : Asks r .page n := ⟨_, hr, (hgives .page).1⟩
  have hasks' : Asks r' .page n := ⟨_, hr', (hgives .page).2.1⟩
  have hall : Honours n := hhonours.mpr (by decide)
  exact ⟨by decide +kernel, by decide +kernel, seven, r, r', hreadSeven, hr, hr',
    hgranted .page r hasks, hall.alike .page r r' hasks hasks',
    hall.monotone .page 7 seven r hasksSeven hasks (by decide) (by decide)⟩

/-- The integer `2 ^ 64` is not honoured: who asks for it gets the first page. -/
theorem not_honours_power :
    let n : Int := 18446744073709551616
    literalBody .page n = "\x7b\x22page\x22:18446744073709551616\x7d" ∧
      Gives (literalBody .page n) .page n ∧
      (ofText? (literalBody .page n)).map pageNumber = some 1 ∧ ¬ Honours n := by
  intro n
  exact ⟨by decide +kernel, gives_literalBody .page n, by decide +kernel,
    not_honours_of_lt (by decide)⟩

end BoundQuery.PageRequest
