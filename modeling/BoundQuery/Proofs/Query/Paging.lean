import BoundQuery.Proofs.Denotation
import BoundQuery.Proofs.Query.Calls

/-!
# The numbers of a page

A limit and an offset are taken from an integer, a whole float or the numeral in a text, if the
number is not negative and at most the largest signed integer, and stand in every statement with a
page as the digits of that number; other values are refused. There is one exception: a whole float
beyond the largest signed integer is not refused but taken as that integer.
-/

namespace BoundQuery

set_option autoImplicit false

namespace Value

/-- The integer that a value gives as the number of a page. -/
inductive Counts : Value → Int → Prop where
  | int (n : Int64) : Counts (.int n) n.toInt
  | float {x : Binary64} {i : Int} (h : x.toRat? = some (i : ℚ)) : Counts (.float x) i
  | text {s : String} {i : Int} (h : Text.Shows s i) : Counts (.text s) i

/-- A value that may be the number of a page. -/
def IsPaging (v : Value) : Prop := ∃ n : Nat, v.Counts n ∧ n ≤ Text.int64Max

/-- A whole float beyond the largest signed integer. -/
def Overflows (v : Value) : Prop :=
  ∃ (x : Binary64) (i : Int), v = .float x ∧ x.toRat? = some (i : ℚ) ∧ (Text.int64Max : Int) < i

variable {v : Value} {i : Int}

theorem Counts.denotes (h : v.Counts i) : v.Denotes i := by
  cases h with
  | int n => exact .int n
  | float h => exact .float h
  | text h => exact .text h

theorem Counts.unique {j : Int} (h : v.Counts i) (h' : v.Counts j) : i = j :=
  Int.cast_inj.mp (h.denotes.unique h'.denotes)

theorem Counts.toInteger? (h : v.Counts i) (hi : Text.IsInt64 i) :
    ∃ n, v.toInteger? = some n ∧ n.toInt = i := by
  cases h with
  | int n => exact ⟨n, rfl, rfl⟩
  | @float x _ h =>
    refine ⟨saturate i, ?_, toInt_saturate_of_isInt64 hi⟩
    rw [Value.toInteger?, Binary64.toInt?_eq_some_iff.mpr h, Option.map_some]
  | @text s _ h =>
    have hvalue := Text.toInt_ofInt_of_isInt64 hi
    rw [← hvalue] at h
    refine ⟨Int64.ofInt i, ?_, hvalue⟩
    rw [Value.toInteger?, Text.readInt64_trim_eq_ok_iff.mpr h]
    rfl

/-- What a value is read as is what it gives, or the end of the range for a float beyond it. -/
theorem counts_of_toInteger? {n : Int64} (h : v.toInteger? = some n) :
    v.Counts n.toInt ∨ ∃ (x : Binary64) (i : Int),
      v = .float x ∧ x.toRat? = some (i : ℚ) ∧ ¬ Text.IsInt64 i ∧ n = saturate i := by
  cases v with
  | int m =>
    cases h
    exact .inl (.int n)
  | float x =>
    obtain ⟨i, hi, rfl⟩ := Option.map_eq_some_iff.mp h
    have hrat := Binary64.toInt?_eq_some_iff.mp hi
    by_cases hrange : Text.IsInt64 i
    · left
      rw [toInt_saturate_of_isInt64 hrange]
      exact .float hrat
    · exact .inr ⟨x, i, rfl, hrat, hrange, rfl⟩
  | text s =>
    left
    rw [Value.toInteger?] at h
    cases hread : Text.readInt64 (Text.trim s) with
    | error e =>
      rw [hread] at h
      cases h
    | ok m =>
      rw [hread] at h
      cases h
      exact .text (Text.readInt64_trim_eq_ok_iff.mp hread)
  | null => cases h
  | bool b => cases h
  | list items => cases h

theorem not_isPaging_of_overflows (h : v.Overflows) : ¬ v.IsPaging := by
  obtain ⟨x, i, rfl, hi, hout⟩ := h
  rintro ⟨n, hn, hle⟩
  have heq := hn.unique (.float hi)
  omega

end Value

namespace Query

variable {v : Value} (clause : String)

theorem natural_of_counts {n : Nat} (h : v.Counts n) (hn : n ≤ Text.int64Max) :
    natural clause v = .ok n := by
  have hrange : Text.IsInt64 n := by
    unfold Text.IsInt64
    omega
  obtain ⟨m, hread, hm⟩ := h.toInteger? hrange
  simp [natural, hread, hm]

theorem natural_of_not_isPaging (h : ¬ v.IsPaging) (hv : ¬ v.Overflows) :
    natural clause v = .error (.invalidPaging clause v.display) := by
  unfold natural
  split
  next n hread =>
    rw [if_neg]
    intro hpos
    rcases Value.counts_of_toInteger? hread with hcounts | ⟨x, i, rfl, hi, hrange, rfl⟩
    · apply h
      obtain ⟨m, hm⟩ := Int.eq_ofNat_of_zero_le hpos
      have hmax := (Text.isInt64_toInt n).2
      rw [hm] at hcounts hmax
      exact ⟨m, hcounts, by omega⟩
    · rw [Value.toInt_saturate] at hpos
      unfold Text.IsInt64 at hrange
      exact hv ⟨x, i, rfl, hi, by omega⟩
  next => rfl

/-- A whole float beyond the range is taken as the end of the range. -/
theorem natural_of_overflows (h : v.Overflows) : natural clause v = .ok Text.int64Max := by
  obtain ⟨x, i, rfl, hi, hout⟩ := h
  have hend : (Value.saturate i).toInt = Text.int64Max := by
    rw [Value.toInt_saturate]
    omega
  simp [natural, Value.toInteger?, Binary64.toInt?_eq_some_iff.mpr hi, hend]

/-- The statements of a query that have a page. -/
inductive Pages (q : Query) : String → Prop where
  | select {text : String} (h : q.selectText = .ok text) : Pages q text
  | delete {text : String} (h : q.deleteText = .ok text) : Pages q text
  | update {cells : Cells} {text : String} (h : (q.stageUpdate cells).1 = .ok (some text)) :
      Pages q text

theorem Pages.exists_head {q : Query} {text : String} (h : q.Pages text) :
    ∃ head, text = head ++ q.pageText := by
  have htail (head : String) :
      ∃ front, head ++ q.tailText = front ++ q.pageText :=
    ⟨head ++ (q.filterText ++ q.orderText), by simp only [tailText, String.append_assoc]⟩
  cases h with
  | select h =>
    unfold selectText at h
    split at h
    · cases h
      exact htail _
    · cases h
  | delete h =>
    unfold deleteText at h
    split at h
    · cases h
      exact htail _
    · cases h
  | @update cells _ h =>
    rcases q.stageUpdate_cases cells with ⟨-, hnone⟩ | ⟨table, -, -, -, hstaged⟩
    · exact absurd h (hnone text)
    · rw [hstaged] at h
      cases h
      exact htail _

end Query

/-- The two clauses of a page. -/
inductive PageClause where
  | limit
  | offset
  deriving DecidableEq, Repr

namespace PageClause

open Query

def keyword : PageClause → String
  | limit => "LIMIT"
  | offset => "OFFSET"

def call : PageClause → Value → Call
  | limit => .setLimit
  | offset => .setOffset

def number (q : Query) : PageClause → Option Nat
  | limit => q.limit
  | offset => q.offset

def put (q : Query) (n : Nat) : PageClause → Query
  | limit => { q with limit := some n }
  | offset => { q with offset := some n }

@[simp] theorem number_put (c : PageClause) (q : Query) (n : Nat) :
    c.number (c.put q n) = some n := by
  cases c <;> rfl

variable {v : Value} {n : Nat}

theorem run_call (c : PageClause) (v : Value) (q : Query) :
    (c.call v).run q =
      match natural c.keyword v with
      | .ok n => (.ok .done, c.put q n)
      | .error e => (.error e, q) := by
  cases c with
  | limit =>
    simp only [call, Call.run, setLimit, keyword]
    cases natural "LIMIT" v <;> rfl
  | offset =>
    simp only [call, Call.run, setOffset, keyword]
    cases natural "OFFSET" v <;> rfl

theorem run_of_counts (c : PageClause) (h : v.Counts n) (hn : n ≤ Text.int64Max) (q : Query) :
    (c.call v).run q = (.ok .done, c.put q n) := by
  rw [run_call, natural_of_counts c.keyword h hn]

theorem run_of_overflows (c : PageClause) (hv : v.Overflows) (q : Query) :
    (c.call v).run q = (.ok .done, c.put q Text.int64Max) := by
  rw [run_call, natural_of_overflows c.keyword hv]

theorem run_of_not_isPaging (c : PageClause) (h : ¬ v.IsPaging) (hv : ¬ v.Overflows) (q : Query) :
    (c.call v).run q = (.error (.invalidPaging c.keyword v.display), q) := by
  rw [run_call, natural_of_not_isPaging c.keyword h hv]

/-- A call that does not set a clause: it is another call, or its value is refused. -/
def Leaves (c : PageClause) (other : Call) : Prop :=
  ∀ v, other = c.call v → ¬ v.IsPaging ∧ ¬ v.Overflows

theorem number_run {c : PageClause} {other : Call} (h : c.Leaves other) (q : Query) :
    c.number (other.run q).2 = c.number q := by
  rcases other.run_outcomes q with ⟨e, hrun⟩ | ⟨reply, q', hrun, heffect⟩
  · rw [hrun]
  · rw [hrun]
    cases heffect with
    | @setLimit v n hn =>
      cases c with
      | limit =>
        obtain ⟨hpaging, hover⟩ := h v rfl
        rw [natural_of_not_isPaging "LIMIT" hpaging hover] at hn
        cases hn
      | offset => rfl
    | @setOffset v n hn =>
      cases c with
      | limit => rfl
      | offset =>
        obtain ⟨hpaging, hover⟩ := h v rfl
        rw [natural_of_not_isPaging "OFFSET" hpaging hover] at hn
        cases hn
    | _ => cases c <;> rfl

theorem number_runAll {c : PageClause} {calls : List Call} (h : ∀ other ∈ calls, c.Leaves other)
    (q : Query) : c.number (Call.runAll calls q).2 = c.number q := by
  induction calls generalizing q with
  | nil => rfl
  | cons other calls ih =>
    obtain ⟨hother, hcalls⟩ := List.forall_mem_cons.mp h
    exact (ih hcalls (other.run q).2).trans (number_run hother q)

/-- A text ends in a clause with a number; behind a limit there may be an offset. -/
def Ends (c : PageClause) (n : Nat) (text : String) : Prop :=
  ∃ before after, text = before ++ (" " ++ c.keyword ++ " " ++ Text.naturalText n) ++ after ∧
    (after = "" ∨ ∃ m, after = " OFFSET " ++ Text.naturalText m)

theorem ends_of_pages {c : PageClause} {q : Query} (h : c.number q = some n) {text : String}
    (htext : q.Pages text) : c.Ends n text := by
  obtain ⟨head, rfl⟩ := htext.exists_head
  rw [pageText]
  cases c with
  | limit =>
    change q.limit = some n at h
    refine ⟨head, numberText "OFFSET" q.offset, ?_, ?_⟩
    · rw [h]
      simp only [numberText, keyword, String.append_assoc]
    · cases hoffset : q.offset with
      | none => exact .inl rfl
      | some m => exact .inr ⟨m, rfl⟩
  | offset =>
    change q.offset = some n at h
    refine ⟨head ++ numberText "LIMIT" q.limit, "", ?_, .inl rfl⟩
    rw [h]
    simp only [numberText, keyword, String.append_assoc, String.append_empty]

/--
A value that gives a number for a page sets it, on whatever query, and however the query is
shaped further: as long as no other value is accepted for that clause, every statement with a page
ends in the digits of that number. Any other value is refused and changes nothing.
-/
structure Carries (c : PageClause) (v : Value) : Prop where
  accepted : ∀ (n : Nat) (q : Query), v.Counts n → n ≤ Text.int64Max →
    (c.call v).run q = (.ok .done, c.put q n)
  written : ∀ (n : Nat) (q : Query) (calls : List Call) (text : String),
    v.Counts n → n ≤ Text.int64Max → (∀ other ∈ calls, c.Leaves other) →
    (Call.runAll (c.call v :: calls) q).2.Pages text → c.Ends n text
  refused : ∀ q : Query, ¬ v.IsPaging →
    (c.call v).run q = (.error (.invalidPaging c.keyword v.display), q)

theorem carries_of_not_overflows (c : PageClause) (hv : ¬ v.Overflows) : c.Carries v where
  accepted _ q h hn := run_of_counts c h hn q
  written n q calls text h hn hcalls htext := by
    apply ends_of_pages _ htext
    change c.number (Call.runAll calls ((c.call v).run q).2).2 = some n
    rw [number_runAll hcalls, run_of_counts c h hn, number_put]
  refused q h := run_of_not_isPaging c h hv q

theorem not_carries_of_overflows (c : PageClause) (hv : v.Overflows) : ¬ c.Carries v := by
  intro h
  have hrefused := h.refused { dialect := .mysql } (Value.not_isPaging_of_overflows hv)
  rw [run_of_overflows c hv] at hrefused
  cases hrefused

/--
Limit and offset carry exactly the number that their value gives, and refuse a value that gives
none, with one exception: a whole float beyond the largest signed integer is taken as that integer.
-/
theorem carries_iff (c : PageClause) (v : Value) : c.Carries v ↔ ¬ v.Overflows :=
  ⟨fun h hv => not_carries_of_overflows c hv h, carries_of_not_overflows c⟩

/-- The float `2 ^ 63` sets the limit to one less, whereas its numeral is refused. -/
theorem not_carries_power :
    let v : Value := .float ⟨0x43e0000000000000⟩
    let q : Query := { dialect := .mysql, table := some "t" }
    v.Counts 9223372036854775808 ∧
      ((limit.call v).run q).2.selectText = .ok "SELECT * FROM t LIMIT 9223372036854775807" ∧
      (limit.call (.text "9223372036854775808")).run q =
        (.error (.invalidPaging "LIMIT" "9223372036854775808"), q) ∧
      ¬ limit.Carries v := by
  intro v q
  have hint : Binary64.toInt? ⟨0x43e0000000000000⟩ = some 9223372036854775808 := by decide +kernel
  have hrat := Binary64.toInt?_eq_some_iff.mp hint
  have hover : v.Overflows := ⟨_, _, rfl, hrat, by decide⟩
  have hrun := run_of_overflows limit hover q
  refine ⟨.float hrat, ?_, ?_, not_carries_of_overflows limit hover⟩
  · rw [hrun]
    decide +kernel
  · rfl

end PageClause

end BoundQuery
