import BoundQuery.Operator
import BoundQuery.Proofs.Words
import Mathlib.Data.List.Forall2

/-!
# The spellings of operators

A text is taken for an operator if and only if it consists of the words of that operator, in letters
of either case, with any blanks around and at least one between the words. So each dialect accepts
the spellings of the operators in its list and nothing else; a text never stands for two operators,
and the keyword of an operator is one of its spellings.
-/

namespace BoundQuery

set_option autoImplicit false

namespace Text

/-- The texts differ in the case of ASCII letters, if at all. -/
def SameLetters (cs ds : List Char) : Prop := cs.map Char.toLower = ds.map Char.toLower

instance (cs ds : List Char) : Decidable (SameLetters cs ds) := inferInstanceAs (Decidable (_ = _))

/-- What holds of the ASCII characters and of those without case holds of all. -/
theorem forall_char {P : Char → Prop} (hascii : ∀ n : Fin 128, P (Char.ofNat n))
    (hother : ∀ c, c.toUpper = c → c.toLower = c → P c) (c : Char) : P c := by
  by_cases h : c.toNat < 128
  · simpa using hascii ⟨c.toNat, h⟩
  · have hbeyond (d : Char) (hd : d.toNat < 128) : ¬ c.val ≤ d.val := fun hle =>
      h (Nat.lt_of_le_of_lt (UInt32.le_iff_toNat_le.mp hle) hd)
    apply hother
    · exact dif_neg fun hcase => hbeyond 'z' (by decide) hcase.2
    · exact dif_neg fun hcase => hbeyond 'Z' (by decide) hcase.2

theorem toUpper_toLower (c : Char) : c.toLower.toUpper = c.toUpper :=
  forall_char (P := fun c => c.toLower.toUpper = c.toUpper) (by decide +kernel)
    (fun c _ hlower => by rw [hlower]) c

theorem toLower_toUpper (c : Char) : c.toUpper.toLower = c.toLower :=
  forall_char (P := fun c => c.toUpper.toLower = c.toLower) (by decide +kernel)
    (fun c hupper _ => by rw [hupper]) c

theorem isBlank_toUpper (c : Char) : isBlank c.toUpper = isBlank c :=
  forall_char (P := fun c => isBlank c.toUpper = isBlank c) (by decide +kernel)
    (fun c hupper _ => by rw [hupper]) c

theorem sameLetters_iff {cs ds : List Char} :
    SameLetters cs ds ↔ cs.map Char.toUpper = ds.map Char.toUpper := by
  constructor
  · intro h
    have hupper := congrArg (List.map Char.toUpper) h
    simpa [Function.comp_def, toUpper_toLower] using hupper
  · intro h
    have hlower := congrArg (List.map Char.toLower) h
    simpa [SameLetters, Function.comp_def, toLower_toUpper] using hlower

theorem IsWord.map_toUpper {w : List Char} (h : IsWord w) : IsWord (w.map Char.toUpper) := by
  refine ⟨by simpa using h.1, ?_⟩
  intro c hc
  obtain ⟨d, hd, rfl⟩ := List.mem_map.mp hc
  rw [isBlank_toUpper, h.2 d hd]

end Text

namespace Operator

open Text

/-- The words of an operator in their canonical case. -/
def words : Operator → List (List Char)
  | isNull => ["IS".toList, "NULL".toList]
  | op => [op.keyword.toList]

/-- The text has the words of the operator in letters of either case, and blanks around them. -/
def IsSpelledBy (op : Operator) (s : String) : Prop :=
  ∃ ws, Spaced ws s.toList ∧ List.Forall₂ SameLetters ws op.words

variable {op : Operator} {s : String} {d : Dialect}

theorem toList_keyword (op : Operator) : op.keyword.toList = [' '].intercalate op.words := by
  cases op <;> decide

theorem isWord_words (op : Operator) : ∀ w ∈ op.words, IsWord w := by
  cases op <;> decide

theorem map_toUpper_words (op : Operator) : op.words.map (List.map Char.toUpper) = op.words := by
  cases op <;> decide

theorem toList_normalize (s : String) :
    (normalize s).toList =
      [' '].intercalate ((Text.words s.toList).map (List.map Char.toUpper)) := by
  have hmap (ws : List (List Char)) : ([' '].intercalate ws).map Char.toUpper =
      [' '].intercalate (ws.map (List.map Char.toUpper)) := by
    induction ws with
    | nil => rfl
    | cons w ws ih =>
      cases ws with
      | nil => simp
      | cons v ws =>
        have hblank : [' '].map Char.toUpper = [' '] := by decide
        rw [List.intercalate_cons_cons, List.map_append, List.map_append, ih, hblank]
        exact List.intercalate_cons_cons.symm
  rw [normalize, toList_upper, String.toList_ofList, hmap]

/-- The words of a text in upper case are those of an operator. -/
theorem isSpelledBy_iff :
    op.IsSpelledBy s ↔ (Text.words s.toList).map (List.map Char.toUpper) = op.words := by
  have hsame {ws : List (List Char)} : List.Forall₂ SameLetters ws op.words ↔
      ws.map (List.map Char.toUpper) = op.words := by
    have hmap : List.Forall₂ (· = ·) (ws.map (List.map Char.toUpper))
          (op.words.map (List.map Char.toUpper)) ↔
        List.Forall₂ (fun v w => v.map Char.toUpper = w.map Char.toUpper) ws op.words := by
      rw [List.forall₂_map_left_iff, List.forall₂_map_right_iff]
    calc List.Forall₂ SameLetters ws op.words
      _ ↔ List.Forall₂ (fun v w => v.map Char.toUpper = w.map Char.toUpper) ws op.words :=
        ⟨.imp fun _ _ => sameLetters_iff.mp, .imp fun _ _ => sameLetters_iff.mpr⟩
      _ ↔ ws.map (List.map Char.toUpper) = op.words.map (List.map Char.toUpper) := by
        rw [← hmap, List.forall₂_eq_eq_eq]
      _ ↔ ws.map (List.map Char.toUpper) = op.words := by rw [map_toUpper_words]
  constructor
  · rintro ⟨ws, hspaced, hletters⟩
    rw [hspaced.words_eq]
    exact hsame.mp hletters
  · exact fun h => ⟨_, spaced_words s.toList, hsame.mpr h⟩

theorem keyword_eq_normalize_iff : op.keyword = normalize s ↔ op.IsSpelledBy s := by
  rw [isSpelledBy_iff, ← String.toList_inj, toList_keyword, toList_normalize]
  constructor
  · intro h
    -- a text with single blanks between its words is cut into these words again
    have hword : ∀ w ∈ (Text.words s.toList).map (List.map Char.toUpper), IsWord w := by
      intro w hw
      obtain ⟨v, hv, rfl⟩ := List.mem_map.mp hw
      exact ((spaced_words s.toList).isWord v hv).map_toUpper
    rw [← (spaced_intercalate hword).words_eq, ← h, (spaced_intercalate op.isWord_words).words_eq]
  · exact fun h => by rw [h]

theorem find?_keyword (op : Operator) :
    Dialect.postgres.operators.find? (·.keyword == op.keyword) = some op := by
  cases op <;> rfl

theorem keyword_inj {op' : Operator} : op.keyword = op'.keyword ↔ op = op' := by
  refine ⟨fun h => ?_, congrArg keyword⟩
  have hfind := find?_keyword op
  rw [h, find?_keyword] at hfind
  exact (Option.some.inj hfind).symm

theorem ofText_outcomes (d : Dialect) (s : String) :
    (∃ op ∈ d.operators, op.IsSpelledBy s ∧ ofText d s = .ok op) ∨
      (∀ op ∈ d.operators, ¬ op.IsSpelledBy s) ∧
        ofText d s = .error (.unsupportedOperator s d.name) := by
  unfold ofText
  cases hfind : d.operators.find? (·.keyword == normalize s) with
  | some op =>
    have hkeyword := List.find?_some hfind
    rw [beq_iff_eq, keyword_eq_normalize_iff] at hkeyword
    exact .inl ⟨op, List.mem_of_find?_eq_some hfind, hkeyword, rfl⟩
  | none =>
    refine .inr ⟨fun op hop hspelled => ?_, rfl⟩
    have hnone := List.find?_eq_none.mp hfind op hop
    rw [beq_iff_eq, keyword_eq_normalize_iff] at hnone
    exact hnone hspelled

theorem IsSpelledBy.unique {op' : Operator} (h : op.IsSpelledBy s) (h' : op'.IsSpelledBy s) :
    op = op' := by
  rw [← keyword_inj, keyword_eq_normalize_iff.mpr h, keyword_eq_normalize_iff.mpr h']

theorem ofText_eq_ok_iff : ofText d s = .ok op ↔ op ∈ d.operators ∧ op.IsSpelledBy s := by
  rcases ofText_outcomes d s with ⟨op', hmem, hspelled, h⟩ | ⟨hnone, h⟩
  · rw [h, Except.ok.injEq]
    constructor
    · rintro rfl
      exact ⟨hmem, hspelled⟩
    · exact fun ⟨_, hop⟩ => hspelled.unique hop
  · rw [h]
    simp only [reduceCtorEq, false_iff]
    exact fun ⟨hop, hspelled⟩ => hnone op hop hspelled

theorem ofText_eq_error_iff :
    ofText d s = .error (.unsupportedOperator s d.name) ↔
      ∀ op ∈ d.operators, ¬ op.IsSpelledBy s := by
  rcases ofText_outcomes d s with ⟨op', hmem, hspelled, h⟩ | ⟨hnone, h⟩
  · rw [h]
    simp only [reduceCtorEq, false_iff]
    exact fun hnone => hnone op' hmem hspelled
  · exact ⟨fun _ => hnone, fun _ => h⟩

theorem isSpelledBy_keyword (op : Operator) : op.IsSpelledBy op.keyword := by
  rw [isSpelledBy_iff, toList_keyword, (spaced_intercalate op.isWord_words).words_eq,
    map_toUpper_words]

theorem IsSpelledBy.length_eq (h : op.IsSpelledBy s) {ws : List (List Char)}
    (hws : Spaced ws s.toList) : ws.length = op.words.length := by
  obtain ⟨vs, hvs, hletters⟩ := h
  rw [← hws.words_eq, hvs.words_eq, hletters.length_eq]

theorem mem_operators_postgres_iff :
    op ∈ Dialect.postgres.operators ↔ op ∈ Dialect.mysql.operators ∨ op = ilike := by
  simp [Dialect.operators, Dialect.ownOperators]

/--
The texts that a dialect accepts are those with the words of one of its operators in letters of
either case, blanks around them and at least one between two. A text is taken for that operator, and
any other is refused as it stands; none with more or fewer words is taken for it. The keyword of the
operator is its words with single blanks, and is taken for it again. What MySQL accepts PostgreSQL
accepts alike, and beyond that the spellings of ILIKE alone.
-/
theorem ofText_language (d : Dialect) (s : String) :
    (∀ op, ofText d s = .ok op ↔ op ∈ d.operators ∧ op.IsSpelledBy s) ∧
    (ofText d s = .error (.unsupportedOperator s d.name) ↔
      ∀ op ∈ d.operators, ¬ op.IsSpelledBy s) ∧
    (∀ op ws, ofText d s = .ok op → Spaced ws s.toList → ws.length = op.words.length) ∧
    (∀ op, ofText d s = .ok op →
      op.keyword = .ofList ([' '].intercalate op.words) ∧ ofText d op.keyword = .ok op) ∧
    (∀ op, ofText .postgres s = .ok op ↔
      ofText .mysql s = .ok op ∨ op = ilike ∧ op.IsSpelledBy s) := by
  refine ⟨fun op => ofText_eq_ok_iff, ofText_eq_error_iff, ?_, ?_, ?_⟩
  · exact fun op ws h hws => (ofText_eq_ok_iff.mp h).2.length_eq hws
  · intro op h
    refine ⟨?_, ofText_eq_ok_iff.mpr ⟨(ofText_eq_ok_iff.mp h).1, op.isSpelledBy_keyword⟩⟩
    rw [← toList_keyword, String.ofList_toList]
  · intro op
    rw [ofText_eq_ok_iff, ofText_eq_ok_iff, mem_operators_postgres_iff, or_and_right]

/-- Blanks of several kinds around and between the words. -/
theorem ofText_language_isNull :
    let s := "\u3000is \tNull\u00a0"
    let ws := ["is".toList, "Null".toList]
    isNull ∈ Dialect.mysql.operators ∧ isNull.IsSpelledBy s ∧ ofText .mysql s = .ok isNull ∧
      Spaced ws s.toList ∧ ws.length = isNull.words.length ∧
      ofText .mysql isNull.keyword = .ok isNull ∧ ofText .postgres s = .ok isNull := by
  intro s ws
  have hmem : isNull ∈ Dialect.mysql.operators := by decide
  have hspaced : Spaced ws s.toList := words_eq_iff.mp (by decide)
  have hspelled : isNull.IsSpelledBy s := ⟨ws, hspaced, by decide⟩
  obtain ⟨hlanguage, -, hlength, hkeyword, hpostgres⟩ := ofText_language .mysql s
  have hok := (hlanguage isNull).mpr ⟨hmem, hspelled⟩
  exact ⟨hmem, hspelled, hok, hspaced, hlength isNull ws hok hspaced, (hkeyword isNull hok).2,
    (hpostgres isNull).mpr (.inl hok)⟩

example : ofText .postgres "< =" = .error (.unsupportedOperator "< =" "postgres") ∧
    ofText .postgres "ISNULL" = .error (.unsupportedOperator "ISNULL" "postgres") := by
  decide +kernel

end Operator

end BoundQuery
