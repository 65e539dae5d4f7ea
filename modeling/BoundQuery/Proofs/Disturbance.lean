import BoundQuery.Proofs.Layout

/-!
# Names that disturb a binding

Escaping leaves one mark in a name, the grave accent. So where a scan of a statement stands is known
from the number of grave accents before it: outside of every region if it is even, inside of one if
it is odd. Binding puts each placeholder at its place if and only if each is met outside of every
region, and no name holds a placeholder where the scan meets it. If a name does otherwise, binding
fails or goes on with another text.
-/

namespace BoundQuery

set_option autoImplicit false

namespace Placeholder

/-- The mode after something that ends what is pending. -/
def Mode.settle : Mode → Mode
  | .region mark => .region mark
  | _ => .outside

theorem pieces_eq_settle (m : Mode) {s : String} (hs : Breaks s) :
    pieces m s.toList = finish m ++ pieces m.settle s.toList := by
  cases m with
  | region mark => rfl
  | _ => exact pieces_of_breaks rfl hs

theorem pieces_append_of_breaks (m : Mode) (a : String) {b : String} (hb : Breaks b) :
    pieces m (a ++ b).toList =
      pieces m a.toList ++ pieces (modeAfter m a.toList).settle b.toList := by
  rw [String.toList_append, pieces_append, pieces_eq_settle _ hb, ← List.append_assoc]
  rfl

end Placeholder

open Placeholder

theorem Dialect.parameter_ne_colon (d : Dialect) (n : Nat) :
    ∃ c rest, (d.parameter n).toList = c :: rest ∧ c ≠ ':' := by
  cases d with
  | mysql => exact ⟨'?', [], by simp [Dialect.parameter], by decide⟩
  | postgres => exact ⟨'$', n.repr.toList, by simp [Dialect.parameter], by decide⟩

/-- A filled text goes on as the pieces spell if and only if there is no placeholder among them. -/
theorem Registry.fill_append_eq_ok_iff (lookup : String → Option Value) (d : Dialect)
    (parameters : List (String × Value)) (ps qs : List Piece) (text : List Char)
    (all : List (String × Value)) :
    fill lookup d parameters (ps ++ qs) = .ok (ps.flatMap Piece.spell ++ text, all) ↔
      Placeholder.keys ps = [] ∧ fill lookup d parameters qs = .ok (text, all) := by
  induction ps with
  | nil => simp [Placeholder.keys]
  | cons p rest ih =>
    cases p with
    | char c =>
      rw [keys_char_cons, ← ih, List.cons_append, fill, List.flatMap_cons]
      cases fill lookup d parameters (rest ++ qs) with
      | error e => simp
      | ok result => simp [Piece.spell, Prod.ext_iff]
    | key name =>
      -- a parameter does not begin as the placeholder does
      rw [keys_key_cons, List.cons_append, fill]
      refine iff_of_false ?_ fun h => List.cons_ne_nil _ _ h.1
      cases lookup name with
      | none => simp
      | some value =>
        obtain ⟨c, cs, hparameter, hcolon⟩ :=
          d.parameter_ne_colon (d.place parameters name value).1
        simp only
        cases fill lookup d (d.place parameters name value).2 (rest ++ qs) with
        | error e => simp
        | ok result => simp [hparameter, Piece.spell, hcolon]

/-- Whether the number of grave accents in a text is odd, so that a scan goes in or out. -/
def Layout.crosses (cs : List Char) : Bool := cs.count '\x60' % 2 == 1

theorem Layout.crosses_cons (c : Char) (cs : List Char) :
    crosses (c :: cs) = ((c == '\x60') ^^ crosses cs) := by
  unfold crosses
  rw [List.count_cons]
  rcases Nat.mod_two_eq_zero_or_one (cs.count '\x60') with h | h <;>
    by_cases hc : c = '\x60' <;> simp [h, hc, Nat.add_mod]

/-- A text whose only marks are grave accents. -/
def Placeholder.Ticked (s : String) : Prop := ∀ c ∈ s.toList, isMark c = true → c = '\x60'

theorem Identifier.isMark_escapeChar {c d : Char} (hc : c ∈ escapeChar d)
    (hmark : isMark c = true) : c = '\x60' := by
  have hescaped (text : String) (hplain : Plain text) (h : c ∈ text.toList) : c = '\x60' := by
    rw [(hplain c h).1] at hmark
    cases hmark
  unfold escapeChar at hc
  split at hc
  · exact hescaped "&amp;" (by decide) hc
  split at hc
  · exact hescaped "&lt;" (by decide) hc
  split at hc
  · exact hescaped "&gt;" (by decide) hc
  split at hc
  · exact hescaped "&quot;" (by decide) hc
  split at hc
  · exact hescaped "&#039;" (by decide) hc
  next hdouble hsingle =>
    cases List.mem_singleton.mp hc
    simpa [isMark, hdouble, hsingle] using hmark

theorem Identifier.ticked_escape (name : String) : Ticked (escape name) := by
  intro c hc hmark
  rw [toList_escape] at hc
  obtain ⟨d, _, hd⟩ := List.mem_flatMap.mp hc
  exact isMark_escapeChar hd hmark

/-- Where a scan stands, outside of a region or in one between grave accents. -/
def Layout.standing (inside : Bool) : Mode := if inside then .region '\x60' else .outside

/-- Whether a scan takes a part for what it is: for no placeholder if it is a name. -/
def Part.Clear (inside : Bool) : Part → Prop
  | .fixed _ => True
  | .name text => Placeholder.keys (pieces (Layout.standing inside) text.toList) = []
  | .slot _ => inside = false

/-- Whether a scan stands inside a region behind a part. -/
def Part.cross (inside : Bool) : Part → Bool
  | .name text => inside ^^ Layout.crosses text.toList
  | .fixed _ | .slot _ => inside

/-- A scan takes all parts for what they are. -/
def Layout.Undisturbed : Bool → List Part → Prop
  | _, [] => True
  | inside, part :: rest => part.Clear inside ∧ Undisturbed (part.cross inside) rest

instance (inside : Bool) : (part : Part) → Decidable (part.Clear inside)
  | .fixed _ => inferInstanceAs (Decidable True)
  | .name _ => inferInstanceAs (Decidable (_ = _))
  | .slot _ => inferInstanceAs (Decidable (_ = _))

instance Layout.decidableUndisturbed : (inside : Bool) → (l : List Part) →
    Decidable (Undisturbed inside l)
  | _, [] => inferInstanceAs (Decidable True)
  | inside, part :: rest =>
    have := decidableUndisturbed (part.cross inside) rest
    inferInstanceAs (Decidable (_ ∧ _))

namespace Placeholder

theorem settle_stepOutside {c : Char} (hc : isMark c = true → c = '\x60') :
    (stepOutside c).1.settle = Layout.standing (c == '\x60') := by
  unfold stepOutside
  split
  next hmark =>
    rw [hc hmark]
    rfl
  next hmark =>
    have hne : (c == '\x60') = false := by
      rw [beq_eq_false_iff_ne]
      rintro rfl
      exact hmark rfl
    rw [hne]
    split <;> rfl

theorem settle_step {m : Mode} {inside : Bool} (hm : m.settle = Layout.standing inside) {c : Char}
    (hc : isMark c = true → c = '\x60') :
    (step m c).1.settle = Layout.standing (inside ^^ c == '\x60') := by
  cases inside with
  | true =>
    cases m with
    | region mark =>
      cases hm
      by_cases h : c = '\x60' <;> simp [step, h, Mode.settle, Layout.standing]
    | _ => cases hm
  | false =>
    rw [Bool.false_xor]
    -- what may go on with something pending is no grave accent
    cases m with
    | outside => exact settle_stepOutside hc
    | region mark => cases hm
    | colon =>
      simp only [step]
      split
      next hcolon => rw [hcolon]; rfl
      next =>
        split
        next hstart =>
          have hne : c ≠ '\x60' := by
            rintro rfl
            exact absurd hstart (by decide)
          rw [beq_eq_false_iff_ne.mpr hne]
          rfl
        next => exact settle_stepOutside hc
    | name letters =>
      simp only [step]
      split
      next hkey =>
        have hne : c ≠ '\x60' := by
          rintro rfl
          exact absurd hkey (by decide)
        rw [beq_eq_false_iff_ne.mpr hne]
        rfl
      next => exact settle_stepOutside hc

theorem settle_modeAfter {m : Mode} {inside : Bool} (hm : m.settle = Layout.standing inside)
    {cs : List Char} (hcs : ∀ c ∈ cs, isMark c = true → c = '\x60') :
    (modeAfter m cs).settle = Layout.standing (inside ^^ Layout.crosses cs) := by
  induction cs generalizing m inside with
  | nil => simpa [modeAfter, Layout.crosses] using hm
  | cons c rest ih =>
    have hstep := settle_step hm (hcs c List.mem_cons_self)
    have hrest := ih hstep fun d hd => hcs d (List.mem_cons_of_mem c hd)
    rw [Layout.crosses_cons, ← Bool.xor_assoc]
    exact hrest

theorem pieces_standing_of_plain {a : String} (ha : Plain a) (inside : Bool) (s : String) :
    pieces (Layout.standing inside) (a ++ s).toList =
      a.toList.map .char ++ pieces (Layout.standing inside) s.toList := by
  cases inside with
  | false => exact ha.scan_append s
  | true =>
    have hmark : '\x60' ∉ a.toList := by
      intro hmem
      exact absurd (ha _ hmem).1 (by decide)
    obtain ⟨hmode, hsettled⟩ := modeAfter_region hmark
    rw [Layout.standing, if_pos rfl, String.toList_append, pieces_append, hmode, hsettled]

/-- Outside a region a placeholder is a piece of its own. -/
theorem pieces_standing_slot {k s : String} (hk : IsName k.toList) (hs : Breaks s) :
    pieces (Layout.standing false) (":" ++ k ++ s).toList =
      .key k :: pieces (Layout.standing false) s.toList := by
  change scan (":" ++ k ++ s) = .key k :: scan s
  rw [scan_append (scan_key hk).2 hs, (scan_key hk).1]
  rfl

end Placeholder

/-- Inside a region a placeholder stays as it is, so the text does not go on with a parameter. -/
theorem Registry.fill_slot_ne_ok (lookup : String → Option Value) (d : Dialect)
    (parameters : List (String × Value)) (k s : String) (n : Nat) (text : List Char)
    (all : List (String × Value)) :
    fill lookup d parameters (pieces (Layout.standing true) (":" ++ k ++ s).toList) ≠
      .ok ((d.parameter n).toList ++ text, all) := by
  obtain ⟨c, cs, hparameter, hcolon⟩ := d.parameter_ne_colon n
  have hlist : (":" ++ k ++ s).toList = ':' :: (k ++ s).toList := by simp
  have hpieces : pieces (Layout.standing true) (":" ++ k ++ s).toList =
      .char ':' :: pieces (Layout.standing true) (k ++ s).toList := by
    rw [hlist, pieces_cons]
    rfl
  rw [hpieces, fill, hparameter]
  cases fill lookup d parameters (pieces (Layout.standing true) (k ++ s).toList) with
  | error e => simp
  | ok result => simp [Ne.symm hcolon]

open Layout

theorem Lays.fill_eq_ok_iff {s : String} {l : List Part} (h : Lays s l)
    (hnames : ∀ n ∈ names l, Ticked n) (lookup : String → Option Value) (d : Dialect)
    (inside : Bool) (parameters all : List (String × Value)) (values : List Value)
    (hnodup : (parameters.map (·.1) ++ slots l).Nodup)
    (hheld : (slots l).map lookup = values.map some) :
    Registry.fill lookup d parameters (pieces (standing inside) s.toList) =
        .ok (filled d parameters.length l, all) ↔
      Undisturbed inside l ∧ all = parameters ++ (slots l).zip values := by
  induction h generalizing inside parameters values with
  | nil =>
    have hpieces : pieces (standing inside) ("" : String).toList = [] := by cases inside <;> rfl
    rw [hpieces]
    simp [Registry.fill, filled, Undisturbed, slots, eq_comm]
  | @fixed a s l ha _ ih =>
    rw [pieces_standing_of_plain ha]
    have hspell := Registry.fill_append_eq_ok_iff lookup d parameters (a.toList.map .char)
      (pieces (standing inside) s.toList) (filled d parameters.length l) all
    rw [spell_chars, keys_chars] at hspell
    refine hspell.trans ?_
    rw [ih hnames inside parameters values hnodup hheld]
    simp [Undisturbed, Part.Clear, Part.cross, slots]
  | @name a s l hbreaks _ ih =>
    have hsettle : (standing inside).settle = standing inside := by cases inside <;> rfl
    have hpending : (standing inside).pending = [] := by cases inside <;> rfl
    have hmode := settle_modeAfter hsettle (hnames a List.mem_cons_self)
    have hspell := Registry.fill_append_eq_ok_iff lookup d parameters
      (pieces (standing inside) a.toList)
      (pieces (standing (inside ^^ crosses a.toList)) s.toList) (filled d parameters.length l) all
    rw [spell_pieces, hpending, List.nil_append] at hspell
    rw [pieces_append_of_breaks _ a hbreaks, hmode]
    refine hspell.trans ?_
    rw [ih (fun n hn => hnames n (List.mem_cons_of_mem a hn)) _ parameters values hnodup hheld]
    simp only [Undisturbed, Part.Clear, Part.cross, slots, and_assoc]
  | @slot k s l hk hbreaks _ ih =>
    cases inside with
    | true =>
      refine iff_of_false ?_ fun h => absurd h.1.1 (by simp [Part.Clear])
      exact Registry.fill_slot_ne_ok lookup d parameters k s (parameters.length + 1) _ all
    | false =>
      cases values with
      | nil => cases hheld
      | cons value values =>
        simp only [slots, List.map_cons, List.cons.injEq] at hheld
        have hfresh : k ∉ parameters.map (·.1) := fun hmem =>
          (List.nodup_append.mp hnodup).2.2 k hmem k List.mem_cons_self rfl
        have hnext : ((parameters ++ [(k, value)]).map (·.1) ++ slots l).Nodup := by
          simpa [slots] using hnodup
        have hrest := ih hnames false (parameters ++ [(k, value)]) values hnext hheld.2
        rw [List.length_append, List.append_assoc] at hrest
        rw [pieces_standing_slot hk hbreaks, Registry.fill, hheld.1]
        simp only [d.place_of_fresh hfresh, filled]
        cases hfill : Registry.fill lookup d (parameters ++ [(k, value)])
            (pieces (standing false) s.toList) with
        | error e =>
          rw [hfill] at hrest
          simpa [Undisturbed, Part.Clear, Part.cross, slots] using hrest
        | ok result =>
          rw [hfill] at hrest
          simpa [Undisturbed, Part.Clear, Part.cross, slots, Prod.ext_iff] using hrest

theorem Lays.bind_eq_ok_iff {s : String} {l : List Part} (h : Lays s l)
    (hnames : ∀ n ∈ names l, Ticked n) (r : Registry) (d : Dialect) {values : List Value}
    (hnodup : (slots l).Nodup) (hheld : (slots l).map r.get? = values.map some) :
    r.bind d s = .ok ⟨.ofList (filled d 0 l), values⟩ ↔ Undisturbed false l := by
  have hlength : values.length = (slots l).length := by
    have hcount := congrArg List.length hheld
    simpa using hcount.symm
  have hfill (all : List (String × Value)) := h.fill_eq_ok_iff hnames r.get? d false [] all values
    (by simpa using hnodup) hheld
  have hscan : scan s = pieces (standing false) s.toList := rfl
  rw [Registry.bind_eq_fill, hscan]
  constructor
  · intro hbind
    cases hresult : Registry.fill r.get? d [] (pieces (standing false) s.toList) with
    | error e =>
      rw [hresult] at hbind
      cases hbind
    | ok result =>
      rw [hresult] at hbind
      simp only [Except.map, Except.ok.injEq, BoundStatement.mk.injEq] at hbind
      have htext : result.1 = filled d 0 l := by
        simpa using congrArg String.toList hbind.1
      exact ((hfill result.2).mp (by rw [hresult, List.length_nil, ← htext])).1
  · intro hclear
    rw [(hfill _).mpr ⟨hclear, rfl⟩]
    simp [Except.map, List.map_snd_zip (Nat.le_of_eq hlength)]

end BoundQuery
