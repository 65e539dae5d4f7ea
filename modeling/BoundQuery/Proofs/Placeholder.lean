import BoundQuery.Proofs.Registry

/-!
# Scanning and binding a text that is put together from parts

The scan of two texts one after the other is the scan of each, as long as the first leaves no region
open and the second ends whatever the first may have left pending: the name of a placeholder, or a
single colon. So the placeholders of a statement are those of its parts in order. Where no key
occurs twice and every key has a value, binding succeeds in both dialects, with the parameters
counted through from one and the values in the order of the placeholders.
-/

namespace BoundQuery

set_option autoImplicit false

namespace Piece

def spell : Piece → List Char
  | char c => [c]
  | key name => ':' :: name.toList

def key? : Piece → Option String
  | char _ => none
  | key name => some name

end Piece

namespace Placeholder

def keys (ps : List Piece) : List String := ps.filterMap Piece.key?

/-- The pieces with the placeholders counted through from `n + 1`, each written in its form. -/
def numbered (form : Nat → String) : Nat → List Piece → List Char
  | _, [] => []
  | n, .char c :: rest => c :: numbered form n rest
  | n, .key _ :: rest => (form (n + 1)).toList ++ numbered form (n + 1) rest

def scan (s : String) : List Piece := pieces .outside s.toList

/-- A text with its `i`-th placeholder replaced by the form of `i`. -/
def replaced (form : Nat → String) (s : String) : String := .ofList (numbered form 0 (scan s))

/-- A text with its `i`-th placeholder replaced by the parameter `n + i`. -/
def boundForm (d : Dialect) (n : Nat) (s : String) : String :=
  .ofList (numbered d.parameter n (scan s))

def Mode.isRegion : Mode → Bool
  | .region _ => true
  | _ => false

def Mode.pending : Mode → List Char
  | .outside | .region _ => []
  | .colon => [':']
  | .name letters => ':' :: letters

/-- No region is open behind the text. -/
def Closed (s : String) : Prop := (modeAfter .outside s.toList).isRegion = false

/-- The text goes on neither with the name of a placeholder nor with a colon before it. -/
def Breaks (s : String) : Prop :=
  (s.toList.head?.all fun c => !Identifier.isKeyChar c && c != ':') = true

/-- No character of the text means anything to a scan. -/
def Plain (s : String) : Prop := ∀ c ∈ s.toList, isMark c = false ∧ c ≠ ':'

/-- A text that leaves no region open, with the keys of its placeholders. -/
structure Reads (s : String) (ks : List String) : Prop where
  closed : Closed s
  keys : keys (scan s) = ks

instance (s : String) : Decidable (Closed s) := inferInstanceAs (Decidable (_ = _))

instance (s : String) : Decidable (Breaks s) := inferInstanceAs (Decidable (_ = _))

instance (s : String) : Decidable (Plain s) :=
  List.decidableBAll (fun c => isMark c = false ∧ c ≠ ':') s.toList

instance (s : String) (ks : List String) : Decidable (Reads s ks) :=
  decidable_of_iff (Closed s ∧ keys (scan s) = ks) ⟨fun h => ⟨h.1, h.2⟩, fun h => ⟨h.1, h.2⟩⟩

@[simp] theorem keys_append (ps qs : List Piece) : keys (ps ++ qs) = keys ps ++ keys qs := by
  simp [keys]

@[simp] theorem keys_char_cons (c : Char) (ps : List Piece) : keys (.char c :: ps) = keys ps := rfl

@[simp] theorem keys_key_cons (name : String) (ps : List Piece) :
    keys (.key name :: ps) = name :: keys ps := rfl

@[simp] theorem keys_chars (cs : List Char) : keys (cs.map .char) = [] := by
  induction cs with
  | nil => rfl
  | cons c rest ih => exact ih

@[simp] theorem pieces_nil (m : Mode) : pieces m [] = finish m := rfl

theorem pieces_cons (m : Mode) (c : Char) (rest : List Char) :
    pieces m (c :: rest) = (step m c).2 ++ pieces (step m c).1 rest := by
  simp [pieces, settled, modeAfter]

-- a scan loses no character and adds none: what is settled and what is pending spell its input
theorem spell_step (m : Mode) (c : Char) :
    (step m c).2.flatMap Piece.spell ++ (step m c).1.pending = m.pending ++ [c] := by
  have houtside : (stepOutside c).2.flatMap Piece.spell ++ (stepOutside c).1.pending = [c] := by
    unfold stepOutside
    split
    · rfl
    · split
      next h => rw [h]; rfl
      next => rfl
  cases m with
  | outside => exact houtside
  | region mark =>
    by_cases h : c = mark <;> simp [step, h, Mode.pending, Piece.spell]
  | colon =>
    simp only [step]
    split
    next h => rw [h]; rfl
    next =>
      split
      · rfl
      · exact congrArg (':' :: ·) houtside
  | name letters =>
    simp only [step]
    split
    · simp [Mode.pending]
    · simp only [List.flatMap_cons, List.append_assoc, houtside]
      simp [Piece.spell, Mode.pending]

theorem spell_pieces (m : Mode) (cs : List Char) :
    (pieces m cs).flatMap Piece.spell = m.pending ++ cs := by
  induction cs generalizing m with
  | nil => cases m <;> simp [finish, Piece.spell, Mode.pending]
  | cons c rest ih =>
    rw [pieces_cons, List.flatMap_append, ih, ← List.append_assoc, spell_step]
    simp

theorem spell_scan (s : String) : (scan s).flatMap Piece.spell = s.toList :=
  spell_pieces .outside s.toList

theorem step_of_breaks {m : Mode} (hm : m.isRegion = false) {c : Char}
    (hkey : Identifier.isKeyChar c = false) (hcolon : c ≠ ':') :
    step m c = ((stepOutside c).1, finish m ++ (stepOutside c).2) := by
  have hstart : Identifier.isKeyStart c = false := by
    cases h : Identifier.isKeyStart c with
    | false => rfl
    | true => simp [Identifier.isKeyChar_of_isKeyStart h] at hkey
  cases m with
  | outside => rfl
  | region mark => cases hm
  | colon => simp [step, hcolon, hstart, finish]
  | name letters => simp [step, hkey, finish]

theorem Breaks.head {s : String} (hs : Breaks s) {c : Char} {rest : List Char}
    (h : s.toList = c :: rest) : Identifier.isKeyChar c = false ∧ c ≠ ':' := by
  unfold Breaks at hs
  rw [h] at hs
  simpa using hs

theorem pieces_of_breaks {m : Mode} (hm : m.isRegion = false) {s : String} (hs : Breaks s) :
    pieces m s.toList = finish m ++ scan s := by
  unfold scan
  cases h : s.toList with
  | nil => cases m <;> rfl
  | cons c rest =>
    obtain ⟨hkey, hcolon⟩ := hs.head h
    -- what was pending is settled before `c`, so the scan goes on as if it began there
    rw [pieces_cons, pieces_cons, step_of_breaks hm hkey hcolon, List.append_assoc]
    rfl

theorem scan_append {a b : String} (ha : Closed a) (hb : Breaks b) :
    scan (a ++ b) = scan a ++ scan b := by
  rw [scan, String.toList_append, pieces_append, pieces_of_breaks ha hb, ← List.append_assoc]
  rfl

theorem Closed.append {a b : String} (ha : Closed a) (hb : Closed b) (h : Breaks b) :
    Closed (a ++ b) := by
  unfold Closed at *
  rw [String.toList_append, modeAfter_append]
  cases hlist : b.toList with
  | nil => exact ha
  | cons c rest =>
    obtain ⟨hkey, hcolon⟩ := h.head hlist
    rw [hlist] at hb
    simp only [modeAfter, List.foldl_cons] at ha hb ⊢
    rw [step_of_breaks ha hkey hcolon]
    exact hb

theorem Breaks.append {a b : String} (ha : Breaks a) (hb : Breaks b) : Breaks (a ++ b) := by
  unfold Breaks at *
  rw [String.toList_append]
  cases h : a.toList with
  | nil => exact hb
  | cons c rest => rw [h] at ha; exact ha

theorem Breaks.append_right {a : String} (ha : Breaks a) (hne : a ≠ "") (b : String) :
    Breaks (a ++ b) := by
  unfold Breaks at *
  rw [String.toList_append]
  cases h : a.toList with
  | nil => exact absurd (String.toList_eq_nil_iff.mp h) hne
  | cons c rest => rw [h] at ha; exact ha

theorem breaks_of_blank {a : String} (h : a.toList.head? = some ' ') (b : String) :
    Breaks (a ++ b) := by
  unfold Breaks
  rw [String.toList_append, List.head?_append, h]
  rfl

theorem step_of_mark {c : Char} (h : isMark c = true) :
    step .outside c = (.region c, [.char c]) := by
  simp [step, stepOutside, h]

theorem step_of_plain {c : Char} (hmark : isMark c = false) (hcolon : c ≠ ':') :
    step .outside c = (.outside, [.char c]) := by
  simp [step, stepOutside, hmark, hcolon]

theorem modeAfter_of_plain {cs : List Char} (h : ∀ c ∈ cs, isMark c = false ∧ c ≠ ':') :
    modeAfter .outside cs = .outside ∧ settled .outside cs = cs.map .char := by
  induction cs with
  | nil => exact ⟨rfl, rfl⟩
  | cons c rest ih =>
    obtain ⟨hmark, hcolon⟩ := h c List.mem_cons_self
    have hstep := step_of_plain hmark hcolon
    obtain ⟨hmode, hsettled⟩ := ih fun d hd => h d (List.mem_cons_of_mem c hd)
    simp only [modeAfter, List.foldl_cons, settled, hstep, List.map_cons]
    exact ⟨hmode, by rw [hsettled]; rfl⟩

theorem modeAfter_region {mark : Char} {cs : List Char} (h : mark ∉ cs) :
    modeAfter (.region mark) cs = .region mark ∧ settled (.region mark) cs = cs.map .char := by
  induction cs with
  | nil => exact ⟨rfl, rfl⟩
  | cons c rest ih =>
    simp only [List.mem_cons, not_or] at h
    obtain ⟨hc, hrest⟩ := h
    have hstep : step (.region mark) c = (.region mark, [.char c]) := by
      simp [step, Ne.symm hc]
    obtain ⟨hmode, hsettled⟩ := ih hrest
    simp only [modeAfter, List.foldl_cons, settled, hstep, List.map_cons]
    exact ⟨hmode, by rw [hsettled]; rfl⟩

theorem Plain.append {a b : String} (ha : Plain a) (hb : Plain b) : Plain (a ++ b) := by
  intro c hc
  rw [String.toList_append] at hc
  rcases List.mem_append.mp hc with hc | hc
  · exact ha c hc
  · exact hb c hc

theorem Plain.scan_append {a : String} (ha : Plain a) (b : String) :
    scan (a ++ b) = a.toList.map .char ++ scan b := by
  obtain ⟨hmode, hsettled⟩ := modeAfter_of_plain ha
  rw [scan, String.toList_append, pieces_append, hmode, hsettled]
  rfl

theorem Plain.closed_append {a b : String} (ha : Plain a) (hb : Closed b) : Closed (a ++ b) := by
  unfold Closed at *
  rw [String.toList_append, modeAfter_append, (modeAfter_of_plain ha).1]
  exact hb

theorem Plain.reads_append {a b : String} {ks : List String} (ha : Plain a) (hb : Reads b ks) :
    Reads (a ++ b) ks :=
  ⟨ha.closed_append hb.closed, by rw [ha.scan_append, keys_append, keys_chars, hb.keys]; rfl⟩

theorem reads_empty : Reads "" [] := by decide

theorem Plain.reads {a : String} (ha : Plain a) : Reads a [] := by
  have h := ha.reads_append reads_empty
  rwa [String.append_empty] at h

theorem Reads.append {a b : String} {ks ls : List String} (ha : Reads a ks) (hb : Reads b ls)
    (h : Breaks b) : Reads (a ++ b) (ks ++ ls) :=
  ⟨ha.closed.append hb.closed h, by rw [scan_append ha.closed h, keys_append, ha.keys, hb.keys]⟩

theorem Reads.append_nil {a b : String} {ks : List String} (ha : Reads a []) (hb : Reads b ks)
    (h : Breaks b) : Reads (a ++ b) ks := ha.append hb h

theorem plain_naturalText (n : Nat) : Plain (Text.naturalText n) := by
  intro c hc
  rw [Text.toList_naturalText] at hc
  have hdigit := Nat.isDigit_of_mem_toDigits (by decide) (by decide) hc
  constructor
  · cases hmark : isMark c with
    | false => rfl
    | true =>
      simp only [isMark, Bool.or_eq_true, beq_iff_eq] at hmark
      rcases hmark with (rfl | rfl) | rfl <;> exact absurd hdigit (by decide)
  · rintro rfl
    exact absurd hdigit (by decide)

theorem modeAfter_name (letters cs : List Char) (h : ∀ c ∈ cs, Identifier.isKeyChar c = true) :
    modeAfter (.name letters) cs = .name (letters ++ cs) ∧ settled (.name letters) cs = [] := by
  induction cs generalizing letters with
  | nil => simp [modeAfter, settled]
  | cons c rest ih =>
    have hstep : step (.name letters) c = (.name (letters ++ [c]), []) := by
      simp [step, h c List.mem_cons_self]
    obtain ⟨hmode, hsettled⟩ := ih (letters ++ [c]) fun d hd => h d (List.mem_cons_of_mem c hd)
    simp only [modeAfter, List.foldl_cons, settled, hstep] at hmode ⊢
    exact ⟨by rw [hmode]; simp, by rw [hsettled]; rfl⟩

theorem modeAfter_key {name : List Char} (h : IsName name) :
    modeAfter .outside (':' :: name) = .name name ∧ settled .outside (':' :: name) = [] := by
  obtain ⟨c, letters, rfl, hstart, hletters⟩ := h
  have hstep : step .colon c = (.name [c], []) := by
    simp [step, Identifier.ne_colon_of_isKeyStart hstart, hstart]
  obtain ⟨hmode, hsettled⟩ := modeAfter_name [c] letters hletters
  constructor
  · change modeAfter (step .colon c).1 letters = _
    rw [hstep, hmode]
    rfl
  · change [] ++ ((step .colon c).2 ++ settled (step .colon c).1 letters) = _
    rw [hstep, hsettled]
    rfl

theorem scan_key {key : String} (h : IsName key.toList) :
    scan (":" ++ key) = [.key key] ∧ Closed (":" ++ key) := by
  have hlist : (":" ++ key).toList = ':' :: key.toList := by rw [String.toList_append]; rfl
  obtain ⟨hmode, hsettled⟩ := modeAfter_key h
  constructor
  · rw [scan, hlist, pieces, hmode, hsettled, finish, String.ofList_toList, List.nil_append]
  · unfold Closed
    rw [hlist, hmode]
    rfl

theorem reads_key {key : String} (h : IsName key.toList) : Reads (":" ++ key) [key] :=
  ⟨(scan_key h).2, by rw [(scan_key h).1]; rfl⟩

theorem numbered_append (form : Nat → String) (n : Nat) (ps qs : List Piece) :
    numbered form n (ps ++ qs) =
      numbered form n ps ++ numbered form (n + (keys ps).length) qs := by
  induction ps generalizing n with
  | nil => rfl
  | cons p rest ih =>
    cases p with
    | char c => simp only [List.cons_append, numbered, ih, keys_char_cons]
    | key name =>
      simp only [List.cons_append, numbered, ih, keys_key_cons, List.length_cons,
        List.append_assoc, Nat.add_assoc, Nat.add_comm 1]

theorem numbered_of_keyless (form : Nat → String) (n : Nat) {ps : List Piece} (h : keys ps = []) :
    numbered form n ps = ps.flatMap Piece.spell := by
  induction ps with
  | nil => rfl
  | cons p rest ih =>
    cases p with
    | char c =>
      rw [keys_char_cons] at h
      simp [numbered, ih h, Piece.spell]
    | key name => simp at h

theorem Reads.boundForm_eq {a : String} (d : Dialect) (n : Nat) (ha : Reads a []) :
    boundForm d n a = a := by
  rw [boundForm, numbered_of_keyless d.parameter n ha.keys, spell_scan, String.ofList_toList]

theorem boundForm_key (d : Dialect) (n : Nat) {key : String} (h : IsName key.toList) :
    boundForm d n (":" ++ key) = d.parameter (n + 1) := by
  rw [boundForm, (scan_key h).1, numbered, numbered, List.append_nil, String.ofList_toList]

theorem Reads.boundForm_append {a b : String} {ks : List String} (d : Dialect) (n : Nat)
    (ha : Reads a ks) (hb : Breaks b) :
    boundForm d n (a ++ b) = boundForm d n a ++ boundForm d (n + ks.length) b := by
  rw [boundForm, scan_append ha.closed hb, numbered_append, ha.keys, String.ofList_append]
  rfl

theorem spell_chars (cs : List Char) : (cs.map Piece.char).flatMap Piece.spell = cs := by
  rw [List.flatMap_map]
  exact List.flatMap_singleton' cs

theorem Plain.boundForm_append {a : String} (d : Dialect) (n : Nat) (ha : Plain a) (b : String) :
    boundForm d n (a ++ b) = a ++ boundForm d n b := by
  have hchars := numbered_of_keyless d.parameter n (keys_chars a.toList)
  rw [boundForm, ha.scan_append, numbered_append, hchars, spell_chars, keys_chars,
    String.ofList_append, String.ofList_toList]
  rfl

end Placeholder

open Placeholder

theorem Dialect.place_of_fresh (d : Dialect) {parameters : List (String × Value)} {key : String}
    (h : key ∉ parameters.map (·.1)) (value : Value) :
    d.place parameters key value = (parameters.length + 1, parameters ++ [(key, value)]) := by
  cases d with
  | mysql => rfl
  | postgres =>
    have hnone : parameters.findIdx? (·.1 == key) = none := by
      rw [List.findIdx?_eq_none_iff]
      intro entry hentry
      have hne : entry.1 ≠ key := fun heq => h (List.mem_map.mpr ⟨entry, hentry, heq⟩)
      simpa using hne
    simp only [place, hnone]

namespace Registry

variable {lookup : String → Option Value}

theorem fill_of_nodup (d : Dialect) (ps : List Piece) (parameters : List (String × Value))
    (values : List Value) (hnodup : (parameters.map (·.1) ++ Placeholder.keys ps).Nodup)
    (hheld : (Placeholder.keys ps).map lookup = values.map some) :
    fill lookup d parameters ps =
      .ok (numbered d.parameter parameters.length ps,
        parameters ++ (Placeholder.keys ps).zip values) := by
  induction ps generalizing parameters values with
  | nil => simp [fill, numbered, Placeholder.keys]
  | cons p rest ih =>
    cases p with
    | char c =>
      rw [keys_char_cons] at hnodup hheld ⊢
      simp only [fill, ih parameters values hnodup hheld, numbered]
    | key name =>
      -- the key is not among the parameters so far, so it gets the next number in both dialects
      rw [keys_key_cons] at hnodup hheld ⊢
      cases values with
      | nil => simp at hheld
      | cons value values =>
        simp only [List.map_cons, List.cons.injEq] at hheld
        have hfresh : name ∉ parameters.map (·.1) := fun hmem =>
          (List.nodup_append.mp hnodup).2.2 name hmem name List.mem_cons_self rfl
        have hnext : ((parameters ++ [(name, value)]).map (·.1) ++
            Placeholder.keys rest).Nodup := by simpa using hnodup
        have htail := ih (parameters ++ [(name, value)]) values hnext hheld.2
        simp only [fill, hheld.1, d.place_of_fresh hfresh, htail, numbered, List.length_append,
          List.length_singleton, List.append_assoc, List.singleton_append, List.zip_cons_cons]

/-- Binding fills the pieces of a text with what the registry gives for their keys. -/
theorem bind_eq_fill (r : Registry) (d : Dialect) (sql : String) :
    r.bind d sql = (fill r.get? d [] (scan sql)).map fun filled =>
      ⟨.ofList filled.1, filled.2.map (·.2)⟩ := by
  rw [bind, collect_entries, show pieces .outside sql.toList = scan sql from rfl]
  cases fill r.get? d [] (scan sql) <;> rfl

/-- Binding where no key occurs twice: the placeholders are counted through, and the values come in
their order. -/
theorem bind_of_nodup (r : Registry) (d : Dialect) {text : String} {values : List Value}
    (hnodup : (Placeholder.keys (scan text)).Nodup)
    (hheld : (Placeholder.keys (scan text)).map r.get? = values.map some) :
    r.bind d text = .ok ⟨boundForm d 0 text, values⟩ := by
  have hlength : values.length ≤ (Placeholder.keys (scan text)).length := by
    have h := congrArg List.length hheld
    simp only [List.length_map] at h
    omega
  rw [bind_eq_fill, fill_of_nodup d (scan text) [] values (by simpa using hnodup) hheld]
  simp only [Except.map, List.nil_append, List.length_nil, List.map_snd_zip hlength]
  rfl

end Registry

end BoundQuery
