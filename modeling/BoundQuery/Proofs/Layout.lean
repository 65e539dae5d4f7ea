import BoundQuery.Proofs.Placeholder

/-!
# The layout of a statement

A statement is put together from fixed words, names and placeholders, and behind a name or a
placeholder stands something that ends it. A fixed word means nothing to a scan. So only a name can
come between a placeholder and its value: by opening a region before it, or by holding a placeholder
of its own. Binding puts every placeholder at its place if and only if no name does.
-/

namespace BoundQuery

set_option autoImplicit false

open Placeholder

inductive Part where
  | fixed (text : String)
  | name (text : String)
  | slot (key : String)
  deriving DecidableEq, Repr

namespace Layout

def slots : List Part → List String
  | [] => []
  | .slot key :: rest => key :: slots rest
  | .fixed _ :: rest | .name _ :: rest => slots rest

def names : List Part → List String
  | [] => []
  | .name text :: rest => text :: names rest
  | .fixed _ :: rest | .slot _ :: rest => names rest

/-- The parts of several things, with a comma between two of them. -/
def commas {α : Type} (f : α → List Part) : List α → List Part
  | [] => []
  | [a] => f a
  | a :: b :: rest => f a ++ .fixed ", " :: commas f (b :: rest)

/-- The text with the parameters `n + 1`, `n + 2` and so on at the places of its placeholders. -/
def filled (d : Dialect) : Nat → List Part → List Char
  | _, [] => []
  | n, .fixed text :: rest | n, .name text :: rest => text.toList ++ filled d n rest
  | n, .slot _ :: rest => (d.parameter (n + 1)).toList ++ filled d (n + 1) rest

@[simp] theorem slots_append (l m : List Part) : slots (l ++ m) = slots l ++ slots m := by
  induction l with
  | nil => rfl
  | cons part rest ih => cases part <;> simp [slots, ih]

@[simp] theorem names_append (l m : List Part) : names (l ++ m) = names l ++ names m := by
  induction l with
  | nil => rfl
  | cons part rest ih => cases part <;> simp [names, ih]

@[simp] theorem slots_flatMap {α : Type} (f : α → List Part) (as : List α) :
    slots (as.flatMap f) = as.flatMap fun a => slots (f a) := by
  induction as with
  | nil => rfl
  | cons a rest ih => simp [ih]

@[simp] theorem names_flatMap {α : Type} (f : α → List Part) (as : List α) :
    names (as.flatMap f) = as.flatMap fun a => names (f a) := by
  induction as with
  | nil => rfl
  | cons a rest ih => simp [ih]

@[simp] theorem slots_commas {α : Type} (f : α → List Part) (as : List α) :
    slots (commas f as) = as.flatMap fun a => slots (f a) := by
  induction as with
  | nil => rfl
  | cons a rest ih =>
    cases rest with
    | nil => simp [commas]
    | cons b rest => simpa [commas, slots] using ih

@[simp] theorem names_commas {α : Type} (f : α → List Part) (as : List α) :
    names (commas f as) = as.flatMap fun a => names (f a) := by
  induction as with
  | nil => rfl
  | cons a rest ih =>
    cases rest with
    | nil => simp [commas]
    | cons b rest => simpa [commas, names] using ih

end Layout

open Layout

/-- A text that consists of certain parts, each name and each placeholder of which ends where the
next part begins. -/
inductive Lays : String → List Part → Prop
  | nil : Lays "" []
  | fixed {a s : String} {l : List Part} (ha : Plain a) (hs : Lays s l) :
      Lays (a ++ s) (.fixed a :: l)
  | name (a : String) {s : String} {l : List Part} (hbreaks : Breaks s) (hs : Lays s l) :
      Lays (a ++ s) (.name a :: l)
  | slot {k s : String} {l : List Part} (hk : IsName k.toList) (hbreaks : Breaks s)
      (hs : Lays s l) : Lays (":" ++ k ++ s) (.slot k :: l)

namespace Lays

variable {a b s : String} {l m : List Part}

theorem append (ha : Lays a l) (hb : Lays b m) (hbreaks : Breaks b) : Lays (a ++ b) (l ++ m) := by
  induction ha with
  | nil => rwa [String.empty_append]
  | fixed ha _ ih =>
    rw [String.append_assoc]
    exact .fixed ha ih
  | name a hs _ ih =>
    rw [String.append_assoc]
    exact .name a (hs.append hbreaks) ih
  | slot hk hs _ ih =>
    rw [String.append_assoc]
    exact .slot hk (hs.append hbreaks) ih

theorem of_plain (ha : Plain a) : Lays a [.fixed a] := by
  have h := Lays.fixed ha .nil
  rwa [String.append_empty] at h

theorem of_name (a : String) : Lays a [.name a] := by
  have h := Lays.name a (by decide) .nil
  rwa [String.append_empty] at h

theorem of_slot {k : String} (hk : IsName k.toList) : Lays (":" ++ k) [.slot k] := by
  have h := Lays.slot hk (by decide) .nil
  rwa [String.append_empty] at h

theorem commas {α : Type} {text : α → String} {f : α → List Part} {as : List α}
    (h : ∀ a ∈ as, Lays (text a) (f a)) :
    Lays (String.intercalate ", " (as.map text)) (Layout.commas f as) := by
  induction as with
  | nil => exact .nil
  | cons a rest ih =>
    have ha := h a List.mem_cons_self
    have hrest := ih fun b hb => h b (List.mem_cons_of_mem a hb)
    cases rest with
    | nil => simpa [Layout.commas] using ha
    | cons b rest =>
      have hcomma : Breaks ", " := by decide
      rw [List.map_cons, List.map_cons, String.intercalate_cons_cons, String.append_assoc]
      exact ha.append (.fixed (by decide) hrest) (hcomma.append_right (by decide) _)

/-- Where all names are neutral, the placeholders are those of the layout. -/
theorem reads (h : Lays s l) (hnames : ∀ n ∈ names l, Reads n []) : Reads s (slots l) := by
  induction h with
  | nil => exact reads_empty
  | fixed ha _ ih => exact ha.reads_append (ih hnames)
  | name a hbreaks _ ih =>
    have ha := hnames a List.mem_cons_self
    exact ha.append_nil (ih fun n hn => hnames n (List.mem_cons_of_mem a hn)) hbreaks
  | slot hk hbreaks _ ih => exact (reads_key hk).append (ih hnames) hbreaks

end Lays

end BoundQuery
