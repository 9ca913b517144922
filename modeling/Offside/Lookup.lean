import Offside.Text.Basic

/-!
# Look-up tables

Model of `ValueLookup` with `NewValueLookup`, `Get` and `Set` (specification, 4.4), of which the
code generator has one for the slots of variables and one for functions.

A table of named values that keeps the order in which the names were first entered. Entering a name
again replaces its value and keeps its place. The generator's table has no order of its own; the
order kept here is that of the declarations it makes along with the entries.

* `Lookup.empty` is `NewValueLookup`, `Lookup.get?` is `Get` and `Lookup.set` is `Set`.
* `Lookup.enter` is `Lookup.set` on the entries, by recursion over them.

Results:
* `get?_set_self`, `get?_set_of_ne`: a name has the value entered last.
* `names_set`: a new name comes last, a known one keeps its place.
* `get?_eq_none_iff`: the names without a value are those not entered.
* `entries_set_of_not_mem`: the entries with a new name.
-/

namespace Offside

/-- Named values in the order of their first entry. -/
structure Lookup (α : Type) where
  entries : List (Text × α)
  deriving DecidableEq, Repr

namespace Lookup

variable {α : Type}

/-- The table without entries. -/
def empty : Lookup α := ⟨[]⟩

instance : Inhabited (Lookup α) := ⟨empty⟩

/-- The names of a table in the order of their first entry. -/
def names (t : Lookup α) : List Text :=
  t.entries.map Prod.fst

/-- The value of a name. -/
def get? (t : Lookup α) (name : Text) : Option α :=
  t.entries.lookup name

/-- Enters a value in a list of entries. -/
def enter (name : Text) (value : α) : List (Text × α) → List (Text × α)
  | [] => [(name, value)]
  | (n, v) :: rest => if name == n then (n, value) :: rest else (n, v) :: enter name value rest

/-- The table with a value entered under a name. -/
def set (t : Lookup α) (name : Text) (value : α) : Lookup α :=
  ⟨enter name value t.entries⟩

theorem get?_set_self (t : Lookup α) (name : Text) (value : α) :
    (t.set name value).get? name = some value := by
  obtain ⟨entries⟩ := t
  simp only [get?, set]
  induction entries with
  | nil => simp [enter]
  | cons e rest ih =>
    obtain ⟨n, v⟩ := e
    unfold enter
    split
    · next h => simp [List.lookup_cons, h]
    · next h => simp [List.lookup_cons, h, ih]

theorem get?_set_of_ne (t : Lookup α) {name other : Text} (value : α) (h : other ≠ name) :
    (t.set name value).get? other = t.get? other := by
  have hb : (other == name) = false := by simp [h]
  obtain ⟨entries⟩ := t
  simp only [get?, set]
  induction entries with
  | nil => simp [enter, List.lookup_cons, hb]
  | cons e rest ih =>
    obtain ⟨n, v⟩ := e
    unfold enter
    split
    · next hn =>
      have : n = name := (eq_of_beq hn).symm
      subst this
      simp [List.lookup_cons, hb]
    · simp only [List.lookup_cons, ih]

theorem names_set (t : Lookup α) (name : Text) (value : α) :
    (t.set name value).names = if name ∈ t.names then t.names else t.names ++ [name] := by
  obtain ⟨entries⟩ := t
  simp only [names, set]
  induction entries with
  | nil => simp [enter]
  | cons e rest ih =>
    obtain ⟨n, v⟩ := e
    unfold enter
    by_cases hn : name = n
    · simp [hn]
    · simp only [beq_iff_eq, hn, if_false, List.map_cons, ih, List.mem_cons, false_or]
      split <;> simp [*]

theorem get?_eq_none_iff {t : Lookup α} {name : Text} : t.get? name = none ↔ name ∉ t.names := by
  rw [get?, names, List.lookup_eq_none_iff, List.mem_map]
  constructor
  · rintro h ⟨entry, hm, rfl⟩
    simpa using h entry hm
  · intro h entry hm
    rw [bne_iff_ne]
    rintro rfl
    exact h ⟨entry, hm, rfl⟩

/-- A new name is entered behind the others. -/
theorem entries_set_of_not_mem {t : Lookup α} {name : Text} (value : α) (h : name ∉ t.names) :
    (t.set name value).entries = t.entries ++ [(name, value)] := by
  obtain ⟨entries⟩ := t
  simp only [names, set] at h ⊢
  induction entries with
  | nil => rfl
  | cons e rest ih =>
    obtain ⟨n, v⟩ := e
    rw [List.map_cons, List.mem_cons, not_or] at h
    rw [enter, if_neg (by simpa using h.1), ih h.2, List.cons_append]

end Lookup

end Offside
