/-
  Reckon — the values of variables.

  A valuation gives values to names.  Each name has one value, the latest that
  it was given.
-/
import Reckon.Error

namespace Reckon

/-- Entries with the value of one name set: in its place if the name is
    there, at the end if not. -/
def setEntry (name : String) (x : Binary64) :
    List (String × Binary64) → List (String × Binary64)
  | [] => [(name, x)]
  | e :: es => if e.1 = name then (name, x) :: es else e :: setEntry name x es

/-- Setting a value keeps the names in their order, and puts a new one last. -/
theorem map_fst_setEntry (name : String) (x : Binary64) (es : List (String × Binary64)) :
    (setEntry name x es).map Prod.fst =
      if name ∈ es.map Prod.fst then es.map Prod.fst else es.map Prod.fst ++ [name] := by
  induction es with
  | nil => rfl
  | cons e es ih =>
    by_cases h : e.1 = name
    · simp [setEntry, h]
    · have h' : name ≠ e.1 := Ne.symm h
      by_cases hm : name ∈ es.map Prod.fst <;> simp_all [setEntry]

theorem lookup_cons_eq (n : String) (e : String × Binary64) (es : List (String × Binary64)) :
    (e :: es).lookup n = if n = e.1 then some e.2 else es.lookup n := by
  by_cases h : n = e.1
  · rw [List.lookup_cons, if_pos h, beq_iff_eq.2 h]
  · rw [List.lookup_cons, if_neg h, beq_eq_false_iff_ne.2 h]

/-- Setting a value gives it to this name, and leaves the others as they are. -/
theorem lookup_setEntry (name n : String) (x : Binary64) (es : List (String × Binary64)) :
    (setEntry name x es).lookup n = if n = name then some x else es.lookup n := by
  induction es with
  | nil => rw [setEntry, lookup_cons_eq]
  | cons e es ih =>
    rw [setEntry, lookup_cons_eq]
    by_cases h : e.1 = name
    · subst h
      rw [if_pos rfl, lookup_cons_eq]
      by_cases hn : n = e.1
      · rw [if_pos hn, if_pos hn]
      · rw [if_neg hn, if_neg hn, if_neg hn]
    · rw [if_neg h, lookup_cons_eq, ih]
      by_cases hn : n = name
      · have hne : n ≠ e.1 := fun he => h (he.symm.trans hn)
        rw [if_pos hn, if_neg hne, if_pos hn]
      · rw [if_neg hn, if_neg hn]

/-- The values given to names. -/
structure Valuation where
  entries : List (String × Binary64)
  /-- each name has one value -/
  nodup : (entries.map Prod.fst).Nodup

namespace Valuation

/-- No values. -/
def empty : Valuation := ⟨[], List.nodup_nil⟩

/-- A valuation with the value of one name set. -/
def set (v : Valuation) (name : String) (x : Binary64) : Valuation where
  entries := setEntry name x v.entries
  nodup := by
    rw [map_fst_setEntry]
    split
    · exact v.nodup
    · rename_i h
      rw [List.nodup_append]
      refine ⟨v.nodup, by simp, ?_⟩
      rintro n hn _ hm rfl
      simp only [List.mem_singleton] at hm
      exact h (hm ▸ hn)

/-- The values of a list of names, of which later ones win. -/
def ofList (pairs : List (String × Binary64)) : Valuation :=
  pairs.foldl (fun v p => v.set p.1 p.2) empty

/-- The value of a name, if it has one. -/
def get? (v : Valuation) (name : String) : Option Binary64 :=
  v.entries.lookup name

/-- The value of a name, which must have one. -/
def get (v : Valuation) (name : String) : Except Error Binary64 :=
  match v.get? name with
  | some x => .ok x
  | none => .error (.incorrect (.unset name))

theorem get_set (v : Valuation) (name n : String) (x : Binary64) :
    (v.set name x).get n = if n = name then .ok x else v.get n := by
  rw [get, get?, set, lookup_setEntry]
  by_cases h : n = name
  · rw [if_pos h, if_pos h]
  · rw [if_neg h, if_neg h]
    rfl

/-- Whether a name has a value. -/
def contains (v : Valuation) (name : String) : Bool :=
  (v.get? name).isSome

/-- The number of names that have a value. -/
def size (v : Valuation) : Nat :=
  v.entries.length

/-- Whether no name has a value. -/
def isEmpty (v : Valuation) : Bool :=
  v.entries.isEmpty

/-- Whether two valuations give the same values to the same names. -/
def same (v w : Valuation) : Bool :=
  v.size == w.size && v.entries.all fun (name, x) => (w.get? name).any x.same

end Valuation

end Reckon
