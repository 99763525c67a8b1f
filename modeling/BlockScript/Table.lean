/-!
# Tables

Values under names, sorted by name, so that a table has one order however it was filled, and no
name twice.

* `Table.get?`, `Table.put`: look up a name, write under a name;
* `Table.ofEntries`: fill a table from a list, where the last entry under a name stays.
-/

namespace BlockScript

/-- Values under names; the entries are sorted by name. -/
structure Table (α : Type) where
  entries : List (String × α)
  sorted : entries.Pairwise fun a b => a.1 < b.1

namespace Table

variable {α : Type}

/-- The table without entries. -/
def empty : Table α := ⟨[], List.Pairwise.nil⟩

instance : Inhabited (Table α) := ⟨empty⟩

/-- Writes under a name into a sorted list. -/
def putEntry (name : String) (a : α) : List (String × α) → List (String × α)
  | [] => [(name, a)]
  | (k, b) :: rest =>
    if name < k then (name, a) :: (k, b) :: rest
    else if name = k then (name, a) :: rest
    else (k, b) :: putEntry name a rest

/-- Every name after writing is the written one or was there before. -/
theorem mem_putEntry {name : String} {a : α} {l : List (String × α)} {e : String × α}
    (h : e ∈ putEntry name a l) : e.1 = name ∨ e ∈ l := by
  induction l with
  | nil =>
    rw [putEntry, List.mem_singleton] at h
    exact Or.inl (congrArg Prod.fst h)
  | cons d rest ih =>
    obtain ⟨k, b⟩ := d
    unfold putEntry at h
    split at h
    · rcases List.mem_cons.mp h with rfl | h
      · exact Or.inl rfl
      · exact Or.inr h
    · split at h
      · rcases List.mem_cons.mp h with rfl | h
        · exact Or.inl rfl
        · exact Or.inr (List.mem_cons_of_mem _ h)
      · rcases List.mem_cons.mp h with rfl | h
        · exact Or.inr List.mem_cons_self
        · exact (ih h).imp_right (List.mem_cons_of_mem _)

/-- **Writing keeps the order.** -/
theorem sorted_putEntry (name : String) (a : α) {l : List (String × α)}
    (h : l.Pairwise fun a b => a.1 < b.1) :
    (putEntry name a l).Pairwise fun a b => a.1 < b.1 := by
  induction l with
  | nil => exact List.pairwise_singleton _ _
  | cons d rest ih =>
    obtain ⟨k, b⟩ := d
    obtain ⟨hk, hrest⟩ := List.pairwise_cons.mp h
    unfold putEntry
    split
    · rename_i hlt
      refine List.pairwise_cons.mpr ⟨fun e he => ?_, h⟩
      rcases List.mem_cons.mp he with rfl | he
      · exact hlt
      · exact String.lt_trans hlt (hk e he)
    · rename_i hge
      split
      · rename_i heq
        subst heq
        exact List.pairwise_cons.mpr ⟨hk, hrest⟩
      · rename_i hne
        refine List.pairwise_cons.mpr ⟨fun e he => ?_, ih hrest⟩
        rcases mem_putEntry he with h' | h'
        · rw [h']
          exact Decidable.by_contra fun hlt =>
            hne (String.le_antisymm (String.not_lt.mp hlt) (String.not_lt.mp hge))
        · exact hk e h'

/-- The table with `a` under the name. -/
def put (t : Table α) (name : String) (a : α) : Table α :=
  ⟨putEntry name a t.entries, sorted_putEntry name a t.sorted⟩

/-- What stands under the name. -/
def get? (t : Table α) (name : String) : Option α :=
  t.entries.lookup name

/-- Whether anything stands under the name. -/
def contains (t : Table α) (name : String) : Bool :=
  (t.get? name).isSome

/-- The table with nothing under the name. -/
def erase (t : Table α) (name : String) : Table α :=
  ⟨t.entries.filter fun e => e.1 != name, t.sorted.filter _⟩

/-- The names, in order. -/
def names (t : Table α) : List String :=
  t.entries.map (·.1)

/-- The values, in the order of their names. -/
def values (t : Table α) : List α :=
  t.entries.map (·.2)

/-- The table filled from a list; of two entries under a name the last stays. -/
def ofEntries (entries : List (String × α)) : Table α :=
  entries.foldl (fun t e => t.put e.1 e.2) empty

/-- **Writing under a name shows under that name.** -/
@[simp] theorem lookup_putEntry_self (name : String) (a : α) (l : List (String × α)) :
    (putEntry name a l).lookup name = some a := by
  induction l with
  | nil => simp [putEntry]
  | cons e rest ih =>
    obtain ⟨k, b⟩ := e
    unfold putEntry
    split
    · simp
    · split
      · simp
      · rename_i hne
        have : (name == k) = false := by simpa using hne
        simp [List.lookup_cons, this, ih]

/-- **Writing under a name shows nowhere else.** -/
theorem lookup_putEntry_of_ne {name other : String} (h : other ≠ name) (a : α)
    (l : List (String × α)) : (putEntry name a l).lookup other = l.lookup other := by
  have hne : (other == name) = false := by simpa using h
  induction l with
  | nil => simp [putEntry, List.lookup_cons, hne]
  | cons e rest ih =>
    obtain ⟨k, b⟩ := e
    unfold putEntry
    split
    · simp [List.lookup_cons, hne]
    · split
      · rename_i hk
        subst hk
        simp [List.lookup_cons, hne]
      · simp only [List.lookup_cons]
        split
        · rfl
        · exact ih

@[simp] theorem get?_put_self (t : Table α) (name : String) (a : α) :
    (t.put name a).get? name = some a :=
  lookup_putEntry_self name a t.entries

theorem get?_put_of_ne {name other : String} (h : other ≠ name) (t : Table α) (a : α) :
    (t.put name a).get? other = t.get? other :=
  lookup_putEntry_of_ne h a t.entries

@[simp] theorem get?_empty (name : String) : (empty : Table α).get? name = none := rfl

end Table

end BlockScript
