/-!
# Bindings

A finite table from names to what they stand for.  A name that is bound again
keeps its place, so the names of a table are those that were ever bound, in the
order in which they came.

## Main definitions

* `Bindings.find?` — what a name stands for
* `Bindings.insert` — binds a name
* `Bindings.names` — the bound names

## Main statements

* `Bindings.find?_insert` — the newest binding of a name is found, others stay
* `Bindings.names_insert_of_mem` — binding a bound name again adds no name
-/

namespace Scriptlet

/-- **Table** from names to things. -/
abbrev Bindings (α : Type) := List (String × α)

namespace Bindings

variable {α : Type}

/-- What `name` stands for. -/
def find? (name : String) : Bindings α → Option α
  | [] => none
  | (n, a) :: rest => if n = name then some a else find? name rest

/-- Binds `name` to `a`, in place of what it stood for. -/
def insert (name : String) (a : α) : Bindings α → Bindings α
  | [] => [(name, a)]
  | (n, b) :: rest => if n = name then (n, a) :: rest else (n, b) :: insert name a rest

/-- The bound names. -/
def names (b : Bindings α) : List String := b.map Prod.fst

@[simp] theorem find?_nil (name : String) : find? name ([] : Bindings α) = none := rfl

@[simp] theorem names_nil : names ([] : Bindings α) = [] := rfl

/-- **Lookup after binding.** -/
theorem find?_insert (name other : String) (a : α) (b : Bindings α) :
    find? other (insert name a b) = if name = other then some a else find? other b := by
  induction b with
  | nil => rfl
  | cons entry rest ih =>
    obtain ⟨n, c⟩ := entry
    by_cases same : n = name
    · subst same
      by_cases h : n = other <;> simp [insert, find?, h]
    · by_cases h : n = other
      · subst h
        simp [insert, find?, same, Ne.symm same]
      · simp [insert, find?, same, h, ih]

@[simp] theorem find?_insert_self (name : String) (a : α) (b : Bindings α) :
    find? name (insert name a b) = some a := by
  rw [find?_insert, if_pos rfl]

/-- **Names after binding.** -/
theorem names_insert (name : String) (a : α) (b : Bindings α) :
    names (insert name a b) = if name ∈ names b then names b else names b ++ [name] := by
  induction b with
  | nil => rfl
  | cons entry rest ih =>
    obtain ⟨n, c⟩ := entry
    by_cases same : n = name
    · subst same
      simp [insert, names]
    · have step : names (insert name a ((n, c) :: rest)) = n :: names (insert name a rest) := by
        simp [insert, names, same]
      rw [step, ih]
      have tail : names ((n, c) :: rest) = n :: names rest := rfl
      have member : name ∈ n :: names rest ↔ name ∈ names rest := by
        simp [Ne.symm same]
      rw [tail]
      by_cases h : name ∈ names rest
      · rw [if_pos h, if_pos (member.mpr h)]
      · rw [if_neg h, if_neg (fun m => h (member.mp m)), List.cons_append]

/-- Binding a bound name again adds no name. -/
theorem names_insert_of_mem {name : String} {b : Bindings α} (a : α) (h : name ∈ names b) :
    names (insert name a b) = names b := by
  rw [names_insert, if_pos h]

/-- A name is found exactly if it is bound. -/
theorem find?_isSome_iff (name : String) (b : Bindings α) :
    (find? name b).isSome ↔ name ∈ names b := by
  induction b with
  | nil => simp
  | cons entry rest ih =>
    obtain ⟨n, c⟩ := entry
    by_cases same : n = name
    · simp [find?, names, same]
    · simp only [find?, same, if_false, ih, names, List.map_cons, List.mem_cons]
      simp [Ne.symm same]

end Bindings

end Scriptlet
