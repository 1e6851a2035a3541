import SyntaxHighlight.Names.Map

/-!
# Sets of names

A `NameSet` is a finite set of names listed in increasing code point order. Two sets with the same
members are equal (`NameSet.ext_contains`).
-/

namespace SyntaxHighlight

structure NameSet where
  members : NameMap Unit
deriving DecidableEq

namespace NameSet

def empty : NameSet := ⟨.empty⟩

instance : EmptyCollection NameSet := ⟨empty⟩
instance : Inhabited NameSet := ⟨empty⟩

def contains (s : NameSet) (k : String) : Bool := s.members.contains k

def insert (s : NameSet) (k : String) : NameSet := ⟨s.members.insert k ()⟩

def erase (s : NameSet) (k : String) : NameSet := ⟨s.members.erase k⟩

def toList (s : NameSet) : List String := s.members.keys

def insertAll (s : NameSet) (names : List String) : NameSet := names.foldl insert s

/-- The names that occur in a list. -/
def ofList (names : List String) : NameSet := empty.insertAll names

def size (s : NameSet) : Nat := s.members.size

@[simp] theorem contains_empty (k : String) : empty.contains k = false := rfl

@[simp] theorem contains_insert (s : NameSet) (j k : String) :
    (s.insert k).contains j = (decide (j = k) || s.contains j) := by
  by_cases h : j = k <;> simp [contains, insert, NameMap.contains, h]

@[simp] theorem contains_erase (s : NameSet) (j k : String) :
    (s.erase k).contains j = (!decide (j = k) && s.contains j) := by
  by_cases h : j = k <;> simp [contains, erase, NameMap.contains, h]

@[simp] theorem contains_insertAll (s : NameSet) (names : List String) (k : String) :
    (s.insertAll names).contains k = (decide (k ∈ names) || s.contains k) := by
  induction names generalizing s with
  | nil => simp [insertAll]
  | cons n rest ih =>
    have : s.insertAll (n :: rest) = (s.insert n).insertAll rest := rfl
    rw [this, ih]
    by_cases h : k = n <;> simp [h]

@[simp] theorem contains_ofList (names : List String) (k : String) :
    (ofList names).contains k = decide (k ∈ names) := by simp [ofList]

theorem insertAll_concat (s : NameSet) (names : List String) (name : String) :
    s.insertAll (names ++ [name]) = (s.insertAll names).insert name := by
  rw [insertAll, List.foldl_append]
  rfl

theorem mem_toList_iff {s : NameSet} {k : String} : k ∈ s.toList ↔ s.contains k = true :=
  NameMap.mem_keys_iff

/-- A set is determined by its members. -/
theorem ext_contains {s t : NameSet} (h : ∀ k, s.contains k = t.contains k) : s = t := by
  have : s.members = t.members := NameMap.ext_find? fun k => by
    have hk := h k
    simp only [contains, NameMap.contains] at hk
    cases hs : s.members.find? k <;> cases ht : t.members.find? k <;> simp_all
  cases s; cases t; cases this; rfl

end NameSet

end SyntaxHighlight
