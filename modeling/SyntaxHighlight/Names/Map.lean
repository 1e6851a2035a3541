import SyntaxHighlight.Prelude

/-!
# Maps keyed by names

A `NameMap α` holds one value per name and lists its entries in increasing code point order of the
names. The order is part of the type, so two maps that answer every look-up alike are equal
(`NameMap.ext_find?`), and nothing built from a map depends on the order of insertion.

Every operation is described through the look-up `find?`:

* `find?_insert`, `find?_erase`, `find?_filter`, `find?_mapValues`.
-/

namespace SyntaxHighlight

universe u v

/-- The entries of a map are in strictly increasing order of their names. -/
def IncreasingNames {α : Type u} (entries : List (String × α)) : Prop :=
  entries.Pairwise (fun a b => a.1 < b.1)

/-- No entry is there twice. -/
theorem IncreasingNames.nodup {α : Type u} {l : List (String × α)}
    (h : IncreasingNames l) : l.Nodup := by
  apply h.imp
  rintro a _ hlt rfl
  exact String.lt_irrefl _ hlt

/-- A finite map from names to values, kept in increasing order of the names. -/
structure NameMap (α : Type u) where
  entries : List (String × α)
  increasing : IncreasingNames entries

namespace NameMap

variable {α : Type u} {β : Type v}

instance [DecidableEq α] : DecidableEq (NameMap α)
  | ⟨a, _⟩, ⟨b, _⟩ => if h : a = b then isTrue (by subst h; rfl) else isFalse (by simp [h])

/-! ### The underlying lists -/

/-- Put an entry in its place, in front of the first greater name; an entry of the same name is
replaced. -/
def place (k : String) (x : α) : List (String × α) → List (String × α)
  | [] => [(k, x)]
  | (k', x') :: rest =>
    if k < k' then (k, x) :: (k', x') :: rest
    else if k = k' then (k, x) :: rest
    else (k', x') :: place k x rest

theorem mem_place {k : String} {x : α} {e : String × α} {l : List (String × α)}
    (h : e ∈ place k x l) : e = (k, x) ∨ e ∈ l := by
  induction l with
  | nil => simpa [place] using h
  | cons hd tl ih =>
    simp only [place] at h
    split at h
    · simpa using h
    · split at h
      · rcases List.mem_cons.1 h with h | h
        · exact .inl h
        · exact .inr (List.mem_cons_of_mem _ h)
      · rcases List.mem_cons.1 h with h | h
        · exact .inr (by simp [h])
        · exact (ih h).imp_right (List.mem_cons_of_mem _)

/-- Placing an entry changes the look-up of its own name only. -/
theorem lookup_place (j k : String) (x : α) (l : List (String × α)) :
    (place k x l).lookup j = if j = k then some x else l.lookup j := by
  induction l with
  | nil => simp [place, lookup_cons_eq_ite]
  | cons hd tl ih =>
    obtain ⟨k', x'⟩ := hd
    simp only [place]
    split
    · simp [lookup_cons_eq_ite]
    · split
      · next h => subst h; by_cases hj : j = k <;> simp [lookup_cons_eq_ite, hj]
      · next h =>
        by_cases hj : j = k'
        · subst hj; simp [Ne.symm h]
        · simp [lookup_cons_eq_ite, hj, ih]

/-- The place of an entry keeps the order. -/
theorem increasing_place {k : String} {x : α} {l : List (String × α)} (h : IncreasingNames l) :
    IncreasingNames (place k x l) := by
  induction l with
  | nil => simp [place, IncreasingNames]
  | cons hd tl ih =>
    obtain ⟨k', x'⟩ := hd
    have htl : IncreasingNames tl := List.Pairwise.of_cons h
    have hhd : ∀ e ∈ tl, k' < e.1 := (List.pairwise_cons.1 h).1
    simp only [place]
    split
    · next hlt =>
      refine List.pairwise_cons.2 ⟨fun e he => ?_, h⟩
      rcases List.mem_cons.1 he with rfl | he
      · exact hlt
      · exact String.lt_trans hlt (hhd e he)
    · next hnlt =>
      split
      · next heq => subst heq; exact List.pairwise_cons.2 ⟨hhd, htl⟩
      · next hne =>
        refine List.pairwise_cons.2 ⟨fun e he => ?_, ih htl⟩
        -- behind `k'` stands the new entry, or what stood there
        rcases mem_place he with rfl | he
        · have hle : k' ≤ k := String.not_lt.1 hnlt
          exact String.not_le.1 fun hge => hne (String.le_antisymm hge hle)
        · exact hhd e he

/-- In a list without repeated names the look-up finds every entry. -/
theorem lookup_eq_some_iff_mem {l : List (String × α)} (h : IncreasingNames l) {k : String}
    {x : α} : l.lookup k = some x ↔ (k, x) ∈ l := by
  induction l with
  | nil => simp
  | cons hd tl ih =>
    obtain ⟨k', x'⟩ := hd
    have htl : IncreasingNames tl := List.Pairwise.of_cons h
    have hhd : ∀ e ∈ tl, k' < e.1 := (List.pairwise_cons.1 h).1
    by_cases hk : k = k'
    · subst hk
      have hne : (k, x) ∉ tl := fun hm => String.lt_irrefl _ (hhd _ hm)
      simp [hne, eq_comm]
    · simp [lookup_cons_eq_ite, hk, ih htl]

/-- Lists in increasing order with the same members are equal. -/
theorem eq_of_mem_iff {l₁ l₂ : List (String × α)} (h₁ : IncreasingNames l₁)
    (h₂ : IncreasingNames l₂) (h : ∀ e, e ∈ l₁ ↔ e ∈ l₂) : l₁ = l₂ := by
  have hperm : l₁.Perm l₂ := (List.perm_ext_iff_of_nodup h₁.nodup h₂.nodup).2 h
  exact hperm.eq_of_pairwise (fun _ _ _ _ hlt hgt => absurd hgt (String.lt_asymm hlt)) h₁ h₂

theorem lookup_filter (p : String → Bool) (k : String) (l : List (String × α)) :
    (l.filter fun e => p e.1).lookup k = if p k then l.lookup k else none := by
  induction l with
  | nil => simp
  | cons hd tl ih =>
    obtain ⟨k', x'⟩ := hd
    by_cases hk : k = k'
    · subst hk
      cases hp : p k
      · rw [hp] at ih
        simp [hp, ih]
      · simp [hp]
    · by_cases hp : p k' <;> simp [lookup_cons_eq_ite, hk, hp, ih]

theorem lookup_map (f : α → β) (k : String) (l : List (String × α)) :
    (l.map fun e => (e.1, f e.2)).lookup k = (l.lookup k).map f := by
  induction l with
  | nil => simp
  | cons hd tl ih =>
    obtain ⟨k', x'⟩ := hd
    by_cases hk : k = k' <;> simp [lookup_cons_eq_ite, hk, ih]

theorem increasing_map (f : α → β) {l : List (String × α)} (h : IncreasingNames l) :
    IncreasingNames (l.map fun e => (e.1, f e.2)) := by
  simpa [IncreasingNames, List.pairwise_map] using h

/-! ### Operations -/

def empty : NameMap α := ⟨[], List.Pairwise.nil⟩

instance : EmptyCollection (NameMap α) := ⟨empty⟩
instance : Inhabited (NameMap α) := ⟨empty⟩

def find? (m : NameMap α) (k : String) : Option α := m.entries.lookup k

def contains (m : NameMap α) (k : String) : Bool := (m.find? k).isSome

/-- Give a name a value, in place of any value it had. -/
def insert (m : NameMap α) (k : String) (x : α) : NameMap α :=
  ⟨place k x m.entries, increasing_place m.increasing⟩

def filter (m : NameMap α) (p : String → Bool) : NameMap α :=
  ⟨m.entries.filter fun e => p e.1, List.Pairwise.filter _ m.increasing⟩

def erase (m : NameMap α) (k : String) : NameMap α := m.filter (· != k)

def mapValues (m : NameMap α) (f : α → β) : NameMap β :=
  ⟨m.entries.map fun e => (e.1, f e.2), increasing_map f m.increasing⟩

def keys (m : NameMap α) : List String := m.entries.map (·.1)

def values (m : NameMap α) : List α := m.entries.map (·.2)

def size (m : NameMap α) : Nat := m.entries.length

def isEmpty (m : NameMap α) : Bool := m.entries.isEmpty

/-- The map of a list of pairs, in which a later pair replaces an earlier one of the same name. -/
def ofList (l : List (String × α)) : NameMap α := l.foldl (fun m e => m.insert e.1 e.2) empty

/-! ### Look-up laws -/

@[simp] theorem find?_empty (k : String) : (empty : NameMap α).find? k = none := rfl

@[simp] theorem find?_insert (m : NameMap α) (j k : String) (x : α) :
    (m.insert k x).find? j = if j = k then some x else m.find? j :=
  lookup_place j k x m.entries

@[simp] theorem find?_filter (m : NameMap α) (p : String → Bool) (k : String) :
    (m.filter p).find? k = if p k then m.find? k else none :=
  lookup_filter p k m.entries

@[simp] theorem find?_erase (m : NameMap α) (j k : String) :
    (m.erase k).find? j = if j = k then none else m.find? j := by
  by_cases h : j = k <;> simp [erase, h]

theorem find?_erase_eq_some_iff {m : NameMap α} {j k : String} {x : α} :
    (m.erase k).find? j = some x ↔ j ≠ k ∧ m.find? j = some x := by
  by_cases h : j = k <;> simp [h]

@[simp] theorem find?_mapValues (m : NameMap α) (f : α → β) (k : String) :
    (m.mapValues f).find? k = (m.find? k).map f :=
  lookup_map f k m.entries

theorem mem_entries_iff {m : NameMap α} {k : String} {x : α} :
    (k, x) ∈ m.entries ↔ m.find? k = some x :=
  (lookup_eq_some_iff_mem m.increasing).symm

theorem mem_keys_iff {m : NameMap α} {k : String} : k ∈ m.keys ↔ m.contains k = true := by
  simp only [keys, contains, List.mem_map, Option.isSome_iff_exists, ← mem_entries_iff]
  constructor
  · rintro ⟨⟨k', x⟩, h, rfl⟩; exact ⟨x, h⟩
  · rintro ⟨x, h⟩; exact ⟨(k, x), h, rfl⟩

/-- A map is determined by its look-ups. -/
theorem ext_find? {m₁ m₂ : NameMap α} (h : ∀ k, m₁.find? k = m₂.find? k) : m₁ = m₂ := by
  have : m₁.entries = m₂.entries :=
    eq_of_mem_iff m₁.increasing m₂.increasing fun ⟨k, x⟩ => by simp [mem_entries_iff, h k]
  cases m₁; cases m₂; cases this; rfl

theorem erase_of_find?_eq_none {m : NameMap α} {k : String} (h : m.find? k = none) :
    m.erase k = m := by
  apply ext_find?
  intro j
  rw [find?_erase]
  split
  · next hj => rw [hj, h]
  · rfl

theorem erase_comm (m : NameMap α) (j k : String) :
    (m.erase j).erase k = (m.erase k).erase j := by
  apply ext_find?
  intro i
  simp only [find?_erase]
  split <;> split <;> rfl

/-! ### Entries in any order -/

/-- A value that is given to a name takes the place of any other. -/
theorem entries_insert_perm (m : NameMap α) (k : String) (x : α) :
    (m.insert k x).entries.Perm ((k, x) :: (m.erase k).entries) := by
  have hfresh : (k, x) ∉ (m.erase k).entries := by
    rw [mem_entries_iff, find?_erase, if_pos rfl]
    nofun
  rw [List.perm_ext_iff_of_nodup ((increasing _).nodup)
    (List.nodup_cons.2 ⟨hfresh, (increasing _).nodup⟩)]
  rintro ⟨j, y⟩
  rw [List.mem_cons, mem_entries_iff, mem_entries_iff, find?_insert, find?_erase]
  by_cases hj : j = k
  · simp [hj, eq_comm]
  · simp [hj]

/-- A name with a value can be told apart from the others. -/
theorem entries_perm_of_find? {m : NameMap α} {k : String} {x : α} (h : m.find? k = some x) :
    m.entries.Perm ((k, x) :: (m.erase k).entries) := by
  have hsame : m.insert k x = m := by
    apply ext_find?
    intro j
    rw [find?_insert]
    split
    · next hj => rw [hj, h]
    · rfl
  have hinsert := m.entries_insert_perm k x
  rwa [hsame] at hinsert

end NameMap

end SyntaxHighlight
