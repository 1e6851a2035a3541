import SyntaxHighlight.Highlight
import SyntaxHighlight.Text.Lines

/-!
# Buckets

Buckets hold the ranges of each term, in the order of the highlights they come from. A bucket may
be empty: whoever shows buckets then removes what was shown for the term before.
-/

namespace SyntaxHighlight

structure Buckets where
  byTerm : NameMap (List Range)
deriving DecidableEq

namespace Buckets

/-- Empty buckets for some terms. -/
def ofTerms (terms : List Term) : Buckets :=
  ⟨terms.foldl (fun m t => m.insert t []) .empty⟩

def get? (b : Buckets) (term : Term) : Option (List Range) := b.byTerm.find? term

/-- Put a range last into the bucket of a term. -/
def push (b : Buckets) (term : Term) (range : Range) : Buckets :=
  ⟨b.byTerm.insert term ((b.get? term).getD [] ++ [range])⟩

def pushAll (b : Buckets) (highlights : List Highlight) : Buckets :=
  highlights.foldl (fun b a => b.push a.term a.range) b

/-- The buckets of some highlights, with buckets for the terms of the seed in any case. -/
def ofHighlights (seed : List Term) (highlights : List Highlight) : Buckets :=
  (ofTerms seed).pushAll highlights

def filter (b : Buckets) (enabled : NameSet) : Buckets := ⟨b.byTerm.filter enabled.contains⟩

/-- The terms with their ranges, in increasing order of the terms. -/
def toList (b : Buckets) : List (Term × List Range) := b.byTerm.entries

def size (b : Buckets) : Nat := b.byTerm.size

def isEmpty (b : Buckets) : Bool := b.byTerm.isEmpty

def totalRanges (b : Buckets) : Nat := b.byTerm.values.flatten.length

/-- Cut every range into its parts on the lines of a text; every bucket stays. -/
def split (b : Buckets) (text : String) : Buckets :=
  ⟨b.byTerm.mapValues fun ranges => ranges.flatMap (·.split text)⟩

/-! ### Look-up laws -/

@[simp] theorem get?_ofTerms (terms : List Term) (t : Term) :
    (ofTerms terms).get? t = if t ∈ terms then some [] else none := by
  have go : ∀ (l : List Term) (m : NameMap (List Range)),
      (l.foldl (fun m t => m.insert t []) m).find? t = if t ∈ l then some [] else m.find? t := by
    intro l
    induction l with
    | nil => intro m; simp
    | cons a rest ih =>
      intro m
      rw [List.foldl_cons, ih]
      by_cases ha : t = a <;> by_cases hr : t ∈ rest <;> simp [ha, hr]
  exact go terms .empty

@[simp] theorem get?_push (b : Buckets) (term t : Term) (range : Range) :
    (b.push term range).get? t =
      if t = term then some ((b.get? term).getD [] ++ [range]) else b.get? t :=
  NameMap.find?_insert b.byTerm t term _

theorem get?_pushAll (b : Buckets) (highlights : List Highlight) (t : Term) :
    (b.pushAll highlights).get? t =
      if t ∈ highlights.map (·.term) then
        some ((b.get? t).getD [] ++ (highlights.filter (·.term = t)).map (·.range))
      else b.get? t := by
  induction highlights generalizing b with
  | nil => simp [pushAll]
  | cons a rest ih =>
    have hcons : b.pushAll (a :: rest) = (b.push a.term a.range).pushAll rest := rfl
    rw [hcons, ih]
    by_cases ha : t = a.term
    · subst ha
      by_cases hr : a.term ∈ rest.map (·.term)
      · simp [hr]
      · have hnil : rest.filter (·.term = a.term) = [] := by
          rw [List.filter_eq_nil_iff]
          intro b hb hba
          exact hr (List.mem_map.2 ⟨b, hb, by simpa using hba⟩)
        simp [hr, hnil]
    · by_cases hr : t ∈ rest.map (·.term) <;> simp [ha, Ne.symm ha, hr]

/-- The seed and the highlights decide which terms have a bucket, the highlights what is in it. -/
theorem get?_ofHighlights (seed : List Term) (highlights : List Highlight) (t : Term) :
    (ofHighlights seed highlights).get? t =
      if t ∈ seed ∨ t ∈ highlights.map (·.term) then
        some ((highlights.filter (·.term = t)).map (·.range))
      else none := by
  rw [ofHighlights, get?_pushAll, get?_ofTerms]
  by_cases hs : t ∈ seed
  · by_cases hh : t ∈ highlights.map (·.term)
    · simp [hs, hh]
    · have hnil : highlights.filter (·.term = t) = [] := by
        rw [List.filter_eq_nil_iff]
        intro a ha hat
        exact hh (List.mem_map.2 ⟨a, ha, by simpa using hat⟩)
      simp [hs, hh, hnil]
  · by_cases hh : t ∈ highlights.map (·.term) <;> simp [hs, hh]

@[simp] theorem get?_filter (b : Buckets) (enabled : NameSet) (t : Term) :
    (b.filter enabled).get? t = if enabled.contains t then b.get? t else none :=
  NameMap.find?_filter b.byTerm enabled.contains t

@[simp] theorem get?_split (b : Buckets) (text : String) (t : Term) :
    (b.split text).get? t = (b.get? t).map fun ranges => ranges.flatMap (·.split text) :=
  NameMap.find?_mapValues b.byTerm _ t

/-- Buckets are determined by the ranges of each term. -/
theorem ext_get? {b c : Buckets} (h : ∀ t, b.get? t = c.get? t) : b = c := by
  cases b
  cases c
  exact congrArg mk (NameMap.ext_find? h)

end Buckets

end SyntaxHighlight
