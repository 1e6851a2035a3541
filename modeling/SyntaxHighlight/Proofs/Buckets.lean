import SyntaxHighlight.Buckets

/-!
# Nothing is lost or mixed in buckets

Buckets can be taken apart again: `Buckets.toHighlights` lists the ranges of all buckets with their
terms, one bucket after the other. What was put in comes out, up to the order between different
terms (`Buckets.toHighlights_ofHighlights`), and within a term even in order.

Buckets are filtered and split as a whole. The same comes of filtering the highlights before they
are put in (`Buckets.filter_ofHighlights`), and of putting the parts of each highlight one by one
into empty buckets for the same terms (`Buckets.split_eq_pushAll`). An empty bucket stays in either
case, unless its term is not enabled.
-/

namespace SyntaxHighlight

def Highlight.split (a : Highlight) (text : String) : List Highlight :=
  (a.range.split text).map (⟨a.term, ·⟩)

namespace Buckets

def terms (b : Buckets) : List Term := b.byTerm.keys

def ofBucket (bucket : Term × List Range) : List Highlight := bucket.2.map (⟨bucket.1, ·⟩)

/-- The ranges of all buckets with their terms, in increasing order of the terms. -/
def toHighlights (b : Buckets) : List Highlight := b.toList.flatMap ofBucket

theorem mem_terms_iff {b : Buckets} {t : Term} : t ∈ b.terms ↔ (b.get? t).isSome = true :=
  NameMap.mem_keys_iff

/-- What comes out is what is in the buckets. -/
theorem mem_toHighlights_iff {b : Buckets} {a : Highlight} :
    a ∈ b.toHighlights ↔ ∃ ranges, b.get? a.term = some ranges ∧ a.range ∈ ranges := by
  rw [toHighlights, List.mem_flatMap]
  constructor
  · rintro ⟨⟨t, ranges⟩, hbucket, ha⟩
    obtain ⟨range, hrange, rfl⟩ := List.mem_map.1 ha
    exact ⟨ranges, NameMap.mem_entries_iff.1 hbucket, hrange⟩
  · rintro ⟨ranges, hget, hrange⟩
    exact ⟨(a.term, ranges), NameMap.mem_entries_iff.2 hget, List.mem_map.2 ⟨_, hrange, rfl⟩⟩

/-! ### What is put in comes out -/

theorem ranges_ofBucket (bucket : Term × List Range) (t : Term) :
    ((ofBucket bucket).filter (·.term = t)).map (·.range) =
      if t = bucket.1 then bucket.2 else [] := by
  unfold ofBucket
  by_cases ht : t = bucket.1
  · simp [List.filter_map, ht, Function.comp_def]
  · simp [List.filter_map, ht, Ne.symm ht, Function.comp_def]

/-- What is left of the buckets for a term is its own bucket. -/
theorem ranges_flatMap_ofBucket {buckets : List (Term × List Range)}
    (h : IncreasingNames buckets) (t : Term) :
    ((buckets.flatMap ofBucket).filter (·.term = t)).map (·.range) =
      (buckets.lookup t).getD [] := by
  induction buckets with
  | nil => rfl
  | cons bucket rest ih =>
    obtain ⟨hbelow, hrest⟩ := List.pairwise_cons.1 h
    rw [List.flatMap_cons, List.filter_append, List.map_append, ranges_ofBucket, ih hrest,
      lookup_cons_eq_ite]
    by_cases ht : t = bucket.1
    · -- Further on there are greater terms only.
      have hnone : rest.lookup t = none := by
        rw [Option.eq_none_iff_forall_ne_some]
        intro ranges hlookup
        have hmem := (NameMap.lookup_eq_some_iff_mem hrest).1 hlookup
        exact String.lt_irrefl _ (ht ▸ hbelow _ hmem)
      rw [if_pos ht, if_pos ht, hnone]
      exact List.append_nil _
    · rw [if_neg ht, if_neg ht]
      rfl

/-- The ranges that come out with a term are those of its bucket, in order. -/
theorem ranges_toHighlights (b : Buckets) (t : Term) :
    (b.toHighlights.filter (·.term = t)).map (·.range) = (b.get? t).getD [] :=
  ranges_flatMap_ofBucket b.byTerm.increasing t

/-- What comes out is counted by the total number of ranges. -/
theorem length_toHighlights (b : Buckets) : b.toHighlights.length = b.totalRanges := by
  show (b.byTerm.entries.flatMap ofBucket).length = (b.byTerm.entries.map (·.2)).flatten.length
  induction b.byTerm.entries with
  | nil => rfl
  | cons bucket rest ih =>
    rw [List.flatMap_cons, List.map_cons, List.flatten_cons, List.length_append,
      List.length_append, ih, ofBucket, List.length_map]

/-- The bucket of a term, be it missing or empty, can be told apart from the others. -/
theorem toHighlights_perm (b : Buckets) (term : Term) :
    b.toHighlights.Perm (ofBucket (term, (b.get? term).getD []) ++
      (b.byTerm.erase term).entries.flatMap ofBucket) := by
  cases hget : b.get? term with
  | none =>
    rw [NameMap.erase_of_find?_eq_none hget]
    exact .refl _
  | some ranges => exact (NameMap.entries_perm_of_find? hget).flatMap_right ofBucket

/-- A range that is put in comes out besides what was there. -/
theorem toHighlights_push (b : Buckets) (term : Term) (range : Range) :
    (b.push term range).toHighlights.Perm (⟨term, range⟩ :: b.toHighlights) := by
  have hpush : (b.push term range).toHighlights.Perm
      (ofBucket (term, (b.get? term).getD [] ++ [range]) ++
        (b.byTerm.erase term).entries.flatMap ofBucket) :=
    (b.byTerm.entries_insert_perm term _).flatMap_right ofBucket
  apply hpush.trans
  apply List.Perm.trans _ ((b.toHighlights_perm term).symm.cons _)
  rw [← List.cons_append]
  apply List.Perm.append_right
  unfold ofBucket
  rw [List.map_append]
  exact List.perm_append_singleton _ _

/-- Pushing highlights adds just these, in some order. -/
theorem toHighlights_pushAll (b : Buckets) (highlights : List Highlight) :
    (b.pushAll highlights).toHighlights.Perm (highlights ++ b.toHighlights) := by
  induction highlights generalizing b with
  | nil => exact .refl _
  | cons a rest ih =>
    show ((b.push a.term a.range).pushAll rest).toHighlights.Perm _
    apply (ih _).trans
    apply ((b.toHighlights_push a.term a.range).append_left rest).trans
    exact List.perm_middle

/-- Empty buckets hold nothing. -/
theorem toHighlights_ofTerms (seed : List Term) : (ofTerms seed).toHighlights = [] := by
  rw [List.eq_nil_iff_forall_not_mem]
  intro a ha
  obtain ⟨ranges, hget, hrange⟩ := mem_toHighlights_iff.1 ha
  rw [get?_ofTerms] at hget
  split at hget
  · obtain rfl := Option.some.inj hget
    cases hrange
  · cases hget

/-- The highlights that are put into buckets come out again, each as often as it was put in. -/
theorem toHighlights_ofHighlights (seed : List Term) (highlights : List Highlight) :
    (ofHighlights seed highlights).toHighlights.Perm highlights := by
  have hall := (ofTerms seed).toHighlights_pushAll highlights
  rwa [toHighlights_ofTerms, List.append_nil] at hall

/-! ### Filtering -/

/-- Filtering buckets is filtering what is put into them. -/
theorem filter_ofHighlights (seed : List Term) (highlights : List Highlight) (enabled : NameSet) :
    (ofHighlights seed highlights).filter enabled =
      ofHighlights (seed.filter enabled.contains)
        (highlights.filter fun a => enabled.contains a.term) := by
  apply ext_get?
  intro t
  rw [get?_filter, get?_ofHighlights, get?_ofHighlights]
  -- The bucket of an enabled term is the same on both sides; there is none for another term.
  by_cases ht : enabled.contains t = true
  · have hterms : t ∈ seed.filter enabled.contains ∨
        t ∈ (highlights.filter fun a => enabled.contains a.term).map (·.term) ↔
          t ∈ seed ∨ t ∈ highlights.map (·.term) := by
      simp only [List.mem_map, List.mem_filter]
      grind
    have hranges : (highlights.filter fun a => enabled.contains a.term).filter (·.term = t) =
        highlights.filter (·.term = t) := by
      rw [List.filter_filter]
      apply List.filter_congr
      intro a _
      by_cases ha : a.term = t
      · simp [ha, ht]
      · simp [ha]
    rw [if_pos ht, hranges]
    simp only [hterms]
  · rw [if_neg ht, if_neg]
    simp only [List.mem_map, List.mem_filter]
    grind

/-! ### Splitting -/

/-- The parts of highlights that have a term are the parts of its ranges. -/
theorem ranges_flatMap_split (highlights : List Highlight) (text : String) (t : Term) :
    ((highlights.flatMap (·.split text)).filter (·.term = t)).map (·.range) =
      ((highlights.filter (·.term = t)).map (·.range)).flatMap (·.split text) := by
  have hpart (a : Highlight) : ((a.split text).filter (·.term = t)).map (·.range) =
      if a.term = t then a.range.split text else [] := by
    unfold Highlight.split
    by_cases ha : a.term = t <;> simp [List.filter_map, ha, Function.comp_def]
  induction highlights with
  | nil => rfl
  | cons a rest ih =>
    rw [List.flatMap_cons, List.filter_append, List.map_append, hpart, ih]
    by_cases ha : a.term = t
    · rw [if_pos ha, List.filter_cons_of_pos (by simpa using ha), List.map_cons,
        List.flatMap_cons]
    · rw [if_neg ha, List.filter_cons_of_neg (by simpa using ha), List.nil_append]

/-- Splitting all buckets at once amounts to putting the parts of each range, one after the other,
into empty buckets for the same terms. -/
theorem split_eq_pushAll (b : Buckets) (text : String) :
    b.split text = (ofTerms b.terms).pushAll (b.toHighlights.flatMap (·.split text)) := by
  apply ext_get?
  intro t
  show _ = (ofHighlights b.terms _).get? t
  rw [get?_split, get?_ofHighlights, ranges_flatMap_split, ranges_toHighlights]
  -- A term without a bucket has no highlight that could be split.
  cases hget : b.get? t with
  | some ranges =>
    rw [if_pos (.inl (mem_terms_iff.2 (by rw [hget]; rfl)))]
    rfl
  | none =>
    rw [if_neg]
    · rfl
    rintro (hterm | hterm)
    · rw [mem_terms_iff, hget] at hterm
      cases hterm
    · obtain ⟨part, hpart, rfl⟩ := List.mem_map.1 hterm
      obtain ⟨a, ha, hsplit⟩ := List.mem_flatMap.1 hpart
      obtain ⟨range, -, rfl⟩ := List.mem_map.1 hsplit
      obtain ⟨ranges, hsome, -⟩ := mem_toHighlights_iff.1 ha
      rw [hget] at hsome
      cases hsome

/-- It makes no difference whether buckets are filtered or split first. -/
theorem split_filter (b : Buckets) (enabled : NameSet) (text : String) :
    (b.filter enabled).split text = (b.split text).filter enabled := by
  apply ext_get?
  intro t
  rw [get?_split, get?_filter, get?_filter, get?_split]
  split <;> rfl

/-- **Nothing is lost or mixed.** For the buckets of any highlights over any seed:

* a term has a bucket if it is in the seed or among the highlights, and the bucket holds the ranges
  of the term in order;
* all highlights come out again, so there are as many ranges as highlights;
* filtering the buckets is filtering the seed and the highlights;
* splitting the buckets is putting the parts of the ranges, one after the other, into empty buckets
  for the same terms, and so each bucket then holds the parts of its ranges in order;
* splitting and filtering commute. -/
theorem nothing_lost_or_mixed (seed : List Term) (highlights : List Highlight) (enabled : NameSet)
    (text : String) :
    let b := ofHighlights seed highlights
    (∀ t, b.get? t =
      if t ∈ seed ∨ t ∈ highlights.map (·.term) then
        some ((highlights.filter (·.term = t)).map (·.range))
      else none) ∧
    b.toHighlights.Perm highlights ∧ b.totalRanges = highlights.length ∧
    b.filter enabled = ofHighlights (seed.filter enabled.contains)
      (highlights.filter fun a => enabled.contains a.term) ∧
    b.split text = (ofTerms b.terms).pushAll (b.toHighlights.flatMap (·.split text)) ∧
    (b.split text).terms = b.terms ∧
    (∀ t, (b.split text).get? t = (b.get? t).map fun ranges => ranges.flatMap (·.split text)) ∧
    (b.filter enabled).split text = (b.split text).filter enabled := by
  intro b
  have hout : b.toHighlights.Perm highlights := toHighlights_ofHighlights seed highlights
  refine ⟨get?_ofHighlights seed highlights, hout, ?_, filter_ofHighlights seed highlights enabled,
    b.split_eq_pushAll text, ?_, b.get?_split text, b.split_filter enabled text⟩
  · rw [← length_toHighlights, hout.length_eq]
  · simp [terms, split, NameMap.keys, NameMap.mapValues]

end Buckets

end SyntaxHighlight
