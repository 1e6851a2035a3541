import SyntaxHighlight.Grammar.Basic
import SyntaxHighlight.Prelude

/-!
# Legends

A legend numbers the terms that a client knows, in the order in which they are listed first. It
holds the list of the terms, which a client is told, and a map from the terms to their numbers, in
which the encoder looks them up. A term is added to both or to neither, so that the two stay aligned
(`Legend.aligned`).
-/

namespace SyntaxHighlight

/-- The terms in the order of their numbers, and the number of each in 32 bits. -/
structure Legend where
  terms : List Term
  numbers : NameMap UInt32
  nodup : terms.Nodup
  /-- The number of a term is its place, cut to 32 bits, and nothing else has a number. -/
  aligned : ∀ t, numbers.find? t = (terms.idxOf? t).map Nat.toUInt32
deriving DecidableEq

namespace Legend

def empty : Legend := ⟨[], .empty, .nil, fun _ => rfl⟩

def index? (l : Legend) (term : Term) : Option UInt32 := l.numbers.find? term

def contains (l : Legend) (term : Term) : Bool := l.numbers.contains term

theorem index?_eq (l : Legend) (t : Term) : l.index? t = (l.terms.idxOf? t).map Nat.toUInt32 :=
  l.aligned t

theorem contains_iff_mem {l : Legend} {t : Term} : l.contains t = true ↔ t ∈ l.terms := by
  rw [contains, NameMap.contains, l.aligned, Option.isSome_map, List.isSome_idxOf?]

/-- With a new term behind them no term comes twice. -/
theorem nodup_concat {l : Legend} {term : Term} (h : term ∉ l.terms) :
    (l.terms ++ [term]).Nodup := by
  refine List.nodup_append.2 ⟨l.nodup, List.pairwise_singleton _ _, ?_⟩
  rintro t ht _ hterm rfl
  exact h (List.mem_singleton.1 hterm ▸ ht)

/-- With a new term and its place in the map, list and map stay aligned. -/
theorem aligned_concat {l : Legend} {term : Term} (h : term ∉ l.terms) (t : Term) :
    (l.numbers.insert term l.terms.length.toUInt32).find? t =
      ((l.terms ++ [term]).idxOf? t).map Nat.toUInt32 := by
  rw [NameMap.find?_insert, idxOf?_concat]
  split
  case isTrue heq =>
    rw [heq, List.idxOf?_eq_none_iff.2 h]
    rfl
  case isFalse => rw [l.aligned, Option.or_none]

/-- Add a term with the next number, unless it has one. -/
def add (l : Legend) (term : Term) : Legend :=
  if h : l.contains term then l
  else
    { terms := l.terms ++ [term]
      numbers := l.numbers.insert term l.terms.length.toUInt32
      nodup := nodup_concat (mt contains_iff_mem.2 h)
      aligned := aligned_concat (mt contains_iff_mem.2 h) }

/-- The legend of some terms, of which each counts once. -/
def ofList (terms : List Term) : Legend := terms.foldl add empty

theorem ofList_concat (names : List Term) (name : Term) :
    ofList (names ++ [name]) = (ofList names).add name := by
  rw [ofList, List.foldl_append]
  rfl

theorem terms_add (l : Legend) (term : Term) :
    (l.add term).terms = if term ∈ l.terms then l.terms else l.terms ++ [term] := by
  rw [add]
  split
  case isTrue h => rw [if_pos (contains_iff_mem.1 h)]
  case isFalse h => rw [if_neg (mt contains_iff_mem.2 h)]

def size (l : Legend) : Nat := l.terms.length

def isEmpty (l : Legend) : Bool := l.terms.isEmpty

/-- The names of the token types that a client is told, in the order of their numbers. -/
def tokenTypes (l : Legend) : List String := l.terms

/-- The names of the token modifiers that a client is told: there are none. -/
def tokenModifiers (_ : Legend) : List String := []

def colorName (term : Term) : String := "syntax." ++ term

end Legend

def defaultTerms : List Term :=
  ["type", "namespace", "function", "variable", "string", "number", "punctuation", "comment",
    "keyword_constant", "keyword_directive", "keyword_control", "keyword_operator",
    "storage_modifier"]

def Legend.default : Legend := .ofList defaultTerms

end SyntaxHighlight
