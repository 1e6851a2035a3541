import SyntaxHighlight.Buckets
import SyntaxHighlight.Language.Basic
import SyntaxHighlight.Legend
import SyntaxHighlight.Text.Edit

/-!
# Documents

A document that is tracked has a language, a text and the tree of that text. Its highlights are
made on demand and kept until the text changes.
-/

namespace SyntaxHighlight

abbrev DocumentName := String

/-- How texts are parsed: the tree that a parser makes of a text. -/
abbrev Parse := Parser → String → Tree

/-- The highlights of a document, as a list and by term. -/
structure Built where
  highlights : List Highlight
  buckets : Buckets
deriving DecidableEq

structure Document where
  language : Language
  text : String
  tree : Tree
  /-- The highlights of the tree, once they have been asked for. -/
  built : Option Built

namespace Document

def opened (parse : Parse) (language : Language) (text : String) : Document :=
  ⟨language, text, parse language.linked.parser text, none⟩

def withText (parse : Parse) (d : Document) (text : String) : Document :=
  { d with text, tree := parse d.language.linked.parser text, built := none }

def isDirty (d : Document) : Bool := d.built.isNone

/-- The highlights of the document's tree, with buckets for all terms of a legend. -/
def highlight (d : Document) (legend : Legend) : Built :=
  let highlights := d.tree.highlights d.language.grammar
  ⟨highlights, .ofHighlights legend.terms highlights⟩

/-- The highlights that are kept, or else those made now and kept. -/
def build (d : Document) (legend : Legend) : Built × Document :=
  match d.built with
  | some built => (built, d)
  | none =>
    let built := d.highlight legend
    (built, { d with built := some built })

/-- What is handed out is kept. -/
theorem built_build (d : Document) (legend : Legend) :
    (d.build legend).2.built = some (d.build legend).1 := by
  unfold build
  split
  · next h => exact h
  · rfl

theorem text_build (d : Document) (legend : Legend) : (d.build legend).2.text = d.text := by
  unfold build
  split <;> rfl

/-- Once highlights are made, making them again changes nothing. -/
theorem build_build (d : Document) (legend : Legend) :
    ((d.build legend).2.build legend).2 = (d.build legend).2 := by
  unfold build
  cases h : d.built <;> simp [h]

end Document

inductive EditEffect where
  | applied
  /-- There were no edits, and nothing changed. -/
  | empty
  /-- The document is not tracked, and nothing changed. -/
  | stale
deriving DecidableEq, Repr

def EditEffect.name : EditEffect → String
  | .applied => "applied"
  | .empty => "empty"
  | .stale => "stale"

structure Documents where
  byId : NameMap Document

namespace Documents

def empty : Documents := ⟨.empty⟩

def get? (ds : Documents) (doc : DocumentName) : Option Document := ds.byId.find? doc

def contains (ds : Documents) (doc : DocumentName) : Bool := ds.byId.contains doc

/-- Whether a document is tracked and its highlights are made. -/
def isFresh (ds : Documents) (doc : DocumentName) : Bool := (ds.get? doc).any (!·.isDirty)

def size (ds : Documents) : Nat := ds.byId.size

def isEmpty (ds : Documents) : Bool := ds.byId.isEmpty

/-- Track a document, in place of what was tracked under its name. -/
def track (ds : Documents) (parse : Parse) (doc : DocumentName) (language : Language)
    (text : String) : Documents :=
  ⟨ds.byId.insert doc (.opened parse language text)⟩

/-- Give a document the text that it has after some edits. -/
def edit (ds : Documents) (parse : Parse) (doc : DocumentName) (text : String) (edits : List Edit) :
    EditEffect × Documents :=
  match ds.get? doc with
  | none => (.stale, ds)
  | some d =>
    if edits.isEmpty then (.empty, ds)
    else (.applied, ⟨ds.byId.insert doc (d.withText parse text)⟩)

/-- Stop tracking a document; whether it was tracked. -/
def close (ds : Documents) (doc : DocumentName) : Bool × Documents :=
  (ds.contains doc, ⟨ds.byId.erase doc⟩)

/-- The highlights of a document, made now if need be. -/
def build (ds : Documents) (doc : DocumentName) (legend : Legend) : Option Built × Documents :=
  match ds.get? doc with
  | none => (none, ds)
  | some d =>
    let (built, d) := d.build legend
    (some built, ⟨ds.byId.insert doc d⟩)

/-! ### What is tracked after each operation -/

@[simp] theorem get?_empty (doc : DocumentName) : empty.get? doc = none := rfl

@[simp] theorem get?_track (ds : Documents) (parse : Parse) (doc other : DocumentName)
    (language : Language) (text : String) :
    (ds.track parse doc language text).get? other =
      if other = doc then some (.opened parse language text) else ds.get? other :=
  NameMap.find?_insert ds.byId other doc _

@[simp] theorem get?_close (ds : Documents) (doc other : DocumentName) :
    (ds.close doc).2.get? other = if other = doc then none else ds.get? other :=
  NameMap.find?_erase ds.byId other doc

theorem edit_of_none {ds : Documents} {doc : DocumentName} (h : ds.get? doc = none) (parse : Parse)
    (text : String) (edits : List Edit) : ds.edit parse doc text edits = (.stale, ds) := by
  simp [edit, h]

theorem edit_nil {ds : Documents} {doc : DocumentName} {d : Document} (h : ds.get? doc = some d)
    (parse : Parse) (text : String) : ds.edit parse doc text [] = (.empty, ds) := by
  simp [edit, h]

/-- An edit of a document that is tracked amounts to tracking it anew with the text behind it. -/
theorem edit_cons {ds : Documents} {doc : DocumentName} {d : Document} (h : ds.get? doc = some d)
    (parse : Parse) (text : String) (e : Edit) (edits : List Edit) :
    ds.edit parse doc text (e :: edits) = (.applied, ds.track parse doc d.language text) := by
  simp [edit, h, track, Document.withText, Document.opened]

/-- Building gives the highlights of the document, if there is one. -/
theorem build_fst (ds : Documents) (doc : DocumentName) (legend : Legend) :
    (ds.build doc legend).1 = (ds.get? doc).map fun d => (d.build legend).1 := by
  unfold build
  split
  · next h => rw [h]; rfl
  · next h => rw [h]; rfl

@[simp] theorem get?_build (ds : Documents) (doc : DocumentName) (legend : Legend)
    (other : DocumentName) :
    (ds.build doc legend).2.get? other =
      if other = doc then (ds.get? doc).map fun d => (d.build legend).2 else ds.get? other := by
  unfold build
  split
  · next h =>
    rw [h]
    split
    · next heq => rw [heq, h]; rfl
    · rfl
  · next h =>
    rw [h]
    exact NameMap.find?_insert ds.byId other doc _

theorem contains_eq_isSome (ds : Documents) (doc : DocumentName) :
    ds.contains doc = (ds.get? doc).isSome := rfl

end Documents

end SyntaxHighlight
