import Mathlib.Data.List.Induction
import Mathlib.Logic.Function.Basic
import SyntaxHighlight.Proofs.Engine.Session

/-!
# The texts that events leave

Events say which documents are open and with which texts, whatever is done with them. This is said
twice, by a relation between events and texts (`Event.Leave`) and by a `Journal` that is kept event
by event, and the two agree (`Journal.texts_foldl_iff`). A journal also counts the events about
documents that are not open.
-/

namespace SyntaxHighlight

namespace Event

def editedText? (doc : DocumentName) : Event → Option String
  | .changed other text edits => if doc = other ∧ edits ≠ [] then some text else none
  | _ => none

def resets (doc : DocumentName) : Event → Bool
  | .opened other _ _ => doc = other
  | .closed other => doc = other
  | _ => false

/-- Events leave a document with a text: the document was opened, and neither opened nor closed
since then, and the text is the one of the last change with edits or else the one it was opened
with. -/
def Leave (events : List Event) (doc : DocumentName) (text : String) : Prop :=
  ∃ before language opened later, events = before ++ .opened doc language opened :: later ∧
    (∀ event ∈ later, event.resets doc = false) ∧
    text = ((later.filterMap (editedText? doc)).getLast?).getD opened

end Event

/-- What events say about documents. -/
@[ext]
structure Journal where
  /-- The texts of the documents that are open. -/
  texts : DocumentName → Option String
  /-- The number of events about documents that are not open. -/
  stale : Nat

namespace Journal

def empty : Journal := ⟨fun _ => none, 0⟩

def note (j : Journal) : Event → Journal
  | .opened doc _ text => { j with texts := Function.update j.texts doc (some text) }
  | .changed doc text edits =>
    match j.texts doc with
    | none => { j with stale := j.stale + 1 }
    | some _ =>
      if edits.isEmpty then j else { j with texts := Function.update j.texts doc (some text) }
  | .closed doc =>
    { texts := Function.update j.texts doc none
      stale := if (j.texts doc).isSome then j.stale else j.stale + 1 }
  | .visibleEditors _ => j
  | .settingsChanged _ => j

variable {doc : DocumentName}

/-- An event that neither opens nor closes a document leaves it its text or gives it another. -/
theorem texts_note {event : Event} (h : event.resets doc = false) (j : Journal) :
    (j.note event).texts doc =
      (j.texts doc).map fun old => (event.editedText? doc).getD old := by
  -- Only a change with edits gives a text to a document that is open, and only to its own.
  cases event with
  | opened other language text =>
    have hne : doc ≠ other := by simpa [Event.resets] using h
    simp [note, Event.editedText?, hne]
  | closed other =>
    have hne : doc ≠ other := by simpa [Event.resets] using h
    simp [note, Event.editedText?, hne]
  | changed other text edits =>
    by_cases hdoc : doc = other
    · subst hdoc
      cases htext : j.texts doc with
      | none => simp [note, htext]
      | some old =>
        cases edits with
        | nil => simp [note, Event.editedText?, htext]
        | cons edit edits => simp [note, Event.editedText?, htext]
    · have hsame : (j.note (.changed other text edits)).texts doc = j.texts doc := by
        unfold note
        dsimp only
        split
        · rfl
        · split
          · rfl
          · exact Function.update_of_ne hdoc _ _
      simp [hsame, Event.editedText?, hdoc]
  | visibleEditors editors => simp [note, Event.editedText?]
  | settingsChanged settings => simp [note, Event.editedText?]

/-- As long as a document is neither opened nor closed, its text is the last one that it was given,
or else the one that it had. -/
theorem texts_foldl_note {later : List Event} (h : ∀ event ∈ later, event.resets doc = false)
    {j : Journal} {opened : String} (hj : j.texts doc = some opened) :
    (later.foldl note j).texts doc =
      some (((later.filterMap (Event.editedText? doc)).getLast?).getD opened) := by
  induction later generalizing j opened with
  | nil => exact hj
  | cons event rest ih =>
    have hnote : (j.note event).texts doc = some ((event.editedText? doc).getD opened) := by
      rw [texts_note (h event List.mem_cons_self), hj]
      rfl
    rw [List.foldl_cons, ih (fun other hother => h other (List.mem_cons_of_mem event hother)) hnote]
    cases hedited : event.editedText? doc with
    | none => rw [List.filterMap_cons_none hedited]; rfl
    | some text => rw [List.filterMap_cons_some hedited, List.getLast?_cons]; rfl

/-- A journal holds the texts that its events leave. -/
theorem texts_foldl_iff {events : List Event} {text : String} :
    (events.foldl note empty).texts doc = some text ↔ Event.Leave events doc text := by
  constructor
  · intro h
    -- By induction on the last event: either it opens the document, or it has a text before.
    induction events using List.reverseRecOn generalizing text with
    | nil => cases h
    | append_singleton events event ih =>
      rw [List.foldl_append, List.foldl_cons, List.foldl_nil] at h
      cases hresets : event.resets doc with
      | false =>
        rw [texts_note hresets] at h
        obtain ⟨old, hold, rfl⟩ := Option.map_eq_some_iff.1 h
        obtain ⟨before, language, opened, later, rfl, hlater, rfl⟩ := ih hold
        refine ⟨before, language, opened, later ++ [event], ?_, ?_, ?_⟩
        · rw [List.append_assoc, List.cons_append]
        · intro other hother
          rcases List.mem_append.1 hother with hother | hother
          · exact hlater other hother
          · rw [List.mem_singleton.1 hother]
            exact hresets
        · rw [List.filterMap_append, List.getLast?_append]
          cases hedited : event.editedText? doc with
          | none => simp [hedited]
          | some text => simp [hedited]
      | true =>
        cases event with
        | opened other language new =>
          obtain rfl : doc = other := by simpa [Event.resets] using hresets
          refine ⟨events, language, new, [], rfl, ?_, ?_⟩
          · intro other hother
            cases hother
          · simpa [note, eq_comm] using h
        | closed other =>
          obtain rfl : doc = other := by simpa [Event.resets] using hresets
          simp [note] at h
        | _ => cases hresets
  · rintro ⟨before, language, opened, later, rfl, hlater, rfl⟩
    rw [List.foldl_append, List.foldl_cons]
    apply texts_foldl_note hlater
    simp [note]

end Journal

end SyntaxHighlight
