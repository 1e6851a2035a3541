import SyntaxHighlight.Proofs.Engine.Ledger
import SyntaxHighlight.Proofs.Engine.Reopening

/-!
# Documents that are closed

A document that is closed may be on screen, and it may have been out of date, owed to its editors or
waiting for a language that is still being loaded. None of this brings it back: only an event that
opens it does (`Ledger.Lacks.act`), and without one nothing is known, answered or sent of it
(`Session.silent_after_close`).
-/

namespace SyntaxHighlight

def Action.Opens (doc : DocumentName) (a : Action) : Prop :=
  ∃ now language text, a = .step (.event now (.opened doc language text))

namespace Ledger

structure Lacks (l : Ledger) (doc : DocumentName) : Prop where
  waiting : l.loading.find? doc = none
  text : l.texts doc = none

variable {l : Ledger} {doc : DocumentName}

/-- A document that is closed neither waits nor is tracked. -/
theorem lacks_closed (l : Ledger) (doc : DocumentName) : (l.closed doc).Lacks doc := by
  constructor
  · exact (NameMap.find?_erase l.loading doc doc).trans (if_pos rfl)
  · exact Function.update_self doc none l.texts

theorem find?_erase_of_none {loading : NameMap Waiting} (h : loading.find? doc = none)
    (other : DocumentName) : (loading.erase other).find? doc = none := by
  rw [NameMap.find?_erase, h, ite_self]

theorem Lacks.opened (h : l.Lacks doc) {other : DocumentName} (hne : doc ≠ other)
    (language : LanguageId) (text : String) : (l.opened other language text).Lacks doc := by
  have herase := find?_erase_of_none h.waiting other
  unfold Ledger.opened
  -- What comes in, or waits, is another document.
  split
  · cases l.registry.get? language with
    | none =>
      refine ⟨?_, h.text⟩
      dsimp only
      rw [NameMap.find?_insert, if_neg hne, herase]
    | some outcome =>
      cases outcome with
      | error _ => exact ⟨herase, h.text⟩
      | ok _ =>
        refine ⟨herase, ?_⟩
        dsimp only
        rw [Function.update_of_ne hne, h.text]
  · exact h

/-- A change does not bring in a document. -/
theorem Lacks.changed (h : l.Lacks doc) (other : DocumentName) (text : String)
    (edits : List Edit) : (l.changed other text edits).Lacks doc := by
  unfold Ledger.changed
  split
  · next waiting hwaiting =>
    -- A document that waits is another one.
    have hne : doc ≠ other := by
      rintro rfl
      rw [h.waiting] at hwaiting
      cases hwaiting
    split
    · exact h
    · refine ⟨?_, h.text⟩
      dsimp only
      rw [NameMap.find?_insert, if_neg hne, h.waiting]
  · next old _ hold =>
    -- A document that is tracked is another one.
    have hne : doc ≠ other := by
      rintro rfl
      rw [h.text] at hold
      cases hold
    split
    · exact h
    · refine ⟨h.waiting, ?_⟩
      dsimp only
      rw [Function.update_of_ne hne, h.text]
  · exact ⟨h.waiting, h.text⟩

/-- Closing any document brings none. -/
theorem Lacks.closed (h : l.Lacks doc) (other : DocumentName) : (l.closed other).Lacks doc := by
  refine ⟨find?_erase_of_none h.waiting other, ?_⟩
  show Function.update l.texts other none doc = none
  rw [Function.update_apply, h.text, ite_self]

/-- A delivery brings in nothing but what waits. -/
theorem Lacks.delivered (h : l.Lacks doc) (language : LanguageId) (outcome : Outcome) :
    (l.delivered language outcome).Lacks doc := by
  have htext : l.textFor? language doc = none := by rw [textFor?, h.waiting]; rfl
  unfold Ledger.delivered
  constructor
  · rw [NameMap.find?_filter, h.waiting, ite_self]
  · dsimp only
    rw [htext, h.text]
    exact ite_self none

/-- Only an event that opens a document brings it in. -/
theorem Lacks.act (h : l.Lacks doc) {a : Action} (ha : ¬ a.Opens doc) : (l.act a).Lacks doc := by
  -- Only an event that opens the document could bring it; a delivery brings the documents that
  -- wait.
  cases a with
  | request r => exact h
  | step s =>
    cases s with
    | event now event =>
      cases event with
      | opened other language text =>
        have hne : doc ≠ other := by
          rintro rfl
          exact ha ⟨now, language, text, rfl⟩
        exact h.opened hne language text
      | changed other text edits => exact h.changed other text edits
      | closed other => exact h.closed other
      | visibleEditors editors => exact h
      | settingsChanged settings => exact ⟨h.waiting, h.text⟩
    | takeRequests => exact h
    | startLoad language => exact ⟨h.waiting, h.text⟩
    | finishLoad files language => exact ⟨h.waiting, h.text⟩
    | deliver now language outcome => exact h.delivered language outcome
    | fire now => exact h

end Ledger

namespace Engine

variable {parse : Parse} {e : Engine} {doc : DocumentName}

theorem isLoading_of_lacks (h : e.ledger.Lacks doc) : e.isLoading doc = false := by
  have hfind : e.loading.find? doc = none := h.waiting
  rw [isLoading, NameMap.contains, hfind]
  rfl

/-- A document that the ledger lacks is not tracked. -/
theorem contains_of_lacks (h : e.ledger.Lacks doc) : e.documents.contains doc = false := by
  have hnone : e.documents.get? doc = none := Option.map_eq_none_iff.1 h.text
  rw [Documents.contains_eq_isSome, hnone]
  rfl

/-- Whatever an action sends is about a document that is tracked. -/
theorem contains_of_mem_act {a : Action} {p : Push} (h : p ∈ (e.act parse a).1) :
    e.documents.contains p.editor.doc = true := by
  cases a with
  | request r => cases h
  | step s =>
    cases s with
    | fire now => exact contains_of_mem_fire h
    | _ => cases h

end Engine

namespace Session

variable {parse : Parse} {doc : DocumentName}

/-- A document that is not there stays away, and is not sent, until it is opened. -/
theorem lacks_run {s : Session} (h : s.engine.ledger.Lacks doc) {later : List Action}
    (hnever : ∀ a ∈ later, ¬ a.Opens doc) :
    (s.run parse later).engine.ledger.Lacks doc ∧
      ∃ new, (s.run parse later).sent = s.sent ++ new ∧ ∀ p ∈ new, p.editor.doc ≠ doc := by
  -- What an action sends belongs to documents that are tracked when it comes, so never to this one.
  induction later generalizing s with
  | nil => exact ⟨h, [], (List.append_nil _).symm, fun p hp => absurd hp List.not_mem_nil⟩
  | cons a rest ih =>
    have hlacks : (s.act parse a).engine.ledger.Lacks doc := by
      show (s.engine.act parse a).2.ledger.Lacks doc
      rw [Engine.ledger_act]
      exact h.act (hnever a List.mem_cons_self)
    obtain ⟨hlast, new, hsent, hnew⟩ := ih hlacks fun b hb => hnever b (List.mem_cons_of_mem a hb)
    refine ⟨hlast, (s.engine.act parse a).1 ++ new, ?_, ?_⟩
    · show ((s.act parse a).run parse rest).sent = _
      rw [hsent]
      exact List.append_assoc _ _ _
    · intro p hp
      rcases List.mem_append.1 hp with hp | hp
      · rintro rfl
        have htracked := Engine.contains_of_mem_act hp
        rw [Engine.contains_of_lacks h] at htracked
        cases htracked
      · exact hnew p hp

/-- **A document that is closed is silent.** Whatever the session before it is closed, and whatever
follows that does not open it again, it neither waits nor is tracked, its highlights and tokens are
not known, and nothing is sent to its editors, neither by what followed nor by a firing now. -/
theorem silent_after_close (parse : Parse) (s : Session) (now : Nat) (doc : DocumentName)
    (later : List Action) (hnever : ∀ a ∈ later, ¬ a.Opens doc) {t : Session}
    (ht : t = s.run parse (.step (.event now (.closed doc)) :: later)) :
    t.engine.isLoading doc = false ∧ t.engine.Unseen doc ∧
      ∃ new, t.sent = s.sent ++ new ∧ ∀ p ∈ new, p.editor.doc ≠ doc := by
  have hclosed : (s.act parse (.step (.event now (.closed doc)))).engine.ledger.Lacks doc := by
    show (s.engine.act parse (.step (.event now (.closed doc)))).2.ledger.Lacks doc
    rw [Engine.ledger_act]
    exact Ledger.lacks_closed s.engine.ledger doc
  obtain ⟨hlacks, new, hsent, hnew⟩ := lacks_run hclosed hnever
  have hrun : t = (s.act parse (.step (.event now (.closed doc)))).run parse later := ht
  rw [← hrun] at hlacks hsent
  refine ⟨Engine.isLoading_of_lacks hlacks, Engine.unseen_of_untracked ?_, new, ?_, hnew⟩
  · exact Engine.contains_of_lacks hlacks
  · -- Closing itself sends nothing.
    rw [hsent]
    exact congrArg (· ++ new) (List.append_nil s.sent)

end Session

namespace Sample

/-- An editor of a document comes on screen anew, a language is delivered once more, and both stages
fire. -/
def lingering : List Action :=
  [.step (.event 52 (.changed "a" "13" [⟨1, 1, 2, ⟨0, 1⟩, ⟨0, 1⟩, ⟨0, 2⟩⟩])),
    .step (.event 53 (.visibleEditors [⟨1, "a"⟩, ⟨2, "a"⟩])), .request (.highlights "a"),
    .step (.deliver 54 "digits" (.ok language)), .step (.fire 75), .step (.fire 95)]

end Sample

/-- A document on screen is closed between a change and the rebuild that is planned for it. -/
theorem Session.silent_after_close_lingering :
    ∃ s t, s = (create Sample.registry Sample.settings).run Sample.parse
        ((Sample.opening ++ Sample.typing).map .step) ∧
      s.engine.documents.contains "a" = true ∧ s.engine.deadline? = some 70 ∧
      t = s.run Sample.parse (.step (.event 51 (.closed "a")) :: Sample.lingering) ∧
      t.engine.isVisible "a" = true ∧ t.engine.Unseen "a" ∧
      ∃ new, t.sent = s.sent ++ new ∧ ∀ p ∈ new, p.editor.doc ≠ "a" := by
  have hnever : ∀ a ∈ Sample.lingering, ¬ a.Opens "a" := by
    rintro a ha ⟨now, language, text, rfl⟩
    simp [Sample.lingering] at ha
  have hsilent := silent_after_close Sample.parse
    ((create Sample.registry Sample.settings).run Sample.parse
      ((Sample.opening ++ Sample.typing).map .step)) 51 "a" Sample.lingering hnever rfl
  exact ⟨_, _, rfl, by decide, by decide, rfl, by decide, hsilent.2⟩

end SyntaxHighlight
