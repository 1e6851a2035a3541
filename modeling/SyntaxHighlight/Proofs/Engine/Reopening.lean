import Mathlib.Data.List.Induction
import SyntaxHighlight.Proofs.Engine.Display
import SyntaxHighlight.Proofs.Engine.Intake

/-!
# Documents that wait and are tracked

A document waits for its language or is tracked, and one that waits is not shown. This fails in one
way only: a document that is tracked is opened once more, under a language that is enabled and whose
outcome is not known yet. It then waits for that language, while what is tracked under its name
stays. `Session.unseen_while_waiting_iff` says that without such an action a document that waits is
not tracked, gives no answers and is sent to no editor, and that such an action breaks this.
-/

namespace SyntaxHighlight

namespace Intake

def Doubled (v : Intake) (doc : DocumentName) : Prop :=
  v.loading.contains doc = true ∧ v.tracked doc = true

/-- A document that is tracked is opened under an enabled language whose outcome is not known. -/
def Reopens (v : Intake) (doc : DocumentName) (a : Action) : Prop :=
  v.tracked doc = true ∧ ∃ now language text,
    a = .step (.event now (.opened doc language text)) ∧
    v.registry.isEnabled language = true ∧ v.registry.get? language = none

/-- One action makes a document doubled only by opening it once more. -/
theorem Move.doubled {v w : Intake} {a : Action} (h : v.Move a w) {doc : DocumentName}
    (hdoubled : w.Doubled doc) : v.Doubled doc ∨ v.Reopens doc a := by
  obtain ⟨hwaits, htracked⟩ := hdoubled
  have herase : ∀ {other : DocumentName}, (v.loading.erase other).contains doc = true →
      doc ≠ other ∧ v.loading.contains doc = true := by
    intro other hother
    obtain ⟨w, hw⟩ := Option.isSome_iff_exists.1 hother
    obtain ⟨hne, hw⟩ := NameMap.find?_erase_eq_some_iff.1 hw
    exact ⟨hne, Option.isSome_iff_exists.2 ⟨w, hw⟩⟩
  cases h with
  | idle => exact .inl ⟨hwaits, htracked⟩
  | advanced => exact .inl ⟨hwaits, htracked⟩
  | taken => exact .inl ⟨hwaits, htracked⟩
  | dropped _ other => exact .inl ⟨(herase hwaits).2, htracked⟩
  | received _ other =>
    obtain ⟨hne, hold⟩ := herase hwaits
    have hold' : Function.update v.tracked other true doc = true := htracked
    rw [Function.update_of_ne hne] at hold'
    exact .inl ⟨hold, hold'⟩
  | closed _ other =>
    obtain ⟨hne, hold⟩ := herase hwaits
    have hold' : Function.update v.tracked other false doc = true := htracked
    rw [Function.update_of_ne hne] at hold'
    exact .inl ⟨hold, hold'⟩
  | @awaited now other language text henabled hnone =>
    -- The only way to come to wait, and it does not look at what is tracked.
    by_cases heq : doc = other
    · subst heq
      exact .inr ⟨htracked, now, language, text, rfl, henabled, hnone⟩
    · rw [await, NameMap.contains, NameMap.find?_insert, if_neg heq] at hwaits
      exact .inl ⟨(herase hwaits).2, htracked⟩
  | @rewritten _ other w hw text =>
    refine .inl ⟨?_, htracked⟩
    rw [NameMap.contains, NameMap.find?_insert] at hwaits
    split at hwaits
    · next heq =>
      rw [NameMap.contains, heq, hw]
      rfl
    · exact hwaits
  | delivered now language outcome =>
    rw [deliver, NameMap.contains, NameMap.find?_filter] at hwaits
    -- A document that waits after a delivery did not wait for the language.
    split at hwaits
    · next hnot =>
      rw [Bool.not_eq_true'] at hnot
      have hold : (v.tracked doc || (outcome.isOk && v.waits language doc)) = true := htracked
      rw [hnot, Bool.and_false, Bool.or_false] at hold
      exact .inl ⟨hwaits, hold⟩
    · cases hwaits

end Intake

namespace Engine

/-- Opening a document again in this way leaves it waiting and tracked. -/
theorem doubled_of_reopens {e : Engine} {doc : DocumentName} {a : Action}
    (h : e.intake.Reopens doc a) (parse : Parse) : (e.act parse a).2.intake.Doubled doc := by
  obtain ⟨htracked, now, language, text, rfl, henabled, hnone⟩ := h
  have henabled : e.registry.isEnabled language = true := henabled
  have hnone : e.registry.get? language = none := hnone
  have hawait : (e.act parse (.step (.event now (.opened doc language text)))).2 =
      { e with loading := e.loading.erase doc }.await doc language text := by
    show e.openDocument parse doc language text now = _
    rw [openDocument, if_pos henabled]
    dsimp only
    rw [hnone]
  rw [hawait]
  refine ⟨?_, htracked⟩
  show ((e.loading.erase doc).insert doc ⟨language, text⟩).contains doc = true
  rw [NameMap.contains, NameMap.find?_insert, if_pos rfl]
  rfl

/-- A document is not tracked, and nothing is known or shown of it. -/
structure Unseen (e : Engine) (doc : DocumentName) : Prop where
  untracked : e.documents.contains doc = false
  highlights : (e.highlights doc).1 = none
  tokens : (e.tokens doc).1 = none
  unsent : ∀ now, ∀ p ∈ (e.fire now).1, p.editor.doc ≠ doc

/-- What is sent belongs to a document that is tracked. -/
theorem contains_of_mem_fire {e : Engine} {now : Nat} {p : Push} (h : p ∈ (e.fire now).1) :
    e.documents.contains p.editor.doc = true := by
  have hsame : (e.fireRebuild now).documents.contains = e.documents.contains :=
    congrArg Intake.tracked (intake_fireRebuild e now)
  have hrefreshes := refreshes_fireRefresh (e.fireRebuild now) now
  unfold fire at h
  generalize (e.fireRebuild now).fireRefresh now = result at h hrefreshes
  obtain ⟨pushes, last⟩ := result
  generalize last.display = x at hrefreshes
  cases hrefreshes with
  | idle => cases h
  | due hpushes =>
    obtain ⟨-, -, d, b, hd, -⟩ := (hpushes p).1 h
    rw [← hsame, Documents.contains_eq_isSome]
    rw [show (e.fireRebuild now).documents.get? p.editor.doc = some d from hd]
    rfl

/-- A document has an answer if it is tracked. -/
theorem isSome_highlights (e : Engine) (doc : DocumentName) :
    (e.highlights doc).1.isSome = e.documents.contains doc := by
  show ((e.documents.build doc e.legend).1.map _).isSome = _
  rw [Option.isSome_map, Documents.build_fst, Option.isSome_map, Documents.contains_eq_isSome]

/-- Nothing is known or shown of a document that is not tracked. -/
theorem unseen_of_untracked {e : Engine} {doc : DocumentName}
    (h : e.documents.contains doc = false) : e.Unseen doc := by
  have hhighlights : (e.highlights doc).1 = none := by
    rw [← Option.isNone_iff_eq_none, ← Option.isSome_eq_false_iff, isSome_highlights, h]
  refine ⟨h, hhighlights, ?_, ?_⟩
  · show (do let highlights ← (e.highlights doc).1; _) = none
    rw [hhighlights]
    rfl
  · intro now p hp heq
    rw [← heq, contains_of_mem_fire hp] at h
    cases h

end Engine

namespace Session

variable (parse : Parse) (registry : Registry) (settings : Settings) (doc : DocumentName)

/-- If a document is opened while it is tracked only under languages whose outcome is known, it is
never doubled. -/
theorem not_doubled_of_never_reopened (actions : List Action)
    (hnever : ∀ before a, before ++ [a] <+: actions →
      ¬ ((create registry settings).run parse before).engine.intake.Reopens doc a) :
    ∀ before, before <+: actions →
      ¬ ((create registry settings).run parse before).engine.intake.Doubled doc := by
  intro before
  -- By induction on the actions so far: the last one would have had to open the document again.
  induction before using List.reverseRecOn with
  | nil =>
    intro _ hdoubled
    cases hdoubled.1
  | append_singleton before a ih =>
    intro hbefore hdoubled
    rw [run_concat] at hdoubled
    rcases (Engine.move_intake parse _ a).doubled hdoubled with hold | hreopens
    · exact ih ((List.prefix_append before [a]).trans hbefore) hold
    · exact hnever before a hbefore hreopens

/-- **A document that waits is not seen**, along every run from the start, if it is never opened
under a language without outcome while it is tracked, and only then. -/
theorem unseen_while_waiting_iff (actions : List Action) :
    (∀ before, before <+: actions →
      ((create registry settings).run parse before).engine.isLoading doc = true →
      ((create registry settings).run parse before).engine.Unseen doc) ↔
    ∀ before a, before ++ [a] <+: actions →
      ¬ ((create registry settings).run parse before).engine.intake.Reopens doc a := by
  constructor
  · intro hunseen before a hbefore hreopens
    have hdoubled := Engine.doubled_of_reopens hreopens parse
    have hafter := hunseen (before ++ [a]) hbefore
    rw [run_concat] at hafter
    have huntracked := (hafter hdoubled.1).untracked
    exact Bool.false_ne_true (huntracked.symm.trans hdoubled.2)
  · intro hnever before hbefore hwaits
    have hnot := not_doubled_of_never_reopened parse registry settings doc actions hnever before
      hbefore
    apply Engine.unseen_of_untracked
    rw [← Bool.not_eq_true]
    intro htracked
    exact hnot ⟨hwaits, htracked⟩

end Session

namespace Sample

def readyRegistry : Registry :=
  { registry with progress := NameMap.empty.insert "digits" (.finished (.ok language)) }

def bothSettings : Settings := { settings with languages := ["digits", "words"] }

def reopening : List Action :=
  [.step (.event 0 (.opened "a" "digits" "1")), .step (.event 1 (.opened "a" "words" "1"))]

end Sample

/-- A document that is opened once more waits, and still answers with its old highlights. -/
theorem Session.reopened_waits_and_answers :
    ((create Sample.readyRegistry Sample.bothSettings).run Sample.parse
      Sample.reopening).engine.isLoading "a" = true ∧
    ((create Sample.readyRegistry Sample.bothSettings).run Sample.parse
      Sample.reopening).engine.documents.contains "a" = true ∧
    (((create Sample.readyRegistry Sample.bothSettings).run Sample.parse
      Sample.reopening).engine.highlights "a").1.isSome = true := by
  rw [Engine.isSome_highlights]
  decide

end SyntaxHighlight
