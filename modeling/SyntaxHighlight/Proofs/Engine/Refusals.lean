import Mathlib.Data.List.Induction
import SyntaxHighlight.Proofs.Engine.Handshake
import SyntaxHighlight.Proofs.Engine.Ledger

/-!
# Refusals that come too late

A delivery that brings an error drops the documents that wait for its language. There is a reason to
do so if the language failed for good or is not enabled. But an outcome is made at one time and
delivered at another, and a refusal is not kept: it may have been given while the language was
disabled and come in when it is enabled again. `Session.dropped_without_reason_iff` says that this
is the only way in which documents are dropped for no reason.
-/

namespace SyntaxHighlight

namespace Registry

/-- There is a reason to drop the documents of a language: it failed for good or is not enabled. -/
def GivesUp (r : Registry) (language : LanguageId) : Prop :=
  (∃ error, r.get? language = some (.error error)) ∨ r.isEnabled language = false

/-- Only other settings enable a language. -/
theorem enables_of_act {r : Registry} {a : Action} {language : LanguageId}
    (hoff : r.isEnabled language = false) (hon : (r.act a).isEnabled language = true) :
    ∃ now settings, a = .step (.event now (.settingsChanged settings)) ∧
      settings.enables language = true := by
  have hdiffers : (r.act a).isEnabled language ≠ r.isEnabled language := by
    rw [hoff, hon]
    decide
  -- Only settings decide on what is enabled.
  cases a with
  | request request => exact absurd rfl hdiffers
  | step s =>
    cases s with
    | event now event =>
      cases event with
      | settingsChanged settings => exact ⟨now, settings, rfl, hon⟩
      | _ => exact absurd rfl hdiffers
    | startLoad other =>
      refine absurd ?_ hdiffers
      rw [act]
      split
      · exact isEnabled_start r other language
      · rfl
    | finishLoad files other => exact absurd (isEnabled_finish r files other language) hdiffers
    | _ => exact absurd rfl hdiffers

end Registry

/-! ### What a delivery drops -/

namespace Engine

variable {parse : Parse} {e : Engine} {language : LanguageId} {outcome : Outcome}
  {doc : DocumentName}

/-- A delivery drops a document: it waited for the language and waits no more, though nothing was
parsed. -/
structure Drops (parse : Parse) (e : Engine) (now : Nat) (language : LanguageId)
    (outcome : Outcome) (doc : DocumentName) : Prop where
  waited : doc ∈ (e.waitingFor language).map (·.1)
  gone : (e.finishLoading parse language outcome now).isLoading doc = false
  unparsed : (e.finishLoading parse language outcome now).stats.parses = e.stats.parses

/-- Each document that is released is parsed once. -/
theorem parses_releaseAll (waiting : List (DocumentName × String)) (loaded : Language)
    (now : Nat) (e : Engine) :
    (waiting.foldl (release parse loaded now) e).stats.parses =
      e.stats.parses + waiting.length := by
  induction waiting generalizing e with
  | nil => rfl
  | cons w rest ih =>
    have hhead : (release parse loaded now e w).stats.parses = e.stats.parses + 1 := by
      unfold release track
      dsimp only
      split <;> rfl
    rw [List.foldl_cons, ih, hhead, List.length_cons]
    omega

/-- Documents are dropped by errors, whatever the error is. -/
theorem drops_iff {now : Nat} :
    e.Drops parse now language outcome doc ↔
      doc ∈ (e.waitingFor language).map (·.1) ∧ outcome.isOk = false := by
  constructor
  · rintro ⟨hwaited, -, hunparsed⟩
    refine ⟨hwaited, ?_⟩
    cases outcome with
    | error _ => rfl
    | ok loaded =>
      -- A good outcome has the documents parsed.
      have hparses : (e.finishLoading parse language (.ok loaded) now).stats.parses =
          e.stats.parses + (e.waitingFor language).length := parses_releaseAll _ loaded now e
      have hsome : 0 < (e.waitingFor language).length := by
        rw [← List.length_map]
        exact List.length_pos_of_mem hwaited
      omega
  · rintro ⟨hwaited, herror⟩
    refine ⟨hwaited, ?_, ?_⟩
    · -- A document that waited waits no more, whatever the outcome.
      have hloading : (e.finishLoading parse language outcome now).loading =
          (e.intake.deliver language outcome).loading :=
        congrArg Intake.loading (intake_finishLoading parse e language outcome now)
      rw [isLoading, hloading, NameMap.contains]
      show ((e.loading.filter fun doc => !e.intake.waits language doc).find? doc).isSome = false
      rw [NameMap.find?_filter, mem_waitingFor.1 hwaited]
      rfl
    · cases outcome with
      | error _ => rfl
      | ok loaded => cases herror

end Engine

/-! ### Outcomes and their way to the engine -/

namespace Session

variable {parse : Parse} {start : Session} {language : LanguageId} {outcome : Outcome}

/-- Along some actions the host took over a language that it was asked to load. -/
def HandedOut (parse : Parse) (start : Session) (language : LanguageId) (actions : List Action) :
    Prop :=
  ∃ before, before ++ [.step .takeRequests] <+: actions ∧
    language ∈ (start.run parse before).engine.queue

/-- At some moment along the actions, after the language was handed out, a load of it came back with
an outcome. -/
def CameBack (parse : Parse) (start : Session) (language : LanguageId) (outcome : Outcome)
    (actions : List Action) : Prop :=
  ∃ earlier, earlier <+: actions ∧ HandedOut parse start language earlier ∧
    (start.run parse earlier).engine.registry.Answers language outcome

/-- A language that was not enabled at some moment after it was handed out was enabled again since
then. -/
def EnabledAgain (parse : Parse) (start : Session) (language : LanguageId)
    (actions : List Action) : Prop :=
  ∃ earlier before now settings, HandedOut parse start language earlier ∧
    (start.run parse earlier).engine.registry.isEnabled language = false ∧ earlier <+: before ∧
    before ++ [.step (.event now (.settingsChanged settings))] <+: actions ∧
    settings.enables language = true

/-- An outcome is an outdated refusal: it was given while the language was not enabled, which it is
now, and the language has not failed. -/
structure Outdated (parse : Parse) (start : Session) (language : LanguageId) (outcome : Outcome)
    (actions : List Action) : Prop where
  refusal : outcome = .error (.disabled language)
  again : EnabledAgain parse start language actions
  enabled : (start.run parse actions).engine.registry.isEnabled language = true
  unfailed : ∀ error,
    (start.run parse actions).engine.registry.get? language ≠ some (.error error)

/-- A run keeps the outcomes that the registry has. -/
theorem keeps_run (parse : Parse) (s : Session) (actions : List Action) :
    s.engine.registry.Keeps (s.run parse actions).engine.registry := by
  induction actions generalizing s with
  | nil => exact fun _ _ h => h
  | cons a rest ih =>
    intro id outcome h
    exact ih (s.act parse a) id outcome ((Engine.move_intake parse s.engine a).keeps id outcome h)

/-- Between a moment at which a language is not enabled and a later one at which it is, settings
enable it. -/
theorem exists_enabling {earlier : List Action}
    (hoff : (start.run parse earlier).engine.registry.isEnabled language = false)
    (rest : List Action)
    (hon : (start.run parse (earlier ++ rest)).engine.registry.isEnabled language = true) :
    ∃ before now settings, earlier <+: before ∧
      before ++ [.step (.event now (.settingsChanged settings))] <+: earlier ++ rest ∧
      settings.enables language = true := by
  -- On the run from behind: the language was enabled again before the last action, or by it.
  induction rest using List.reverseRecOn with
  | nil =>
    rw [List.append_nil, hoff] at hon
    cases hon
  | append_singleton rest a ih =>
    rw [← List.append_assoc] at hon ⊢
    cases hmid : (start.run parse (earlier ++ rest)).engine.registry.isEnabled language with
    | true =>
      obtain ⟨before, now, settings, hearlier, hbefore, henables⟩ := ih hmid
      exact ⟨before, now, settings, hearlier, hbefore.trans (List.prefix_append _ _), henables⟩
    | false =>
      have hregistry : ((start.run parse (earlier ++ rest)).act parse a).engine.registry =
          (start.run parse (earlier ++ rest)).engine.registry.act a :=
        (congrArg Ledger.registry (Engine.ledger_act parse _ a)).trans (Ledger.registry_act _ a)
      rw [run_concat, hregistry] at hon
      obtain ⟨now, settings, rfl, henables⟩ := Registry.enables_of_act hmid hon
      exact ⟨earlier ++ rest, now, settings, List.prefix_append _ _, List.prefix_rfl, henables⟩

/-- **Documents are dropped for no reason by outdated refusals, and by nothing else.** Take any
actions on a fresh engine and an outcome that came back for a language that was handed out on the
way. Delivering it now drops a document although the language has not failed for good and is
enabled, if the document waits for the language and the outcome is a refusal that was given before
the language was enabled again, and only then. -/
theorem dropped_without_reason_iff (parse : Parse) (registry : Registry) (settings : Settings)
    (actions : List Action) (now : Nat) (language : LanguageId) (outcome : Outcome)
    (doc : DocumentName) {e : Engine}
    (he : e = ((create registry settings).run parse actions).engine)
    (hback : CameBack parse (create registry settings) language outcome actions) :
    (e.Drops parse now language outcome doc ∧ ¬ e.registry.GivesUp language) ↔
      doc ∈ (e.waitingFor language).map (·.1) ∧
        Outdated parse (create registry settings) language outcome actions := by
  subst he
  rw [Engine.drops_iff]
  constructor
  · rintro ⟨⟨hwaited, herror⟩, hreason⟩
    refine ⟨hwaited, ?_⟩
    obtain ⟨earlier, ⟨rest, rfl⟩, hhanded, hanswers⟩ := hback
    have henabled : ((create registry settings).run parse
        (earlier ++ rest)).engine.registry.isEnabled language = true := by
      rw [← Bool.not_eq_false]
      exact fun hoff => hreason (.inr hoff)
    have hunfailed : ∀ error, ((create registry settings).run parse
        (earlier ++ rest)).engine.registry.get? language ≠ some (.error error) :=
      fun error hfailed => hreason (.inl ⟨error, hfailed⟩)
    rcases hanswers with ⟨hoff, rfl⟩ | hkept
    · obtain ⟨before, at', settings', hearlier, hbefore, henables⟩ :=
        exists_enabling hoff rest henabled
      exact ⟨rfl, ⟨earlier, before, at', settings', hhanded, hoff, hearlier, hbefore, henables⟩,
        henabled, hunfailed⟩
    · -- What is kept is kept until now, so an error would be a reason.
      have hnow := keeps_run parse ((create registry settings).run parse earlier) rest _ _ hkept
      rw [run, run, ← List.foldl_append] at hnow
      cases outcome with
      | ok loaded => cases herror
      | error error => exact absurd hnow (hunfailed error)
  · rintro ⟨hwaited, hrefusal, -, henabled, hunfailed⟩
    refine ⟨⟨hwaited, by rw [hrefusal]; rfl⟩, ?_⟩
    rintro (⟨error, hfailed⟩ | hoff)
    · exact hunfailed error hfailed
    · rw [henabled] at hoff
      cases hoff

end Session

namespace Sample

def handing : List Action := [.step (.event 0 (.opened "a" "digits" "1")), .step .takeRequests]

def disabling : List Action :=
  handing ++ [.step (.event 1 (.settingsChanged { settings with languages := [] }))]

/-- The language is enabled again, and another document is opened under it. -/
def enabling : List Action :=
  disabling ++ [.step (.event 2 (.settingsChanged settings)),
    .step (.event 3 (.opened "b" "digits" "2"))]

theorem cameBack_enabling :
    Session.CameBack parse (.create registry settings) "digits" (.error (.disabled "digits"))
      enabling := by
  refine ⟨disabling, List.prefix_append _ _, ?_, .inl ⟨by decide, rfl⟩⟩
  exact ⟨[.step (.event 0 (.opened "a" "digits" "1"))], List.prefix_append _ _, by decide⟩

end Sample

/-- The refusal drops a document that was opened under an enabled language, which is enabled still
and has not failed. -/
theorem Session.refusal_drops_enabled :
    CameBack Sample.parse (create Sample.registry Sample.settings) "digits"
      (.error (.disabled "digits")) Sample.enabling ∧
    ∃ e, e = ((create Sample.registry Sample.settings).run Sample.parse Sample.enabling).engine ∧
      e.isLoading "b" = true ∧ e.registry.isEnabled "digits" = true ∧
      e.registry.get? "digits" = none ∧
      (e.finishLoading Sample.parse "digits" (.error (.disabled "digits")) 4).isLoading "b" =
        false ∧
      (e.finishLoading Sample.parse "digits" (.error (.disabled "digits")) 4).documents.contains
        "b" = false := by
  exact ⟨Sample.cameBack_enabling, _, rfl, by decide, by decide, rfl, by decide, by decide⟩

/-- The refusal is outdated, since the document is dropped and there is no reason to. -/
theorem Session.dropped_without_reason_iff_enabling :
    ∃ e, e = ((create Sample.registry Sample.settings).run Sample.parse Sample.enabling).engine ∧
      e.Drops Sample.parse 4 "digits" (.error (.disabled "digits")) "b" ∧
      ¬ e.registry.GivesUp "digits" ∧
      Outdated Sample.parse (create Sample.registry Sample.settings) "digits"
        (.error (.disabled "digits")) Sample.enabling := by
  have hdrops : ((create Sample.registry Sample.settings).run Sample.parse
      Sample.enabling).engine.Drops Sample.parse 4 "digits" (.error (.disabled "digits")) "b" :=
    ⟨by decide, by decide, rfl⟩
  have hreason : ¬ ((create Sample.registry Sample.settings).run Sample.parse
      Sample.enabling).engine.registry.GivesUp "digits" := by
    rintro (⟨error, hfailed⟩ | hoff)
    · cases hfailed
    · revert hoff
      decide
  have hiff := dropped_without_reason_iff Sample.parse Sample.registry Sample.settings
    Sample.enabling 4 "digits" (.error (.disabled "digits")) "b" rfl Sample.cameBack_enabling
  exact ⟨_, rfl, hdrops, hreason, (hiff.1 ⟨hdrops, hreason⟩).2⟩

end SyntaxHighlight
