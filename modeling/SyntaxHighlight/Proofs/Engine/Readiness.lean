import SyntaxHighlight.Proofs.Engine.Journal
import SyntaxHighlight.Proofs.Engine.Ledger

/-!
# When a language gets ready does not matter

While a language is being loaded its documents wait with their texts; once the registry keeps its
outcome they are tracked as they are opened, and the ones that still wait are tracked when the
outcome is delivered. The journal of the events does not know these phases. In each of them a ledger
amounts to that journal (`Ledger.Serves.journal_act`), and behind the delivery all of it is tracked
(`Session.released_of_getsReady`).
-/

namespace SyntaxHighlight

/-! ### One language -/

namespace Action

def documentEvent? : Action → Option Event
  | .step (.event _ event) => if event.doc?.isSome then some event else none
  | _ => none

/-- An action is at most concerned with one language, which it leaves enabled and does not get
ready: documents are opened under that language only. -/
def Attends (language : LanguageId) : Action → Prop
  | .step (.event _ (.opened _ other _)) => other = language
  | .step (.event _ (.settingsChanged settings)) => settings.enables language = true
  | .step (.finishLoad _ other) => other ≠ language
  | .step (.deliver _ other _) => other ≠ language
  | _ => True

end Action

/-- An action that attends to a language does not change its outcome. -/
theorem Registry.get?_act {a : Action} {language : LanguageId} (ha : a.Attends language)
    (r : Registry) : (r.act a).get? language = r.get? language := by
  cases a with
  | request request => rfl
  | step s =>
    cases s with
    | event now event => cases event <;> rfl
    | startLoad other =>
      rw [act]
      split
      · exact get?_start r other language
      · rfl
    | finishLoad files other => exact get?_finish_of_ne r files (Ne.symm ha)
    | _ => rfl

namespace Ledger

/-- The journal that a ledger amounts to: it makes no difference whether a document waits or is
tracked. -/
def journal (l : Ledger) : Journal where
  texts doc := ((l.loading.find? doc).map (·.text)).or (l.texts doc)
  stale := l.stale

/-- A ledger that has to do with one language only. As long as that has no outcome all documents
wait; no document waits and is tracked. -/
structure Serves (l : Ledger) (language : LanguageId) : Prop where
  enabled : l.registry.isEnabled language = true
  waiting : ∀ doc w, l.loading.find? doc = some w → w.language = language
  apart : ∀ doc w, l.loading.find? doc = some w → l.texts doc = none
  early : l.registry.get? language = none → ∀ doc, l.texts doc = none
  good : ∀ outcome, l.registry.get? language = some outcome → outcome.isOk = true

variable {l : Ledger} {language : LanguageId}

namespace Serves

/-- Whatever happens to the registry, if it keeps the outcome and leaves the language enabled. -/
theorem withRegistry (h : l.Serves language) {r : Registry}
    (hget : r.get? language = l.registry.get? language)
    (henabled : r.isEnabled language = true) : { l with registry := r }.Serves language where
  enabled := henabled
  waiting := h.waiting
  apart := h.apart
  early hnone := h.early (hget ▸ hnone)
  good outcome houtcome := h.good outcome (hget ▸ houtcome)

/-! ### A document is opened -/

theorem journal_opened (h : l.Serves language) (doc : DocumentName) (text : String) :
    (l.opened doc language text).journal = l.journal.note (.opened doc language text) := by
  unfold Ledger.opened
  rw [if_pos h.enabled]
  cases hget : l.registry.get? language with
  | none =>
    refine Journal.ext (funext fun other => ?_) rfl
    by_cases hother : other = doc <;> simp [journal, Journal.note, hother]
  | some outcome =>
    cases outcome with
    | error error => cases h.good _ hget
    | ok loaded =>
      refine Journal.ext (funext fun other => ?_) rfl
      by_cases hother : other = doc <;> simp [journal, Journal.note, hother]

/-- Opening a document under the language leaves a ledger that serves it: the document waits or is
tracked, but not both. -/
theorem opened (h : l.Serves language) (doc : DocumentName) (text : String) :
    (l.opened doc language text).Serves language := by
  unfold Ledger.opened
  rw [if_pos h.enabled]
  cases hget : l.registry.get? language with
  | none =>
    -- The document waits, and as there is no outcome nothing is tracked that waits.
    refine ⟨h.enabled, ?_, fun other w _ => h.early hget other, h.early, h.good⟩
    intro other w hw
    dsimp only at hw
    rw [NameMap.find?_insert] at hw
    split at hw
    · obtain rfl := Option.some.inj hw
      rfl
    · exact h.waiting other w (NameMap.find?_erase_eq_some_iff.1 hw).2
  | some outcome =>
    cases outcome with
    | error error => cases h.good _ hget
    | ok loaded =>
      -- The document is tracked and is taken out of those that wait.
      refine ⟨h.enabled, ?_, ?_, ?_, h.good⟩
      · intro other w hw
        exact h.waiting other w (NameMap.find?_erase_eq_some_iff.1 hw).2
      · intro other w hw
        obtain ⟨hne, hw⟩ := NameMap.find?_erase_eq_some_iff.1 hw
        exact (Function.update_of_ne hne _ _).trans (h.apart other w hw)
      · intro hnone
        rw [hget] at hnone
        cases hnone

/-! ### A document is changed -/

/-- A change is noted alike for a document that waits and for one that is tracked. -/
theorem journal_changed (l : Ledger) (doc : DocumentName) (text : String) (edits : List Edit) :
    (l.changed doc text edits).journal = l.journal.note (.changed doc text edits) := by
  unfold Ledger.changed Journal.note
  dsimp only
  -- The journal does not tell where a document is, but the ledger looks among those that wait
  -- first.
  cases hfind : l.loading.find? doc with
  | some w =>
    have htext : l.journal.texts doc = some w.text := by simp [journal, hfind]
    rw [htext]
    dsimp only
    split
    · rfl
    · refine Journal.ext (funext fun other => ?_) rfl
      by_cases hother : other = doc <;> simp [journal, hother]
  | none =>
    have htext : l.journal.texts doc = l.texts doc := by simp [journal, hfind]
    rw [htext]
    cases l.texts doc with
    | none => rfl
    | some old =>
      dsimp only
      split
      · rfl
      · refine Journal.ext (funext fun other => ?_) rfl
        by_cases hother : other = doc <;> simp [journal, hother, hfind]

theorem changed (h : l.Serves language) (doc : DocumentName) (text : String)
    (edits : List Edit) : (l.changed doc text edits).Serves language := by
  unfold Ledger.changed
  split
  · next w hw =>
    split
    · exact h
    · -- The document goes on waiting, for the same language.
      have hold : ∀ other x, (l.loading.insert doc { w with text }).find? other = some x →
          ∃ y, l.loading.find? other = some y ∧ x.language = y.language := by
        intro other x hx
        rw [NameMap.find?_insert] at hx
        split at hx
        · next heq =>
          obtain rfl := Option.some.inj hx
          exact ⟨w, heq ▸ hw, rfl⟩
        · exact ⟨x, hx, rfl⟩
      refine ⟨h.enabled, ?_, ?_, h.early, h.good⟩
      · intro other x hx
        obtain ⟨y, hy, hlanguage⟩ := hold other x hx
        exact hlanguage.trans (h.waiting other y hy)
      · intro other x hx
        obtain ⟨y, hy, -⟩ := hold other x hx
        exact h.apart other y hy
  · next old hnone hold =>
    split
    · exact h
    · refine ⟨h.enabled, h.waiting, ?_, ?_, h.good⟩
      · intro other x hx
        have hne : other ≠ doc := by
          rintro rfl
          rw [hnone] at hx
          cases hx
        exact (Function.update_of_ne hne _ _).trans (h.apart other x hx)
      · intro hget
        rw [h.early hget doc] at hold
        cases hold
  · exact ⟨h.enabled, h.waiting, h.apart, h.early, h.good⟩

/-! ### A document is closed -/

theorem journal_closed (l : Ledger) (doc : DocumentName) :
    (l.closed doc).journal = l.journal.note (.closed doc) := by
  refine Journal.ext (funext fun other => ?_) ?_
  · by_cases hother : other = doc <;> simp [journal, Journal.note, Ledger.closed, hother]
  · simp [journal, Journal.note, Ledger.closed, NameMap.contains]

/-- Closing a document leaves a ledger that serves the language. -/
theorem closed (h : l.Serves language) (doc : DocumentName) : (l.closed doc).Serves language := by
  refine ⟨h.enabled, ?_, ?_, ?_, h.good⟩
  · intro other w hw
    exact h.waiting other w (NameMap.find?_erase_eq_some_iff.1 hw).2
  · intro other w hw
    obtain ⟨hne, hw⟩ := NameMap.find?_erase_eq_some_iff.1 hw
    exact (Function.update_of_ne hne _ _).trans (h.apart other w hw)
  · intro hget other
    show Function.update l.texts doc none other = none
    rw [Function.update_apply, h.early hget other, ite_self]

/-! ### An outcome is delivered -/

/-- Nobody waits for another language. -/
theorem delivered_of_ne (h : l.Serves language) {other : LanguageId} (hne : other ≠ language)
    (outcome : Outcome) : l.delivered other outcome = l := by
  have htext : ∀ doc, l.textFor? other doc = none := by
    intro doc
    cases hfind : l.loading.find? doc with
    | none => simp [textFor?, hfind]
    | some w =>
      have hw : w.language ≠ other := by
        rw [h.waiting doc w hfind]
        exact hne.symm
      simp [textFor?, hfind, hw]
  refine Ledger.ext rfl (NameMap.ext_find? fun doc => ?_) (funext fun doc => ?_) rfl
  · simp [Ledger.delivered, htext]
  · simp [Ledger.delivered, htext]

/-- The delivery of the language makes no difference to the journal, -/
theorem journal_delivered (h : l.Serves language) {outcome : Outcome} (hok : outcome.isOk = true) :
    (l.delivered language outcome).journal = l.journal := by
  refine Journal.ext (funext fun doc => ?_) rfl
  cases hfind : l.loading.find? doc with
  | none => simp [journal, Ledger.delivered, textFor?, hfind]
  | some w => simp [journal, Ledger.delivered, textFor?, hfind, hok, h.waiting doc w hfind]

/-- and behind it no document waits. -/
theorem find?_delivered (h : l.Serves language) (outcome : Outcome) (doc : DocumentName) :
    (l.delivered language outcome).loading.find? doc = none := by
  cases hfind : l.loading.find? doc with
  | none => simp [Ledger.delivered, hfind]
  | some w => simp [Ledger.delivered, textFor?, hfind, h.waiting doc w hfind]

/-! ### Whatever is done -/

theorem act (h : l.Serves language) {a : Action} (ha : a.Attends language) :
    (l.act a).Serves language := by
  -- Actions that attend to the language do not deliver it, and the work that they do on others
  -- leaves its outcome.
  cases a with
  | request r => exact h
  | step s =>
    cases s with
    | event now event =>
      cases event with
      | opened doc other text =>
        obtain rfl : other = language := ha
        exact h.opened doc text
      | changed doc text edits => exact h.changed doc text edits
      | closed doc => exact h.closed doc
      | visibleEditors editors => exact h
      | settingsChanged settings => exact h.withRegistry rfl ha
    | deliver now other outcome =>
      show (l.delivered other outcome).Serves language
      rw [h.delivered_of_ne ha]
      exact h
    | startLoad other =>
      refine h.withRegistry (Registry.get?_act ha l.registry) ?_
      rw [Registry.act]
      split
      · exact (Registry.isEnabled_start l.registry other language).trans h.enabled
      · exact h.enabled
    | finishLoad files other =>
      exact h.withRegistry (Registry.get?_act ha l.registry)
        ((Registry.isEnabled_finish l.registry files other language).trans h.enabled)
    | takeRequests => exact h
    | fire now => exact h

/-- Only events about documents are seen in the journal. -/
theorem journal_act (h : l.Serves language) {a : Action} (ha : a.Attends language) :
    (l.act a).journal = a.documentEvent?.toList.foldl Journal.note l.journal := by
  -- Only events about documents are noted, and nothing else gives or takes a text.
  cases a with
  | request r => rfl
  | step s =>
    cases s with
    | event now event =>
      cases event with
      | opened doc other text =>
        obtain rfl : other = language := ha
        exact h.journal_opened doc text
      | changed doc text edits => exact journal_changed l doc text edits
      | closed doc => exact journal_closed l doc
      | visibleEditors editors => rfl
      | settingsChanged settings => rfl
    | deliver now other outcome =>
      show (l.delivered other outcome).journal = l.journal
      rw [h.delivered_of_ne ha]
    | _ => rfl

/-- Along actions that attend to the language the ledger serves it, and its journal is that of the
events. -/
theorem foldl_act (h : l.Serves language) {actions : List Action}
    (ha : ∀ a ∈ actions, a.Attends language) :
    (actions.foldl Ledger.act l).Serves language ∧
      (actions.foldl Ledger.act l).journal =
        (actions.filterMap Action.documentEvent?).foldl Journal.note l.journal := by
  induction actions generalizing l with
  | nil => exact ⟨h, rfl⟩
  | cons a rest ih =>
    have hhead := ha a List.mem_cons_self
    obtain ⟨hserves, hjournal⟩ := ih (h.act hhead) fun b hb => ha b (List.mem_cons_of_mem a hb)
    refine ⟨hserves, ?_⟩
    rw [List.foldl_cons, hjournal, h.journal_act hhead]
    cases hevent : a.documentEvent? with
    | none => rw [List.filterMap_cons_none hevent]; rfl
    | some event => rw [List.filterMap_cons_some hevent]; rfl

end Serves

/-- The outcome of a language does not change while it is only attended to. -/
theorem get?_foldl_act {actions : List Action} (ha : ∀ a ∈ actions, a.Attends language) :
    (actions.foldl act l).registry.get? language = l.registry.get? language := by
  induction actions generalizing l with
  | nil => rfl
  | cons a rest ih =>
    rw [List.foldl_cons, ih fun b hb => ha b (List.mem_cons_of_mem a hb), registry_act,
      Registry.get?_act (ha a List.mem_cons_self)]

/-- The outcome of the language was delivered, so that no document waits any more. -/
structure Released (l : Ledger) (language : LanguageId) : Prop extends l.Serves language where
  ready : (l.registry.get? language).isSome = true
  empty : ∀ doc, l.loading.find? doc = none

namespace Released

/-- From then on documents are tracked as they are opened. -/
theorem act (h : l.Released language) {a : Action} (ha : a.Attends language) :
    (l.act a).Released language := by
  have hserves := h.toServes.act ha
  have hready : ((l.act a).registry.get? language).isSome = true := by
    rw [registry_act, Registry.get?_act ha]
    exact h.ready
  refine ⟨hserves, hready, ?_⟩
  intro doc
  -- Since the language is ready, a document that is opened does not wait.
  cases a with
  | request r => exact h.empty doc
  | step s =>
    cases s with
    | event now event =>
      cases event with
      | opened other id text =>
        obtain rfl : id = language := ha
        obtain ⟨outcome, houtcome⟩ := Option.isSome_iff_exists.1 h.ready
        show (l.opened other id text).loading.find? doc = none
        unfold opened
        rw [if_pos h.enabled, houtcome]
        cases outcome <;> simp [h.empty]
      | changed other text edits =>
        show (l.changed other text edits).loading.find? doc = none
        unfold changed
        rw [h.empty other]
        split
        · next hsome => cases hsome
        · split <;> exact h.empty doc
        · exact h.empty doc
      | closed other =>
        show (l.loading.erase other).find? doc = none
        rw [NameMap.find?_erase, h.empty, ite_self]
      | visibleEditors editors => exact h.empty doc
      | settingsChanged settings => exact h.empty doc
    | deliver now other outcome =>
      show (l.delivered other outcome).loading.find? doc = none
      rw [h.delivered_of_ne ha]
      exact h.empty doc
    | _ => exact h.empty doc

/-- Once a language is released it stays so. -/
theorem foldl_act (h : l.Released language) {actions : List Action}
    (ha : ∀ a ∈ actions, a.Attends language) :
    (actions.foldl Ledger.act l).Released language := by
  induction actions generalizing l with
  | nil => exact h
  | cons a rest ih =>
    exact ih (h.act (ha a List.mem_cons_self)) fun b hb => ha b (List.mem_cons_of_mem a hb)

/-- What is tracked is then all there is in the journal. -/
theorem texts_journal (h : l.Released language) : l.journal.texts = l.texts := by
  funext doc
  simp [journal, h.empty]

end Released

/-- The end of the work on the language, if it has a good outcome, makes no other difference. -/
theorem Serves.finished (h : l.Serves language) {files : FileTree} {loaded : Language}
    (hkept : (l.registry.finish files language).get? language = some (.ok loaded)) :
    { l with registry := l.registry.finish files language }.Serves language := by
  refine ⟨?_, h.waiting, h.apart, ?_, ?_⟩
  · exact (Registry.isEnabled_finish l.registry files language language).trans h.enabled
  · intro hnone
    rw [hkept] at hnone
    cases hnone
  · intro outcome houtcome
    rw [hkept] at houtcome
    obtain rfl := Option.some.inj houtcome
    rfl

/-- The delivery of a good outcome releases the language. -/
theorem Serves.released (h : l.Serves language) {loaded : Language}
    (hkept : l.registry.get? language = some (.ok loaded)) :
    (l.delivered language (.ok loaded)).Released language := by
  -- All documents wait for this language, so none waits behind the delivery.
  have hempty := h.find?_delivered (.ok loaded)
  have hnot : ∀ doc w, (l.delivered language (.ok loaded)).loading.find? doc ≠ some w := by
    intro doc w hw
    rw [hempty doc] at hw
    cases hw
  constructor
  case toServes =>
    refine ⟨h.enabled, fun doc w hw => absurd hw (hnot doc w),
      fun doc w hw => absurd hw (hnot doc w), ?_, h.good⟩
    intro hnone
    have hnone : l.registry.get? language = none := hnone
    rw [hkept] at hnone
    cases hnone
  case ready => exact Option.isSome_iff_exists.2 ⟨_, hkept⟩
  case empty => exact hempty

end Ledger

namespace Session

/-- Actions in the course of which one language gets ready. Documents are opened under that language
only, which stays enabled. The registry comes to keep its outcome, a good one, and that is delivered
later. -/
inductive GetsReady (parse : Parse) (start : Session) (language : LanguageId) :
    List Action → Prop where
  | intro {before between after : List Action} (files : FileTree) (now : Nat) {loaded : Language}
      (henabled : start.engine.registry.isEnabled language = true)
      (hbefore : ∀ a ∈ before, a.Attends language)
      (hkept : (start.run parse
        (before ++ [.step (.finishLoad files language)])).engine.registry.get? language =
          some (.ok loaded))
      (hbetween : ∀ a ∈ between, a.Attends language)
      (hafter : ∀ a ∈ after, a.Attends language) :
    GetsReady parse start language (before ++ .step (.finishLoad files language) ::
      (between ++ .step (.deliver now language (.ok loaded)) :: after))

variable {parse : Parse} {registry : Registry} {settings : Settings} {language : LanguageId}

/-- An engine that has seen no event serves any language that is enabled and has not failed. -/
theorem serves_create
    (henabled : (create registry settings).engine.registry.isEnabled language = true)
    (hgood : ∀ outcome, registry.get? language = some outcome → outcome.isOk = true) :
    (create registry settings).engine.ledger.Serves language where
  enabled := henabled
  waiting doc w hw := by cases hw
  apart doc w hw := by cases hw
  early _ doc := rfl
  good := hgood

/-- Once a language got ready no document waits, and the ledger agrees with the journal of the
events. -/
theorem released_of_getsReady {actions : List Action}
    (h : GetsReady parse (create registry settings) language actions) :
    ((create registry settings).run parse actions).engine.ledger.Released language ∧
      ((create registry settings).run parse actions).engine.ledger.journal =
        (actions.filterMap Action.documentEvent?).foldl Journal.note .empty := by
  cases h with
  | @intro before between after files now loaded henabled hbefore hkept hbetween hafter =>
    rw [ledger_run]
    have hcached : ((create registry settings).run parse
        (before ++ [.step (.finishLoad files language)])).engine.ledger.registry.get? language =
        some (.ok loaded) := hkept
    rw [ledger_run, List.foldl_append] at hcached
    -- The registry has no other outcome to begin with, since it would have kept it.
    have hgood : ∀ outcome, registry.get? language = some outcome → outcome.isOk = true := by
      intro outcome houtcome
      have hbegin : (before.foldl Ledger.act (create registry settings).engine.ledger).registry.get?
          language = some outcome := (Ledger.get?_foldl_act hbefore).trans houtcome
      have hkeeps := Registry.keeps_finish _ files language language outcome hbegin
      obtain rfl := Option.some.inj (hkeeps.symm.trans hcached)
      rfl
    obtain ⟨hserves, hjournal⟩ := (serves_create henabled hgood).foldl_act hbefore
    have hfinished := hserves.finished hcached
    obtain ⟨hserves', hjournal'⟩ := hfinished.foldl_act hbetween
    have hkept' := (Ledger.get?_foldl_act hbetween).trans hcached
    have hreleased := hserves'.released hkept'
    obtain ⟨-, hjournal''⟩ := hreleased.toServes.foldl_act hafter
    rw [List.foldl_append, List.foldl_cons, List.foldl_append, List.foldl_cons]
    refine ⟨hreleased.foldl_act hafter, ?_⟩
    refine hjournal''.trans ?_
    rw [hserves'.journal_delivered rfl, hjournal', List.filterMap_append, List.foldl_append,
      List.filterMap_cons_none rfl, List.filterMap_append, List.foldl_append,
      List.filterMap_cons_none rfl]
    exact congrArg (fun j => (after.filterMap Action.documentEvent?).foldl Journal.note
      ((between.filterMap Action.documentEvent?).foldl Journal.note j)) hjournal

/-- **It makes no difference when a language gets ready.** Take two runs of a fresh engine with the
same events about documents, all of them opened under one language, and let that get ready at any
moment of each. Then no document waits in the end, and the two engines track the same documents with
the same texts, which are those that the events leave, and have counted the same number of events
about documents that were not there. -/
theorem agree_whenever_ready (parse : Parse) (registry : Registry) (settings : Settings)
    (language : LanguageId) {actions actions' : List Action}
    (h : GetsReady parse (create registry settings) language actions)
    (h' : GetsReady parse (create registry settings) language actions')
    {events : List Event} (hevents : actions.filterMap Action.documentEvent? = events)
    (hevents' : actions'.filterMap Action.documentEvent? = events) {e e' : Engine}
    (he : e = ((create registry settings).run parse actions).engine)
    (he' : e' = ((create registry settings).run parse actions').engine) :
    (∀ doc, e.isLoading doc = false ∧ e'.isLoading doc = false) ∧
    (∀ doc, e.documents.contains doc = e'.documents.contains doc) ∧
    (∀ doc text, (e.documents.get? doc).map (·.text) = some text ↔ Event.Leave events doc text) ∧
    (∀ doc text, (e'.documents.get? doc).map (·.text) = some text ↔ Event.Leave events doc text) ∧
    e.stats.staleEvents = e'.stats.staleEvents := by
  subst he he' hevents
  -- Behind both runs no document waits, so that the journals tell the texts; and these are those of
  -- the same events.
  obtain ⟨hreleased, hjournal⟩ := released_of_getsReady h
  obtain ⟨hreleased', hjournal'⟩ := released_of_getsReady h'
  rw [hevents'] at hjournal'
  have htexts := hreleased.texts_journal.symm.trans (congrArg Journal.texts hjournal)
  have htexts' := hreleased'.texts_journal.symm.trans (congrArg Journal.texts hjournal')
  refine ⟨fun doc => ⟨?_, ?_⟩, fun doc => ?_, fun doc text => ?_, fun doc text => ?_, ?_⟩
  · exact Option.isSome_eq_false_iff.2 (Option.isNone_iff_eq_none.2 (hreleased.empty doc))
  · exact Option.isSome_eq_false_iff.2 (Option.isNone_iff_eq_none.2 (hreleased'.empty doc))
  · have hsame := congrArg Option.isSome (congrFun (htexts.trans htexts'.symm) doc)
    exact Option.isSome_map.symm.trans (hsame.trans Option.isSome_map)
  · rw [← Journal.texts_foldl_iff, ← congrFun htexts doc]
    rfl
  · rw [← Journal.texts_foldl_iff, ← congrFun htexts' doc]
    rfl
  · exact congrArg Journal.stale (hjournal.trans hjournal'.symm)

end Session

namespace Sample

open Json5 in
theorem tokens_braces : tokens ['\x7b', '\x7d'] = some [.leftBrace, .rightBrace] := by
  have hend : tokens [] = some [] := by
    have hblanks : skipBlanks [] = [] := by rw [skipBlanks.eq_def]
    rw [tokens, hblanks]
    simp [token?]
  have hright : tokens ['\x7d'] = some [.rightBrace] := by
    have hblanks : skipBlanks ['\x7d'] = ['\x7d'] := by rw [skipBlanks.eq_def]; rfl
    rw [tokens, hblanks]
    simp [token?, hend]
  have hblanks : skipBlanks ['\x7b', '\x7d'] = ['\x7b', '\x7d'] := by rw [skipBlanks.eq_def]; rfl
  rw [tokens, hblanks]
  simp [token?, hright]

open Json5 in
theorem parse_braces (id : LanguageId) :
    Grammar.parse id "\x7b\x7d" = .ok ⟨id, .empty, .empty, {}⟩ := by
  have hvalue : Value.parse "\x7b\x7d" = some (.object []) := by
    rw [Value.parse, show "\x7b\x7d".toList = ['\x7b', '\x7d'] from rfl, tokens_braces]
    simp [readValue, readMembers]
  rw [Grammar.parse, Rules.parse, hvalue]
  rfl

def stocked : Registry :=
  registry.register "digits" ⟨.builtin ⟨"digits", newestVersion⟩, some "\x7b\x7d"⟩

def plain : Language where
  id := "digits"
  grammar := ⟨"digits", .empty, .empty, {}⟩
  linked := ⟨⟨"digits", newestVersion⟩, false⟩

theorem prepare_digits {r : Registry} (h : r.builtins = stocked.builtins) (files : FileTree) :
    r.prepare files "digits" = .ok plain := by
  have hbuiltin : r.builtins.find? "digits" =
      some ⟨.builtin ⟨"digits", newestVersion⟩, some "\x7b\x7d"⟩ := by
    rw [h]
    decide
  have hrules : r.builtinRules? "digits" = some "\x7b\x7d" := by
    rw [Registry.builtinRules?, hbuiltin]
    rfl
  rw [Registry.prepare, hrules, hbuiltin]
  dsimp only
  rw [parse_braces]
  rfl

/-- Two documents are opened and one of them is changed; a third one is closed that is not open. -/
def host : List Event :=
  [.opened "a" "digits" "1", .changed "a" "12" [⟨1, 1, 2, ⟨0, 1⟩, ⟨0, 1⟩, ⟨0, 2⟩⟩],
    .opened "b" "digits" "3", .closed "c"]

def started (k : Nat) : List Action :=
  (host.take k).map (.step ∘ .event 0) ++ [.step .takeRequests, .step (.startLoad "digits")]

/-- The work ends there, and is reported after some more events. -/
def reported (k m : Nat) : List Action :=
  started k ++ .step (.finishLoad (.empty "/") "digits") ::
    (((host.drop k).take m).map (.step ∘ .event 0) ++ .step (.deliver 0 "digits" (.ok plain)) ::
      ((host.drop k).drop m).map (.step ∘ .event 0))

theorem getsReady_reported {k : Nat} (m : Nat) {r : Registry}
    (hr : r = ((Session.create stocked settings).run parse (started k)).engine.registry)
    (hrunning : r.progress.find? "digits" = some .running)
    (hbuiltins : r.builtins = stocked.builtins) :
    Session.GetsReady parse (.create stocked settings) "digits" (reported k m) := by
  have hhost : ∀ event ∈ host, (Action.step (.event 0 event)).Attends "digits" := by
    simp [host, Action.Attends]
  have hpart : ∀ part : List Event, part ⊆ host →
      ∀ a ∈ part.map (Action.step ∘ .event 0), a.Attends "digits" := by
    intro part hsub a ha
    obtain ⟨event, hevent, rfl⟩ := List.mem_map.1 ha
    exact hhost event (hsub hevent)
  -- The parts of the events stand in front of the work, between its end and the report, and behind
  -- that.
  refine .intro (.empty "/") 0 (by decide) ?_ ?_ ?_ ?_
  · intro a ha
    rcases List.mem_append.1 ha with ha | ha
    · exact hpart _ (List.take_subset k host) a ha
    · simp only [List.mem_cons, List.not_mem_nil, or_false] at ha
      rcases ha with rfl | rfl <;> trivial
  · rw [Session.run_concat]
    show (Registry.finish _ (.empty "/") "digits").get? "digits" = some (.ok plain)
    rw [← hr, Registry.get?_finish_of_running hrunning, prepare_digits hbuiltins]
  · exact hpart _ (List.Subset.trans (List.take_subset _ _) (List.drop_subset _ _))
  · exact hpart _ (List.Subset.trans (List.drop_subset _ _) (List.drop_subset _ _))

end Sample

/-- The change comes between the end of the work and its report, or long before them. -/
theorem Session.agree_whenever_ready_reported :
    ∃ e e', e = ((create Sample.stocked Sample.settings).run Sample.parse
        (Sample.reported 1 1)).engine ∧
      e' = ((create Sample.stocked Sample.settings).run Sample.parse
        (Sample.reported 4 0)).engine ∧
      (∀ doc, e.isLoading doc = false ∧ e'.isLoading doc = false) ∧
      (e.documents.get? "a").map (·.text) = some "12" ∧
      (e'.documents.get? "a").map (·.text) = some "12" ∧
      e.stats.staleEvents = e'.stats.staleEvents := by
  have hfirst := Sample.getsReady_reported (k := 1) 1 rfl rfl rfl
  have hlast := Sample.getsReady_reported (k := 4) 0 rfl rfl rfl
  obtain ⟨hloading, -, hearly, hlate, hstale⟩ :=
    agree_whenever_ready Sample.parse Sample.stocked Sample.settings "digits" hfirst hlast
      rfl rfl rfl rfl
  have hleave : Event.Leave Sample.host "a" "12" :=
    ⟨[], "digits", "1", _, rfl, by decide, rfl⟩
  exact ⟨_, _, rfl, rfl, hloading, (hearly "a" "12").2 hleave, (hlate "a" "12").2 hleave, hstale⟩

end SyntaxHighlight
