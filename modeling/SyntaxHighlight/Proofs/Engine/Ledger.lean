import SyntaxHighlight.Proofs.Engine.Intake

/-!
# Texts that wait and texts that are tracked

What an engine knows of its documents apart from highlights is its `Ledger`: the registry, the
documents that wait with their texts, the texts of those that are tracked, and the number of events
about documents that are neither. It runs by itself (`Engine.ledger_act`): what an action does to
the ledger depends on nothing else, neither on parsing nor on editors, stages or times.
-/

namespace SyntaxHighlight

namespace Registry

/-- The registry after an action: only settings and loads have to do with it. -/
def act (r : Registry) : Action → Registry
  | .step (.event _ (.settingsChanged settings)) => r.setEnabled settings.languages
  | .step (.startLoad language) => if r.isEnabled language then r.start language else r
  | .step (.finishLoad files language) => r.finish files language
  | _ => r

theorem isEnabled_start (r : Registry) (id other : LanguageId) :
    (r.start id).isEnabled other = r.isEnabled other := by
  unfold start
  split <;> rfl

theorem isEnabled_finish (r : Registry) (files : FileTree) (id other : LanguageId) :
    (r.finish files id).isEnabled other = r.isEnabled other := by
  unfold finish
  split <;> rfl

/-- A start gives no outcome yet. -/
theorem get?_start (r : Registry) (id other : LanguageId) :
    (r.start id).get? other = r.get? other := by
  unfold start
  split
  · rfl
  · next hnew =>
    rw [NameMap.contains, Bool.not_eq_true, Option.isSome_eq_false_iff,
      Option.isNone_iff_eq_none] at hnew
    unfold get?
    rw [NameMap.find?_insert]
    by_cases heq : other = id
    · rw [if_pos heq, heq, hnew]
    · rw [if_neg heq]

/-- The end of a work that is going on gives the outcome that it prepared. -/
theorem get?_finish_of_running {r : Registry} {id : LanguageId}
    (h : r.progress.find? id = some .running) (files : FileTree) :
    (r.finish files id).get? id = some (r.prepare files id) := by
  unfold finish
  rw [h]
  simp [get?]

theorem get?_finish_of_ne (r : Registry) (files : FileTree) {id other : LanguageId}
    (hne : other ≠ id) : (r.finish files id).get? other = r.get? other := by
  unfold finish
  split
  · unfold get?
    rw [NameMap.find?_insert, if_neg hne]
  · rfl

end Registry

/-- The part of an engine that decides which documents it has, and with which texts. -/
@[ext]
structure Ledger where
  registry : Registry
  loading : NameMap Waiting
  /-- The texts of the documents that are tracked. -/
  texts : DocumentName → Option String
  /-- The number of events about documents that are not tracked. -/
  stale : Nat

def Engine.ledger (e : Engine) : Ledger where
  registry := e.registry
  loading := e.loading
  texts doc := (e.documents.get? doc).map (·.text)
  stale := e.stats.staleEvents

namespace Ledger

/-- A document is opened: it is tracked, or waits, or is given up if its language failed. -/
def opened (l : Ledger) (doc : DocumentName) (language : LanguageId) (text : String) : Ledger :=
  if l.registry.isEnabled language then
    let l' := { l with loading := l.loading.erase doc }
    match l.registry.get? language with
    | some (.ok _) => { l' with texts := Function.update l.texts doc (some text) }
    | some (.error _) => l'
    | none => { l' with loading := l'.loading.insert doc ⟨language, text⟩ }
  else l

/-- A document that waits or is tracked has another text, unless there were no edits. -/
def changed (l : Ledger) (doc : DocumentName) (text : String) (edits : List Edit) : Ledger :=
  match l.loading.find? doc, l.texts doc with
  | some waiting, _ =>
    if edits.isEmpty then l else { l with loading := l.loading.insert doc { waiting with text } }
  | none, some _ =>
    if edits.isEmpty then l else { l with texts := Function.update l.texts doc (some text) }
  | none, none => { l with stale := l.stale + 1 }

def closed (l : Ledger) (doc : DocumentName) : Ledger :=
  { l with
    loading := l.loading.erase doc
    texts := Function.update l.texts doc none
    stale := if l.loading.contains doc || (l.texts doc).isSome then l.stale else l.stale + 1 }

def textFor? (l : Ledger) (language : LanguageId) (doc : DocumentName) : Option String :=
  ((l.loading.find? doc).filter (·.language = language)).map (·.text)

/-- The outcome of a language is delivered. If it is good, the documents that wait for it are
tracked with the texts they have by then. -/
def delivered (l : Ledger) (language : LanguageId) (outcome : Outcome) : Ledger :=
  { l with
    loading := l.loading.filter fun doc => (l.textFor? language doc).isNone
    texts := fun doc =>
      if outcome.isOk then (l.textFor? language doc).or (l.texts doc) else l.texts doc }

def act (l : Ledger) : Action → Ledger
  | .step (.event _ (.opened doc language text)) => l.opened doc language text
  | .step (.event _ (.changed doc text edits)) => l.changed doc text edits
  | .step (.event _ (.closed doc)) => l.closed doc
  | .step (.deliver _ language outcome) => l.delivered language outcome
  | a => { l with registry := l.registry.act a }

theorem registry_opened (l : Ledger) (doc : DocumentName) (language : LanguageId)
    (text : String) : (l.opened doc language text).registry = l.registry := by
  unfold opened
  split
  · dsimp only
    split <;> rfl
  · rfl

theorem registry_changed (l : Ledger) (doc : DocumentName) (text : String) (edits : List Edit) :
    (l.changed doc text edits).registry = l.registry := by
  unfold changed
  split
  · split <;> rfl
  · split <;> rfl
  · rfl

/-- Documents have no part in what becomes of the registry. -/
theorem registry_act (l : Ledger) (a : Action) : (l.act a).registry = l.registry.act a := by
  cases a with
  | request r => rfl
  | step s =>
    cases s with
    | event now event =>
      cases event with
      | opened doc language text => exact registry_opened l doc language text
      | changed doc text edits => exact registry_changed l doc text edits
      | _ => rfl
    | _ => rfl

end Ledger

namespace Engine

variable (parse : Parse)

/-! ### Events -/

theorem ledger_track (e : Engine) (doc : DocumentName) (language : Language) (text : String)
    (now : Nat) :
    (e.track parse doc language text now).ledger =
      { e.ledger with texts := Function.update e.ledger.texts doc (some text) } := by
  have htexts : (fun other => ((e.documents.track parse doc language text).get? other).map
      (·.text)) = Function.update e.ledger.texts doc (some text) := by
    funext other
    rw [Documents.get?_track, Function.update_apply]
    split <;> rfl
  rw [← htexts]
  unfold track
  dsimp only
  split <;> rfl

/-- Opening a document does to the ledger what `Ledger.opened` says. -/
theorem ledger_openDocument (e : Engine) (doc : DocumentName) (language : LanguageId)
    (text : String) (now : Nat) :
    (e.openDocument parse doc language text now).ledger = e.ledger.opened doc language text := by
  have hregistry : e.ledger.registry = e.registry := rfl
  unfold openDocument Ledger.opened
  rw [hregistry]
  split
  · cases e.registry.get? language with
    | none => rfl
    | some outcome =>
      cases outcome with
      | error _ => rfl
      | ok loaded =>
        exact ledger_track parse { e with loading := e.loading.erase doc } doc loaded text now
  · rfl

theorem ledger_changeDocument (e : Engine) (doc : DocumentName) (text : String)
    (edits : List Edit) (now : Nat) :
    (e.changeDocument parse doc text edits now).ledger = e.ledger.changed doc text edits := by
  have hloading : e.ledger.loading = e.loading := rfl
  have htext : e.ledger.texts doc = (e.documents.get? doc).map (·.text) := rfl
  unfold changeDocument Ledger.changed
  rw [hloading, htext]
  -- The text goes to where the document is: among those that wait, or among those that are tracked.
  cases e.loading.find? doc with
  | some waiting =>
    dsimp only
    split <;> rfl
  | none =>
    cases hd : e.documents.get? doc with
    | none =>
      rw [Documents.edit_of_none hd]
      rfl
    | some d =>
      cases edits with
      | nil =>
        rw [Documents.edit_nil hd]
        rfl
      | cons edit edits =>
        rw [Documents.edit_cons hd]
        exact ledger_track parse e doc d.language text now

theorem ledger_closeDocument (e : Engine) (doc : DocumentName) :
    (e.closeDocument doc).ledger = e.ledger.closed doc := by
  have htexts : (fun other => ((e.documents.close doc).2.get? other).map (·.text)) =
      Function.update e.ledger.texts doc none := by
    funext other
    rw [Documents.get?_close, Function.update_apply]
    split <;> rfl
  have hknown : (e.isLoading doc || (e.documents.close doc).1) =
      (e.ledger.loading.contains doc || (e.ledger.texts doc).isSome) := by
    show (e.isLoading doc || e.documents.contains doc) =
      (e.isLoading doc || ((e.documents.get? doc).map (·.text)).isSome)
    rw [Option.isSome_map, Documents.contains_eq_isSome]
  unfold closeDocument Ledger.closed
  dsimp only
  rw [← htexts, ← hknown]
  split <;> rfl

theorem ledger_setVisible (e : Engine) (editors : List Editor) (now : Nat) :
    (e.setVisible editors now).ledger = e.ledger := by
  unfold setVisible
  split
  · rfl
  · dsimp only
    split <;> rfl

theorem ledger_setSettings (e : Engine) (settings : Settings) (now : Nat) :
    (e.setSettings settings now).ledger =
      { e.ledger with registry := e.registry.setEnabled settings.languages } := by
  unfold setSettings
  dsimp only
  split
  · rfl
  · split <;> rfl

/-! ### Deliveries -/

/-- The documents that a delivery goes through are those that wait for the language, with their
texts. -/
theorem mem_waitingFor_iff {e : Engine} {language : LanguageId} {doc : DocumentName}
    {text : String} :
    (doc, text) ∈ e.waitingFor language ↔ e.ledger.textFor? language doc = some text := by
  have hloading : e.ledger.loading = e.loading := rfl
  unfold waitingFor Ledger.textFor?
  rw [hloading, List.mem_filterMap, Option.map_eq_some_iff]
  constructor
  · rintro ⟨⟨name, w⟩, hentry, hsome⟩
    dsimp only at hsome
    split at hsome
    · next hlanguage =>
      obtain ⟨rfl, rfl⟩ := Prod.mk.inj (Option.some.inj hsome)
      refine ⟨w, ?_, rfl⟩
      rw [NameMap.mem_entries_iff.1 hentry, Option.filter_some, if_pos (by simpa using hlanguage)]
    · cases hsome
  · rintro ⟨w, hw, rfl⟩
    obtain ⟨hfind, hlanguage⟩ := Option.filter_eq_some_iff.1 hw
    refine ⟨(doc, w), NameMap.mem_entries_iff.2 hfind, ?_⟩
    exact if_pos (by simpa using hlanguage)

/-- Tracking documents one by one gives a document the text that it has in the list. -/
theorem texts_releaseAll (waiting : List (DocumentName × String)) (language : Language)
    (now : Nat) (e : Engine) {doc : DocumentName} (text : String)
    (hsame : ∀ other, (doc, other) ∈ waiting → other = text) :
    (waiting.foldl (release parse language now) e).ledger.texts doc =
      if doc ∈ waiting.map (·.1) then some text else e.ledger.texts doc := by
  induction waiting generalizing e with
  | nil => rfl
  | cons w rest ih =>
    have hhead : (release parse language now e w).ledger.texts =
        Function.update e.ledger.texts w.1 (some w.2) := by
      unfold release
      rw [ledger_track]
      rfl
    rw [List.foldl_cons, ih _ fun other hother => hsame other (List.mem_cons_of_mem w hother),
      hhead, Function.update_apply]
    by_cases hdoc : doc = w.1
    · have hw : w.2 = text := hsame w.2 (by rw [hdoc]; exact List.mem_cons_self)
      simp [hdoc, hw]
    · simp only [hdoc, List.map_cons, List.mem_cons, false_or, if_false]

/-- A good outcome gives the documents that waited for it their texts, and leaves the others. -/
theorem texts_finishLoading_ok (e : Engine) (language : LanguageId) (loaded : Language)
    (now : Nat) (doc : DocumentName) :
    (e.finishLoading parse language (.ok loaded) now).ledger.texts doc =
      (e.ledger.textFor? language doc).or (e.ledger.texts doc) := by
  have hkeys : doc ∈ (e.waitingFor language).map (·.1) ↔
      (e.ledger.textFor? language doc).isSome = true := by
    rw [List.mem_map, Option.isSome_iff_exists]
    constructor
    · rintro ⟨⟨_, text⟩, hmem, rfl⟩
      exact ⟨text, mem_waitingFor_iff.1 hmem⟩
    · rintro ⟨text, htext⟩
      exact ⟨(doc, text), mem_waitingFor_iff.2 htext, rfl⟩
  show ((e.waitingFor language).foldl (release parse loaded now) e).ledger.texts doc = _
  -- All releases of one document would give it the same text, so their order does not matter.
  cases htext : e.ledger.textFor? language doc with
  | none =>
    rw [texts_releaseAll parse _ loaded now e "" ?_, if_neg (by simp [hkeys, htext])]
    · rfl
    · intro other hother
      rw [mem_waitingFor_iff, htext] at hother
      cases hother
  | some text =>
    rw [texts_releaseAll parse _ loaded now e text ?_, if_pos (by simp [hkeys, htext])]
    · rfl
    · intro other hother
      rw [mem_waitingFor_iff, htext] at hother
      exact (Option.some.inj hother).symm

/-- Reporting the outcome of a language counts no event. -/
theorem staleEvents_finishLoading (e : Engine) (language : LanguageId) (outcome : Outcome)
    (now : Nat) :
    (e.finishLoading parse language outcome now).stats.staleEvents = e.stats.staleEvents := by
  cases outcome with
  | error error => rfl
  | ok loaded =>
    show ((e.waitingFor language).foldl (release parse loaded now) e).ledger.stale = e.ledger.stale
    generalize e.waitingFor language = waiting
    induction waiting generalizing e with
    | nil => rfl
    | cons w rest ih =>
      rw [List.foldl_cons, ih]
      unfold release
      rw [ledger_track]
      rfl

/-- A delivery does to the ledger what `Ledger.delivered` says. -/
theorem ledger_finishLoading (e : Engine) (language : LanguageId) (outcome : Outcome)
    (now : Nat) :
    (e.finishLoading parse language outcome now).ledger = e.ledger.delivered language outcome := by
  have hintake := intake_finishLoading parse e language outcome now
  refine Ledger.ext (congrArg Intake.registry hintake) ?_ ?_
    (staleEvents_finishLoading parse e language outcome now)
  · -- Whoever has no text that waits for the language goes on waiting.
    refine (congrArg Intake.loading hintake).trans ?_
    show (e.loading.filter fun doc => !e.intake.waits language doc) =
      e.loading.filter fun doc => (e.ledger.textFor? language doc).isNone
    congr 1
    funext doc
    rw [Ledger.textFor?, Option.isNone_map, Intake.waits]
    show (!(e.loading.find? doc).any _) = ((e.loading.find? doc).filter _).isNone
    cases e.loading.find? doc with
    | none => rfl
    | some w => by_cases hw : w.language = language <;> simp [hw]
  · funext doc
    cases outcome with
    | ok loaded => exact texts_finishLoading_ok parse e language loaded now doc
    | error error => rfl

/-! ### Stages and requests -/

theorem text_get?_build (ds : Documents) (doc other : DocumentName) (legend : Legend) :
    ((ds.build doc legend).2.get? other).map (·.text) = (ds.get? other).map (·.text) := by
  rw [Documents.get?_build]
  split
  · next heq =>
    rw [heq, Option.map_map]
    congr 1
    funext d
    exact d.text_build legend
  · rfl

theorem text_get?_buildAll (ds : Documents) (legend : Legend) (docs : List DocumentName)
    (other : DocumentName) :
    ((buildAll ds legend docs).get? other).map (·.text) = (ds.get? other).map (·.text) := by
  induction docs generalizing ds with
  | nil => rfl
  | cons doc rest ih =>
    show ((buildAll (ds.build doc legend).2 legend rest).get? other).map (·.text) = _
    rw [ih, text_get?_build]

/-- A rebuild makes highlights and changes no text. -/
theorem ledger_fireRebuild (e : Engine) (now : Nat) : (e.fireRebuild now).ledger = e.ledger := by
  have hrebuild : ∀ e : Engine, (e.rebuild now).ledger = e.ledger := by
    intro e
    have htexts : (fun other => ((buildAll e.documents e.legend e.dirtyVisible).get? other).map
        (·.text)) = e.ledger.texts := by
      funext other
      exact text_get?_buildAll e.documents e.legend e.dirtyVisible other
    have hsame : e.ledger = { e.ledger with texts := e.ledger.texts } := rfl
    rw [hsame, ← htexts]
    unfold rebuild
    dsimp only
    split <;> rfl
  unfold fireRebuild
  dsimp only
  split
  · rw [hrebuild]
    rfl
  · rfl

theorem ledger_fireRefresh (e : Engine) (now : Nat) : (e.fireRefresh now).2.ledger = e.ledger := by
  unfold fireRefresh
  dsimp only
  split <;> rfl

theorem ledger_answer (e : Engine) (r : Request) : (e.answer r).ledger = e.ledger := by
  rw [answer_eq]
  refine Ledger.ext rfl rfl ?_ rfl
  funext other
  exact text_get?_build e.documents r.doc other e.legend

/-- The ledger runs by itself. -/
theorem ledger_act (e : Engine) (a : Action) : (e.act parse a).2.ledger = e.ledger.act a := by
  -- Requests and firings change no text; every other action has its counterpart.
  cases a with
  | request r => exact ledger_answer e r
  | step s =>
    cases s with
    | event now event =>
      cases event with
      | opened doc language text => exact ledger_openDocument parse e doc language text now
      | changed doc text edits => exact ledger_changeDocument parse e doc text edits now
      | closed doc => exact ledger_closeDocument e doc
      | visibleEditors editors => exact ledger_setVisible e editors now
      | settingsChanged settings => exact ledger_setSettings e settings now
    | takeRequests => rfl
    | startLoad language => rfl
    | finishLoad files language => rfl
    | deliver now language outcome => exact ledger_finishLoading parse e language outcome now
    | fire now => exact (ledger_fireRefresh _ now).trans (ledger_fireRebuild e now)

end Engine

/-- So it does along a run. -/
theorem Session.ledger_run (parse : Parse) (s : Session) (actions : List Action) :
    (s.run parse actions).engine.ledger = actions.foldl Ledger.act s.engine.ledger := by
  induction actions generalizing s with
  | nil => rfl
  | cons a rest ih =>
    show ((s.act parse a).run parse rest).engine.ledger = rest.foldl Ledger.act _
    rw [ih]
    exact congrArg (rest.foldl Ledger.act) (Engine.ledger_act parse s.engine a)

end SyntaxHighlight
