import SyntaxHighlight.Document
import SyntaxHighlight.Language.Registry
import SyntaxHighlight.Settings.Basic
import SyntaxHighlight.Timer
import SyntaxHighlight.Token

/-!
# The highlighting engine

The engine tracks documents, keeps their highlights up to date for the editors that are visible,
and answers requests for highlights. Events come from a host; two stages of work follow them at
some distance:

    rebuild   highlight every visible document whose highlights are out of date
    refresh   push buckets to every visible editor whose document waits for it

A document whose language is not ready waits with its latest text until the host reports the outcome
of loading the language.

Every operation is a function from engine to engine. What an operation asks the host to do is part
of its result: the languages to load, and the buckets to push.
-/

namespace SyntaxHighlight

/-- An editor on screen and the document it shows. Several editors may show one document. -/
structure Editor where
  id : Nat
  doc : DocumentName
deriving DecidableEq, Repr

def Editor.name (e : Editor) : String := "editor#" ++ e.id.repr

inductive Event where
  | opened (doc : DocumentName) (language : LanguageId) (text : String)
  /-- The text is what the document holds after all edits. -/
  | changed (doc : DocumentName) (text : String) (edits : List Edit)
  | closed (doc : DocumentName)
  /-- All editors that are now on screen. -/
  | visibleEditors (editors : List Editor)
  | settingsChanged (settings : Settings)

def Event.doc? : Event → Option DocumentName
  | .opened doc _ _ => some doc
  | .changed doc _ _ => some doc
  | .closed doc => some doc
  | .visibleEditors _ => none
  | .settingsChanged _ => none

structure Waiting where
  language : LanguageId
  text : String
deriving DecidableEq, Repr

structure Push where
  editor : Editor
  buckets : Buckets
deriving DecidableEq

structure Stats where
  rebuildPasses : Nat := 0
  /-- The documents highlighted in rebuild passes. -/
  documentsRebuilt : Nat := 0
  refreshPasses : Nat := 0
  /-- The editors that were sent buckets in refresh passes. -/
  editorsRefreshed : Nat := 0
  parses : Nat := 0
  /-- The events about documents that are not tracked. -/
  staleEvents : Nat := 0
deriving DecidableEq, Repr

structure Engine where
  registry : Registry
  legend : Legend
  enabledTerms : NameSet
  documents : Documents
  /-- The documents that wait for their language. -/
  loading : NameMap Waiting
  /-- The languages that the host was or will be asked to load. -/
  requested : NameSet
  /-- The languages that the host has still to be asked to load. -/
  queue : List LanguageId
  visible : List Editor
  /-- The documents whose editors wait for buckets. -/
  owed : NameSet
  schedule : Schedule
  stats : Stats

namespace Engine

/-- An engine that has seen no event. -/
def create (registry : Registry) (settings : Settings) : Engine where
  registry := registry.setEnabled settings.languages
  legend := .default
  enabledTerms := settings.enabledTerms
  documents := .empty
  loading := .empty
  requested := .empty
  queue := []
  visible := []
  owed := .empty
  schedule := .ofDelay settings.debounce
  stats := {}

def isVisible (e : Engine) (doc : DocumentName) : Bool := e.visible.any (·.doc == doc)

def isLoading (e : Engine) (doc : DocumentName) : Bool := e.loading.contains doc

/-- Whether the editors of a document wait for buckets. -/
def isOwed (e : Engine) (doc : DocumentName) : Bool := e.owed.contains doc

def arm (e : Engine) (stage : Stage) (now : Nat) : Engine :=
  { e with schedule := e.schedule.arm stage now }

/-! ### Events -/

def track (e : Engine) (parse : Parse) (doc : DocumentName) (language : Language) (text : String)
    (now : Nat) : Engine :=
  let e' := { e with
    documents := e.documents.track parse doc language text
    stats := { e.stats with parses := e.stats.parses + 1 } }
  if e.isVisible doc then e'.arm .rebuild now else e'

/-- Let a document wait for its language, and have the language loaded unless that is under way. -/
def await (e : Engine) (doc : DocumentName) (language : LanguageId) (text : String) : Engine :=
  { e with
    requested := e.requested.insert language
    queue := if e.requested.contains language then e.queue else e.queue ++ [language]
    loading := e.loading.insert doc ⟨language, text⟩ }

/-- A document is opened. A language that is not enabled, or that failed to load, is ignored. -/
def openDocument (e : Engine) (parse : Parse) (doc : DocumentName) (language : LanguageId)
    (text : String) (now : Nat) : Engine :=
  if e.registry.isEnabled language then
    let e' := { e with loading := e.loading.erase doc }
    match e.registry.get? language with
    | some (.ok loaded) => e'.track parse doc loaded text now
    | some (.error _) => e'
    | none => e'.await doc language text
  else e

def changeDocument (e : Engine) (parse : Parse) (doc : DocumentName) (text : String)
    (edits : List Edit) (now : Nat) : Engine :=
  match e.loading.find? doc with
  | some waiting =>
    if edits.isEmpty then e
    else { e with loading := e.loading.insert doc { waiting with text } }
  | none =>
    match e.documents.edit parse doc text edits with
    | (.applied, documents) =>
      let e' := { e with
        documents
        stats := { e.stats with parses := e.stats.parses + 1 } }
      if e.isVisible doc then e'.arm .rebuild now else e'
    | (.empty, _) => e
    | (.stale, _) => { e with stats := { e.stats with staleEvents := e.stats.staleEvents + 1 } }

/-- A document is closed, and what was planned for it is forgotten. -/
def closeDocument (e : Engine) (doc : DocumentName) : Engine :=
  let wasLoading := e.isLoading doc
  let (wasOpen, documents) := e.documents.close doc
  let e' := { e with
    loading := e.loading.erase doc
    documents
    owed := e.owed.erase doc }
  if wasLoading || wasOpen then e'
  else { e' with stats := { e.stats with staleEvents := e.stats.staleEvents + 1 } }

/-- Other editors are on screen. Those that were not there before wait for buckets. -/
def setVisible (e : Engine) (editors : List Editor) (now : Nat) : Engine :=
  if editors = e.visible then e
  else
    let new := (editors.filter fun editor => !e.visible.contains editor).map (·.doc)
    let e' := { e with
      visible := editors
      owed := e.owed.insertAll new }
    let e' := if new.any e.documents.contains then e'.arm .rebuild now else e'
    e'.arm .refresh now

/-- The settings are changed. Languages count for documents opened from now on; if other terms are
enabled, all editors on screen wait for buckets. -/
def setSettings (e : Engine) (settings : Settings) (now : Nat) : Engine :=
  let e := { e with
    registry := e.registry.setEnabled settings.languages
    schedule := e.schedule.withDelay settings.debounce }
  let terms := settings.enabledTerms
  if terms = e.enabledTerms then e
  else
    let e := { e with
      enabledTerms := terms
      owed := e.owed.insertAll (e.visible.map (·.doc)) }
    if e.visible.isEmpty then e else e.arm .refresh now

def handle (e : Engine) (parse : Parse) (now : Nat) : Event → Engine
  | .opened doc language text => e.openDocument parse doc language text now
  | .changed doc text edits => e.changeDocument parse doc text edits now
  | .closed doc => e.closeDocument doc
  | .visibleEditors editors => e.setVisible editors now
  | .settingsChanged settings => e.setSettings settings now

/-! ### Languages -/

/-- The languages that the host is asked to load, each once. -/
def takeRequests (e : Engine) : List LanguageId × Engine :=
  (e.queue, { e with queue := [] })

def waitingFor (e : Engine) (language : LanguageId) : List (DocumentName × String) :=
  e.loading.entries.filterMap fun (doc, waiting) =>
    if waiting.language = language then some (doc, waiting.text) else none

def release (parse : Parse) (language : Language) (now : Nat) (e : Engine)
    (waiting : DocumentName × String) : Engine :=
  { e with loading := e.loading.erase waiting.1 }.track parse waiting.1 language waiting.2 now

/-- The host reports the outcome of loading a language. The documents that wait for it are tracked
or, if it failed, dropped; a failure that the registry does not keep may be tried again. -/
def finishLoading (e : Engine) (parse : Parse) (language : LanguageId) (outcome : Outcome)
    (now : Nat) : Engine :=
  let waiting := e.waitingFor language
  match outcome with
  | .ok loaded => waiting.foldl (release parse loaded now) e
  | .error _ =>
    { e with
      loading := waiting.foldl (fun loading w => loading.erase w.1) e.loading
      requested := if (e.registry.get? language).isNone then e.requested.erase language
        else e.requested }

def loadLanguage (e : Engine) (files : FileTree) (language : LanguageId) :
    Registry.Answer × Engine :=
  let (answer, registry) := e.registry.load files language
  (answer, { e with registry })

/-! ### Stages -/

/-- The earlier one of the deadlines of both stages. -/
def deadline? (e : Engine) : Option Nat := e.schedule.deadline?

/-- The documents that a rebuild highlights: those that are visible, tracked and out of date, each
once. -/
def dirtyVisible (e : Engine) : List DocumentName :=
  (e.visible.map (·.doc)).eraseDups.filter fun doc =>
    e.documents.contains doc && !e.documents.isFresh doc

def buildAll (documents : Documents) (legend : Legend) (docs : List DocumentName) : Documents :=
  docs.foldl (fun ds doc => (ds.build doc legend).2) documents

theorem get?_buildAll (documents : Documents) (legend : Legend) (docs : List DocumentName)
    (doc : DocumentName) :
    (buildAll documents legend docs).get? doc =
      if doc ∈ docs then (documents.get? doc).map fun d => (d.build legend).2
      else documents.get? doc := by
  induction docs generalizing documents with
  | nil => rfl
  | cons a rest ih =>
    have hcons : buildAll documents legend (a :: rest) =
        buildAll (documents.build a legend).2 legend rest := rfl
    rw [hcons, ih, Documents.get?_build]
    by_cases ha : doc = a
    · subst ha
      by_cases hr : doc ∈ rest
      · cases documents.get? doc <;> simp [hr, Document.build_build]
      · simp [hr]
    · simp [ha]

theorem mem_dirtyVisible {e : Engine} {doc : DocumentName} :
    doc ∈ e.dirtyVisible ↔
      doc ∈ e.visible.map (·.doc) ∧ ∃ d, e.documents.get? doc = some d ∧ d.built = none := by
  rw [dirtyVisible, List.mem_filter, List.mem_eraseDups, Documents.contains_eq_isSome,
    Documents.isFresh]
  cases e.documents.get? doc <;> simp [Document.isDirty]

/-- Highlight the visible documents that are out of date, and have their editors refreshed. -/
def rebuild (e : Engine) (now : Nat) : Engine :=
  let docs := e.dirtyVisible
  let e' := { e with
    documents := buildAll e.documents e.legend docs
    owed := e.owed.insertAll docs
    stats := { e.stats with
      rebuildPasses := e.stats.rebuildPasses + 1
      documentsRebuilt := e.stats.documentsRebuilt + docs.length } }
  if docs.isEmpty then e' else e'.arm .refresh now

/-- What a refresh sends to an editor. -/
def push? (e : Engine) (editor : Editor) : Option Push :=
  if e.isOwed editor.doc then do
    let built ← (← e.documents.get? editor.doc).built
    return ⟨editor, built.buckets.filter e.enabledTerms⟩
  else none

/-- Send buckets to the visible editors of the documents that wait for it. -/
def refresh (e : Engine) : List Push × Engine :=
  let pushes := e.visible.filterMap e.push?
  (pushes, { e with
    owed := .empty
    stats := { e.stats with
      refreshPasses := e.stats.refreshPasses + 1
      editorsRefreshed := e.stats.editorsRefreshed + pushes.length } })

/-- Run the rebuild stage if it is due. -/
def fireRebuild (e : Engine) (now : Nat) : Engine :=
  let (due, schedule) := e.schedule.expire .rebuild now
  if due then { e with schedule }.rebuild now else e

/-- Run the refresh stage if it is due. -/
def fireRefresh (e : Engine) (now : Nat) : List Push × Engine :=
  let (due, schedule) := e.schedule.expire .refresh now
  if due then { e with schedule }.refresh else ([], e)

/-- Run the stages that are due, rebuild before refresh. -/
def fire (e : Engine) (now : Nat) : List Push × Engine := (e.fireRebuild now).fireRefresh now

/-! ### Requests -/

/-- The highlights of a document with an enabled term, made now if need be. -/
def highlights (e : Engine) (doc : DocumentName) : Option (List Highlight) × Engine :=
  let (built, documents) := e.documents.build doc e.legend
  (built.map fun b => b.highlights.filter fun a => e.enabledTerms.contains a.term,
    { e with documents })

def tokens (e : Engine) (doc : DocumentName) : Option (List Token) × Engine :=
  let (highlights, e) := e.highlights doc
  (do
    let highlights ← highlights
    let d ← e.documents.get? doc
    return Token.encode highlights e.legend d.text, e)

end Engine

end SyntaxHighlight
