import Mathlib.Logic.Relation
import SyntaxHighlight.Proofs.Engine.Session

/-!
# What decides which buckets are sent

Most of an engine has no part in what editors are sent. The rest is its `Display`: the documents,
the editors on screen, the documents owed to them, and the two deadlines. Whatever is done with an
engine is one of three things to its display (`Engine.move_act`):

    changes    any number of: a document is renewed or closed, other editors are shown,
               other terms are enabled
    firing     a rebuild if it is due, then a refresh if it is due, which alone sends anything
    asking     the highlights of a document are made

Facts about all runs need one case for each of these.
-/

namespace SyntaxHighlight

/-- The part of an engine that decides what editors are sent. -/
structure Display where
  documents : Documents
  legend : Legend
  enabledTerms : NameSet
  visible : List Editor
  owed : NameSet
  /-- When the rebuild stage is due. -/
  rebuildAt : Option Nat
  /-- When the refresh stage is due. -/
  refreshAt : Option Nat

def Engine.display (e : Engine) : Display where
  documents := e.documents
  legend := e.legend
  enabledTerms := e.enabledTerms
  visible := e.visible
  owed := e.owed
  rebuildAt := e.schedule.rebuild.deadline
  refreshAt := e.schedule.refresh.deadline

namespace Display

def isVisible (v : Display) (doc : DocumentName) : Bool := v.visible.any (·.doc == doc)

/-- A document is on screen and has no highlights, so that the next rebuild makes them. -/
def Overdue (v : Display) (doc : DocumentName) : Prop :=
  doc ∈ v.visible.map (·.doc) ∧ ∃ d, v.documents.get? doc = some d ∧ d.built = none

/-- The documents of the editors that are on screen but were not so before. -/
def newcomers (v : Display) (editors : List Editor) : List DocumentName :=
  (editors.filter fun editor => !v.visible.contains editor).map (·.doc)

/-- What an event, or a document whose language has come, does to a display. -/
inductive Change (parse : Parse) (v : Display) : Display → Prop where
  | renewed (doc : DocumentName) (language : Language) (text : String) (deadline : Nat) :
    Change parse v { v with
      documents := v.documents.track parse doc language text
      rebuildAt := if v.isVisible doc then some deadline else v.rebuildAt }
  | closed (doc : DocumentName) :
    Change parse v { v with
      documents := (v.documents.close doc).2
      owed := v.owed.erase doc }
  | shown (editors : List Editor) (rebuildAt refreshAt : Nat) :
    Change parse v { v with
      visible := editors
      owed := v.owed.insertAll (v.newcomers editors)
      rebuildAt :=
        if (v.newcomers editors).any v.documents.contains then some rebuildAt else v.rebuildAt
      refreshAt := some refreshAt }
  | enabled (terms : NameSet) (deadline : Nat) :
    Change parse v { v with
      enabledTerms := terms
      owed := v.owed.insertAll (v.visible.map (·.doc))
      refreshAt := if v.visible.isEmpty then v.refreshAt else some deadline }

abbrev Changes (parse : Parse) : Display → Display → Prop := Relation.ReflTransGen (Change parse)

/-- What every change keeps is kept by any number of them. -/
theorem Changes.keep {parse : Parse} {motive : Display → Prop}
    (hchange : ∀ v w, Change parse v w → motive v → motive w) {v w : Display}
    (h : Changes parse v w) (hv : motive v) : motive w := by
  induction h with
  | refl => exact hv
  | tail _ hlast ih => exact hchange _ _ hlast ih

/-- A rebuild, if it is due: the documents that are overdue get highlights and are owed. -/
inductive Rebuilds (v : Display) : Display → Prop where
  | idle : Rebuilds v v
  | due (docs : List DocumentName) (hdocs : ∀ doc, doc ∈ docs ↔ v.Overdue doc) (deadline : Nat) :
    Rebuilds v { v with
      documents := Engine.buildAll v.documents v.legend docs
      owed := v.owed.insertAll docs
      rebuildAt := none
      refreshAt := if docs.isEmpty then v.refreshAt else some deadline }

def asked (v : Display) (doc : DocumentName) : Display :=
  { v with documents := (v.documents.build doc v.legend).2 }

/-- What a refresh sends: to an editor on screen whose document is owed, the enabled buckets of that
document's highlights. -/
def Sends (v : Display) (p : Push) : Prop :=
  p.editor ∈ v.visible ∧ v.owed.contains p.editor.doc = true ∧
    ∃ d b, v.documents.get? p.editor.doc = some d ∧ d.built = some b ∧
      p.buckets = b.buckets.filter v.enabledTerms

/-- A refresh sends an editor one thing only. -/
theorem Sends.eq_of_editor_eq {v : Display} {p q : Push} (hp : v.Sends p) (hq : v.Sends q)
    (h : q.editor = p.editor) : q = p := by
  obtain ⟨editor, buckets⟩ := p
  obtain ⟨editor', buckets'⟩ := q
  obtain rfl : editor' = editor := h
  obtain ⟨_, _, d, b, hd, hb, hp⟩ := hp
  obtain ⟨_, _, d', b', hd', hb', hq⟩ := hq
  rw [hd] at hd'
  obtain rfl := Option.some.inj hd'
  rw [hb] at hb'
  obtain rfl := Option.some.inj hb'
  rw [Push.mk.injEq]
  exact ⟨rfl, hq.trans hp.symm⟩

/-- A refresh, if it is due: everything owed is sent. -/
inductive Refreshes (v : Display) : List Push → Display → Prop where
  | idle : Refreshes v [] v
  | due {pushes : List Push} (hpushes : ∀ p, p ∈ pushes ↔ v.Sends p) :
    Refreshes v pushes { v with owed := .empty, refreshAt := none }

/-- What an action does to a display, and what it sends. -/
inductive Move (parse : Parse) (v : Display) : Action → List Push → Display → Prop where
  | changed {s : Step} {w : Display} (hw : Changes parse v w) : Move parse v (.step s) [] w
  | fired {s : Step} {w x : Display} {pushes : List Push} (hw : Rebuilds v w)
      (hx : Refreshes w pushes x) : Move parse v (.step s) pushes x
  | asked (r : Request) : Move parse v (.request r) [] (v.asked r.doc)

/-- What changes, both stages and requests keep is kept by every action. -/
theorem Move.keep {parse : Parse} {motive : Display → Prop}
    (hchange : ∀ v w, Change parse v w → motive v → motive w)
    (hrebuild : ∀ v w, Rebuilds v w → motive v → motive w)
    (hrefresh : ∀ v pushes w, Refreshes v pushes w → motive v → motive w)
    (hasked : ∀ v doc, motive v → motive (v.asked doc))
    {v w : Display} {a : Action} {pushes : List Push} (h : Move parse v a pushes w)
    (hv : motive v) : motive w := by
  cases h with
  | changed hw => exact Changes.keep hchange hw hv
  | fired hw hx => exact hrefresh _ _ _ hx (hrebuild _ _ hw hv)
  | asked r => exact hasked _ _ hv

end Display

namespace Engine

open Display (Change Changes)

variable (parse : Parse)

/-! ### Events -/

theorem display_track (e : Engine) (doc : DocumentName) (language : Language) (text : String)
    (now : Nat) :
    (e.track parse doc language text now).display =
      { e.display with
        documents := e.documents.track parse doc language text
        rebuildAt :=
          if e.display.isVisible doc then some (now + e.schedule.rebuild.delay)
          else e.display.rebuildAt } := by
  have hvis : e.display.isVisible doc = e.isVisible doc := rfl
  unfold track
  rw [hvis]
  split <;> rfl

/-- Tracking a document is one change: it has a new text and no highlights, and a rebuild is planned
if it is on screen. -/
theorem change_track (e : Engine) (doc : DocumentName) (language : Language) (text : String)
    (now : Nat) : Change parse e.display (e.track parse doc language text now).display := by
  rw [display_track]
  exact .renewed doc language text _

theorem changes_openDocument (e : Engine) (doc : DocumentName) (language : LanguageId)
    (text : String) (now : Nat) :
    Changes parse e.display (e.openDocument parse doc language text now).display := by
  unfold openDocument
  split
  · split
    · exact .single (change_track parse { e with loading := e.loading.erase doc } doc _ text now)
    · exact .refl
    · exact .refl
  · exact .refl

theorem changes_changeDocument (e : Engine) (doc : DocumentName) (text : String)
    (edits : List Edit) (now : Nat) :
    Changes parse e.display (e.changeDocument parse doc text edits now).display := by
  unfold changeDocument
  split
  · split <;> exact .refl
  · cases hd : e.documents.get? doc with
    | none =>
      rw [Documents.edit_of_none hd]
      exact .refl
    | some d =>
      cases edits with
      | nil =>
        rw [Documents.edit_nil hd]
      | cons edit edits =>
        rw [Documents.edit_cons hd]
        exact .single (change_track parse e doc d.language text now)

/-- Closing a document is one change: it is neither tracked nor owed any more. -/
theorem changes_closeDocument (e : Engine) (doc : DocumentName) :
    Changes parse e.display (e.closeDocument doc).display := by
  have hclosed : (e.closeDocument doc).display =
      { e.display with
        documents := (e.documents.close doc).2
        owed := e.owed.erase doc } := by
    unfold closeDocument
    dsimp only
    split <;> rfl
  rw [hclosed]
  exact .single (.closed doc)

theorem changes_setVisible (e : Engine) (editors : List Editor) (now : Nat) :
    Changes parse e.display (e.setVisible editors now).display := by
  by_cases hsame : editors = e.visible
  · rw [setVisible, if_pos hsame]
  · -- Newcomers are owed; a rebuild is planned only if one of their documents is tracked.
    have hshown : (e.setVisible editors now).display =
        { e.display with
          visible := editors
          owed := e.owed.insertAll (e.display.newcomers editors)
          rebuildAt :=
            if (e.display.newcomers editors).any e.documents.contains then
              some (now + e.schedule.rebuild.delay)
            else e.display.rebuildAt
          refreshAt := some (now + e.schedule.refresh.delay) } := by
      rw [setVisible, if_neg hsame]
      show (arm (if (e.display.newcomers editors).any e.documents.contains then _ else _)
        .refresh now).display = _
      split <;> rfl
    rw [hshown]
    exact .single (.shown editors _ _)

theorem changes_setSettings (e : Engine) (settings : Settings) (now : Nat) :
    Changes parse e.display (e.setSettings settings now).display := by
  by_cases hsame : settings.enabledTerms = e.enabledTerms
  · rw [setSettings, if_pos hsame]
    exact .refl
  · have henabled : (e.setSettings settings now).display =
        { e.display with
          enabledTerms := settings.enabledTerms
          owed := e.owed.insertAll (e.visible.map (·.doc))
          refreshAt := if e.visible.isEmpty then e.display.refreshAt
            else some (now + settings.debounce) } := by
      rw [setSettings, if_neg hsame]
      show Engine.display (if e.visible.isEmpty then _ else _) = _
      split <;> rfl
    rw [henabled]
    exact .single (.enabled _ _)

/-- An event is a number of changes. -/
theorem changes_handle (e : Engine) (now : Nat) (event : Event) :
    Changes parse e.display (e.handle parse now event).display := by
  cases event with
  | opened doc language text => exact changes_openDocument parse e doc language text now
  | changed doc text edits => exact changes_changeDocument parse e doc text edits now
  | closed doc => exact changes_closeDocument parse e doc
  | visibleEditors editors => exact changes_setVisible parse e editors now
  | settingsChanged settings => exact changes_setSettings parse e settings now

/-- Reporting the outcome of a language renews the documents that wait for it, one by one. -/
theorem changes_finishLoading (e : Engine) (language : LanguageId) (outcome : Outcome)
    (now : Nat) :
    Changes parse e.display (e.finishLoading parse language outcome now).display := by
  cases outcome with
  | error _ => exact .refl
  | ok loaded =>
    show Changes parse e.display
      ((e.waitingFor language).foldl (release parse loaded now) e).display
    generalize e.waitingFor language = waiting
    induction waiting generalizing e with
    | nil => exact .refl
    | cons w rest ih =>
      exact .head
        (change_track parse { e with loading := e.loading.erase w.1 } w.1 loaded w.2 now) (ih _)

/-! ### Stages and requests -/

theorem display_rebuild (e : Engine) (now : Nat) :
    (e.rebuild now).display =
      { e.display with
        documents := buildAll e.documents e.legend e.dirtyVisible
        owed := e.owed.insertAll e.dirtyVisible
        refreshAt :=
          if e.dirtyVisible.isEmpty then e.display.refreshAt
          else some (now + e.schedule.refresh.delay) } := by
  unfold rebuild
  dsimp only
  split <;> rfl

/-- Firing the rebuild stage is a rebuild of the display, if it is due. -/
theorem rebuilds_fireRebuild (e : Engine) (now : Nat) :
    e.display.Rebuilds (e.fireRebuild now).display := by
  unfold fireRebuild
  cases hdue : e.schedule.rebuild.isDue now with
  | true =>
    rw [Schedule.expire, Schedule.get, Timer.expire_of_isDue hdue]
    dsimp only
    rw [if_pos rfl, display_rebuild]
    exact .due e.dirtyVisible (fun _ => mem_dirtyVisible) _
  | false =>
    rw [Schedule.expire, Schedule.get, Timer.expire_of_not_isDue hdue]
    exact .idle

/-- What a refresh sends to an editor: the enabled buckets of its document, if that is owed and has
highlights. -/
theorem push?_eq_some_iff {e : Engine} {editor : Editor} {p : Push} :
    e.push? editor = some p ↔
      e.owed.contains editor.doc = true ∧ ∃ d b, e.documents.get? editor.doc = some d ∧
        d.built = some b ∧ p = ⟨editor, b.buckets.filter e.enabledTerms⟩ := by
  unfold push? isOwed
  split
  · next howed =>
    cases hd : e.documents.get? editor.doc with
    | none => simp
    | some d =>
      cases hb : d.built with
      | none => simp [hb]
      | some b => simp [hb, howed, eq_comm]
  · next howed => simp [howed]

/-- What a refresh pushes is what it sends by the description of displays. -/
theorem mem_pushes_iff {e : Engine} {p : Push} :
    p ∈ e.visible.filterMap e.push? ↔ e.display.Sends p := by
  rw [List.mem_filterMap]
  constructor
  · rintro ⟨editor, hvisible, hpush⟩
    obtain ⟨howed, d, b, hd, hb, rfl⟩ := push?_eq_some_iff.1 hpush
    exact ⟨hvisible, howed, d, b, hd, hb, rfl⟩
  · rintro ⟨hvisible, howed, d, b, hd, hb, hbuckets⟩
    refine ⟨p.editor, hvisible, push?_eq_some_iff.2 ⟨howed, d, b, hd, hb, ?_⟩⟩
    exact congrArg (Push.mk p.editor) hbuckets

/-- Firing the refresh stage sends everything owed, if it is due. -/
theorem refreshes_fireRefresh (e : Engine) (now : Nat) :
    e.display.Refreshes (e.fireRefresh now).1 (e.fireRefresh now).2.display := by
  unfold fireRefresh
  cases hdue : e.schedule.refresh.isDue now with
  | true =>
    rw [Schedule.expire, Schedule.get, Timer.expire_of_isDue hdue]
    exact .due fun p => mem_pushes_iff
  | false =>
    rw [Schedule.expire, Schedule.get, Timer.expire_of_not_isDue hdue]
    exact .idle

theorem display_answer (e : Engine) (r : Request) :
    (e.answer r).display = e.display.asked r.doc := by
  rw [answer_eq]
  rfl

/-- What every action does. -/
theorem move_act (e : Engine) (a : Action) :
    Display.Move parse e.display a (e.act parse a).1 (e.act parse a).2.display := by
  cases a with
  | request r =>
    show Display.Move parse e.display (.request r) [] (e.answer r).display
    rw [display_answer]
    exact .asked r
  | step s =>
    cases s with
    | event now event => exact .changed (changes_handle parse e now event)
    | takeRequests => exact .changed .refl
    | startLoad language => exact .changed .refl
    | finishLoad files language => exact .changed .refl
    | deliver now language outcome =>
      exact .changed (changes_finishLoading parse e language outcome now)
    | fire now =>
      exact .fired (rebuilds_fireRebuild e now) (refreshes_fireRefresh (e.fireRebuild now) now)

end Engine

/-- What changes, both stages and requests keep holds of the display after every run. -/
theorem Session.run_display {parse : Parse} {motive : Display → Prop}
    (hchange : ∀ v w, Display.Change parse v w → motive v → motive w)
    (hrebuild : ∀ v w, Display.Rebuilds v w → motive v → motive w)
    (hrefresh : ∀ v pushes w, Display.Refreshes v pushes w → motive v → motive w)
    (hasked : ∀ v doc, motive v → motive (v.asked doc))
    {s : Session} (hs : motive s.engine.display) (actions : List Action) :
    motive (s.run parse actions).engine.display :=
  run_invariant (motive := fun s => motive s.engine.display)
    (fun s a h => (s.engine.move_act parse a).keep hchange hrebuild hrefresh hasked h) hs actions

/-- The legend never changes. -/
theorem Session.run_legend (parse : Parse) (s : Session) (actions : List Action) :
    (s.run parse actions).engine.legend = s.engine.legend := by
  refine run_display (motive := (·.legend = s.engine.legend)) ?_ ?_ ?_ (fun _ _ h => h) rfl actions
  · rintro v w ⟨⟩ hv <;> exact hv
  · rintro v w ⟨⟩ hv <;> exact hv
  · rintro v pushes w ⟨⟩ hv <;> exact hv

end SyntaxHighlight
