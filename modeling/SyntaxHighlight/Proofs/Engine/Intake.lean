import Mathlib.Logic.Function.Basic
import SyntaxHighlight.Proofs.Engine.Session

/-!
# Which documents wait, and for what

The part of an engine that has to do with waiting is its `Intake`: the registry, which documents are
tracked and which wait, and the languages that the host is asked for. Whatever is done with an
engine does one of a few things to its intake (`Engine.move_intake`): a document comes in, waits,
gets another text or goes; the host takes over the requests or delivers an outcome; or the registry
goes on, which never forgets an outcome.
-/

namespace SyntaxHighlight

namespace Registry

theorem get?_eq_some_iff {r : Registry} {id : LanguageId} {outcome : Outcome} :
    r.get? id = some outcome ↔ r.progress.find? id = some (.finished outcome) := by
  unfold get?
  split
  · next kept hkept => rw [hkept, Option.some.injEq, Option.some.injEq, Progress.finished.injEq]
  · next hother =>
    constructor
    · intro h
      cases h
    · intro h
      exact absurd h (hother outcome)

def Keeps (r r' : Registry) : Prop :=
  ∀ id outcome, r.get? id = some outcome → r'.get? id = some outcome

/-- A language whose outcome is not known yet may come to any progress. -/
theorem keeps_insert {r r' : Registry} {id : LanguageId} {progress : Progress}
    (hprogress : r'.progress = r.progress.insert id progress) (hnone : r.get? id = none) :
    r.Keeps r' := by
  intro other outcome h
  have hne : other ≠ id := by
    rintro rfl
    rw [hnone] at h
    cases h
  rw [get?_eq_some_iff] at h ⊢
  rw [hprogress, NameMap.find?_insert, if_neg hne]
  exact h

theorem keeps_start (r : Registry) (id : LanguageId) : r.Keeps (r.start id) := by
  unfold start
  split
  · exact fun _ _ h => h
  · next hnew =>
    rw [NameMap.contains, Bool.not_eq_true, Option.isSome_eq_false_iff,
      Option.isNone_iff_eq_none] at hnew
    exact keeps_insert rfl (by rw [get?, hnew])

/-- The end of the work brings an outcome only where there was none. -/
theorem keeps_finish (r : Registry) (files : FileTree) (id : LanguageId) :
    r.Keeps (r.finish files id) := by
  unfold finish
  split
  · next hrunning => exact keeps_insert rfl (by rw [get?, hrunning])
  · exact fun _ _ h => h

end Registry

/-- The part of an engine that decides which documents wait. -/
@[ext]
structure Intake where
  registry : Registry
  /-- Whether a document is tracked. -/
  tracked : DocumentName → Bool
  loading : NameMap Waiting
  requested : NameSet
  queue : List LanguageId

def Engine.intake (e : Engine) : Intake where
  registry := e.registry
  tracked := e.documents.contains
  loading := e.loading
  requested := e.requested
  queue := e.queue

namespace Intake

/-- A document is tracked and does not wait any more. -/
def receive (v : Intake) (doc : DocumentName) : Intake :=
  { v with
    loading := v.loading.erase doc
    tracked := Function.update v.tracked doc true }

/-- A document waits for a language, which the host is asked for unless that was done before. -/
def await (v : Intake) (doc : DocumentName) (language : LanguageId) (text : String) : Intake :=
  { v with
    requested := v.requested.insert language
    queue := if v.requested.contains language then v.queue else v.queue ++ [language]
    loading := (v.loading.erase doc).insert doc ⟨language, text⟩ }

def waits (v : Intake) (language : LanguageId) (doc : DocumentName) : Bool :=
  (v.loading.find? doc).any (·.language = language)

/-- The outcome of a language is delivered: no document waits for it any more, and if it is good
they are tracked. -/
def deliver (v : Intake) (language : LanguageId) (outcome : Outcome) : Intake :=
  { v with
    loading := v.loading.filter fun doc => !v.waits language doc
    tracked := fun doc => v.tracked doc || (outcome.isOk && v.waits language doc)
    requested := if !outcome.isOk && (v.registry.get? language).isNone then
      v.requested.erase language else v.requested }

inductive Move (v : Intake) : Action → Intake → Prop where
  | idle (a : Action) : Move v a v
  | advanced (a : Action) {r : Registry} (hkeeps : v.registry.Keeps r) :
    Move v a { v with registry := r }
  | received (a : Action) (doc : DocumentName) : Move v a (v.receive doc)
  | dropped (a : Action) (doc : DocumentName) : Move v a { v with loading := v.loading.erase doc }
  | awaited {now : Nat} {doc : DocumentName} {language : LanguageId} {text : String}
      (henabled : v.registry.isEnabled language = true)
      (hnone : v.registry.get? language = none) :
    Move v (.step (.event now (.opened doc language text))) (v.await doc language text)
  | rewritten (a : Action) {doc : DocumentName} {w : Waiting} (hw : v.loading.find? doc = some w)
      (text : String) :
    Move v a { v with loading := v.loading.insert doc { w with text } }
  | closed (a : Action) (doc : DocumentName) :
    Move v a { v with
      loading := v.loading.erase doc
      tracked := Function.update v.tracked doc false }
  | taken : Move v (.step .takeRequests) { v with queue := [] }
  | delivered (now : Nat) (language : LanguageId) (outcome : Outcome) :
    Move v (.step (.deliver now language outcome)) (v.deliver language outcome)

end Intake

namespace Engine

variable (parse : Parse)

/-! ### Events -/

theorem contains_track (ds : Documents) (doc : DocumentName) (language : Language)
    (text : String) :
    (ds.track parse doc language text).contains = Function.update ds.contains doc true := by
  funext other
  rw [Documents.contains_eq_isSome, Documents.get?_track, Function.update_apply]
  split <;> rfl

/-- Tracking a document concerns the documents that are tracked, and nothing else that decides on
waiting. -/
theorem intake_track (e : Engine) (doc : DocumentName) (language : Language) (text : String)
    (now : Nat) :
    (e.track parse doc language text now).intake =
      { e.intake with tracked := Function.update e.intake.tracked doc true } := by
  have harm : (e.track parse doc language text now).intake =
      { e.intake with tracked := (e.documents.track parse doc language text).contains } := by
    unfold track
    dsimp only
    split <;> rfl
  rw [harm, contains_track]
  rfl

/-- Tracking a document again with another text makes no difference. -/
theorem intake_track_of_tracked {e : Engine} {doc : DocumentName}
    (h : e.documents.contains doc = true) (language : Language) (text : String) (now : Nat) :
    (e.track parse doc language text now).intake = e.intake := by
  have hset : Function.update e.intake.tracked doc true = e.intake.tracked := by
    rw [Function.update_eq_self_iff]
    exact h.symm
  rw [intake_track, hset]

/-- Opening a document is one of the moves: it is tracked, waits, or is given up. -/
theorem move_openDocument (e : Engine) (doc : DocumentName) (language : LanguageId)
    (text : String) (now : Nat) :
    e.intake.Move (.step (.event now (.opened doc language text)))
      (e.openDocument parse doc language text now).intake := by
  unfold openDocument
  split
  · next henabled =>
    split
    · rw [intake_track]
      exact .received _ doc
    · exact .dropped _ doc
    · next hnone => exact .awaited henabled hnone
  · exact .idle _

theorem move_changeDocument (e : Engine) (a : Action) (doc : DocumentName) (text : String)
    (edits : List Edit) (now : Nat) :
    e.intake.Move a (e.changeDocument parse doc text edits now).intake := by
  unfold changeDocument
  -- A document that waits has its text replaced, one that is tracked stays so, and no other is
  -- looked at.
  split
  · next w hw =>
    split
    · exact .idle _
    · exact .rewritten _ hw text
  · cases hd : e.documents.get? doc with
    | none =>
      rw [Documents.edit_of_none hd]
      exact .idle _
    | some d =>
      cases edits with
      | nil =>
        rw [Documents.edit_nil hd]
        exact .idle _
      | cons edit edits =>
        rw [Documents.edit_cons hd]
        have htracked : e.documents.contains doc = true := by
          rw [Documents.contains_eq_isSome, hd]
          rfl
        show e.intake.Move a (e.track parse doc d.language text now).intake
        rw [intake_track_of_tracked parse htracked]
        exact .idle _

theorem move_closeDocument (e : Engine) (a : Action) (doc : DocumentName) :
    e.intake.Move a (e.closeDocument doc).intake := by
  have htracked : (e.documents.close doc).2.contains =
      Function.update e.documents.contains doc false := by
    funext other
    rw [Documents.contains_eq_isSome, Documents.get?_close, Function.update_apply]
    split <;> rfl
  have hclosed : (e.closeDocument doc).intake =
      { e.intake with
        loading := e.loading.erase doc
        tracked := (e.documents.close doc).2.contains } := by
    unfold closeDocument
    dsimp only
    split <;> rfl
  rw [hclosed, htracked]
  exact .closed _ doc

theorem intake_setVisible (e : Engine) (editors : List Editor) (now : Nat) :
    (e.setVisible editors now).intake = e.intake := by
  unfold setVisible
  split
  · rfl
  · dsimp only
    split <;> rfl

theorem intake_setSettings (e : Engine) (settings : Settings) (now : Nat) :
    (e.setSettings settings now).intake =
      { e.intake with registry := e.registry.setEnabled settings.languages } := by
  unfold setSettings
  dsimp only
  split
  · rfl
  · split <;> rfl

theorem move_handle (e : Engine) (now : Nat) (event : Event) :
    e.intake.Move (.step (.event now event)) (e.handle parse now event).intake := by
  cases event with
  | opened doc language text => exact move_openDocument parse e doc language text now
  | changed doc text edits => exact move_changeDocument parse e _ doc text edits now
  | closed doc => exact move_closeDocument e _ doc
  | visibleEditors editors =>
    show e.intake.Move _ (e.setVisible editors now).intake
    rw [intake_setVisible]
    exact .idle _
  | settingsChanged settings =>
    show e.intake.Move _ (e.setSettings settings now).intake
    rw [intake_setSettings]
    exact .advanced _ fun _ _ h => h

/-! ### Deliveries -/

/-- The documents that a delivery goes through are those that wait for the language. -/
theorem mem_waitingFor {e : Engine} {language : LanguageId} {doc : DocumentName} :
    doc ∈ (e.waitingFor language).map (·.1) ↔ e.intake.waits language doc = true := by
  have hwaits : e.intake.waits language doc = true ↔
      ∃ w, e.loading.find? doc = some w ∧ w.language = language := by
    rw [Intake.waits, Option.any_eq_true]
    simp [intake]
  rw [hwaits, List.mem_map]
  constructor
  · rintro ⟨⟨other, text⟩, hmem, rfl⟩
    obtain ⟨⟨name, w⟩, hentry, hsome⟩ := List.mem_filterMap.1 hmem
    dsimp only at hsome
    split at hsome
    · next hlanguage =>
      obtain ⟨rfl, rfl⟩ := Prod.mk.inj (Option.some.inj hsome)
      exact ⟨w, NameMap.mem_entries_iff.1 hentry, hlanguage⟩
    · cases hsome
  · rintro ⟨w, hw, hlanguage⟩
    refine ⟨(doc, w.text), ?_, rfl⟩
    refine List.mem_filterMap.2 ⟨(doc, w), NameMap.mem_entries_iff.2 hw, ?_⟩
    exact if_pos hlanguage

/-- Documents that are taken out one by one are all gone, and the others stay as they were. -/
theorem find?_eraseAll (waiting : List (DocumentName × String)) (loading : NameMap Waiting)
    (doc : DocumentName) :
    (waiting.foldl (fun loading w => loading.erase w.1) loading).find? doc =
      if doc ∈ waiting.map (·.1) then none else loading.find? doc := by
  induction waiting generalizing loading with
  | nil => rfl
  | cons w rest ih =>
    rw [List.foldl_cons, ih, NameMap.find?_erase]
    by_cases hdoc : doc = w.1
    · simp [hdoc]
    · simp only [hdoc, List.map_cons, List.mem_cons, false_or, if_false]

/-- Taking out the documents that wait for a language one by one leaves the others. -/
theorem eraseAll_waitingFor (e : Engine) (language : LanguageId) :
    (e.waitingFor language).foldl (fun loading w => loading.erase w.1) e.loading =
      e.loading.filter fun doc => !e.intake.waits language doc := by
  apply NameMap.ext_find?
  intro doc
  rw [find?_eraseAll, NameMap.find?_filter]
  by_cases hwaits : e.intake.waits language doc = true
  · rw [if_pos (mem_waitingFor.2 hwaits), if_neg (by simp [hwaits])]
  · rw [if_neg (mt mem_waitingFor.1 hwaits), if_pos (by simp [hwaits])]

theorem intake_releaseAll (waiting : List (DocumentName × String)) (language : Language)
    (now : Nat) (e : Engine) :
    (waiting.foldl (release parse language now) e).intake =
      { e.intake with
        loading := waiting.foldl (fun loading w => loading.erase w.1) e.loading
        tracked := fun doc => e.intake.tracked doc || decide (doc ∈ waiting.map (·.1)) } := by
  -- Each release takes one document from those that wait to those that are tracked, so the engine
  -- is general.
  induction waiting generalizing e with
  | nil => simp [intake]
  | cons w rest ih =>
    have hhead : (release parse language now e w).intake = e.intake.receive w.1 := by
      unfold release
      rw [intake_track]
      rfl
    have hloading : (release parse language now e w).loading = e.loading.erase w.1 :=
      congrArg Intake.loading hhead
    rw [List.foldl_cons, ih, hhead, hloading]
    simp only [Intake.receive, Function.update_apply, List.foldl_cons, List.map_cons, List.mem_cons]
    congr 1
    funext doc
    by_cases hdoc : doc = w.1
    · simp [hdoc]
    · simp [hdoc]

theorem intake_finishLoading (e : Engine) (language : LanguageId) (outcome : Outcome)
    (now : Nat) :
    (e.finishLoading parse language outcome now).intake = e.intake.deliver language outcome := by
  cases outcome with
  | ok loaded =>
    -- A good outcome: the documents that waited are released one after the other.
    show ((e.waitingFor language).foldl (release parse loaded now) e).intake = _
    rw [intake_releaseAll, eraseAll_waitingFor]
    refine Intake.ext rfl ?_ rfl rfl rfl
    funext doc
    have hwaits : decide (doc ∈ (e.waitingFor language).map (·.1)) =
        e.intake.waits language doc := by
      rw [Bool.eq_iff_iff, decide_eq_true_iff]
      exact mem_waitingFor
    show (e.intake.tracked doc || decide _) = (e.intake.tracked doc || (true && _))
    rw [hwaits, Bool.true_and]
  | error error =>
    -- An error: they are dropped, and the language may be asked for again if the registry does not
    -- keep it.
    have herror : (e.finishLoading parse language (.error error) now).intake =
        { e.intake with
          loading := (e.waitingFor language).foldl (fun loading w => loading.erase w.1) e.loading
          requested := if (e.registry.get? language).isNone then e.requested.erase language
            else e.requested } := rfl
    rw [herror, eraseAll_waitingFor]
    refine Intake.ext rfl ?_ rfl rfl rfl
    funext doc
    exact (Bool.or_false _).symm

/-! ### Stages and requests -/

theorem contains_build (ds : Documents) (doc : DocumentName) (legend : Legend) :
    (ds.build doc legend).2.contains = ds.contains := by
  funext other
  rw [Documents.contains_eq_isSome, Documents.get?_build, Documents.contains_eq_isSome]
  split
  · next heq => rw [heq, Option.isSome_map]
  · rfl

theorem contains_buildAll (ds : Documents) (legend : Legend) (docs : List DocumentName) :
    (buildAll ds legend docs).contains = ds.contains := by
  induction docs generalizing ds with
  | nil => rfl
  | cons doc rest ih =>
    show (buildAll (ds.build doc legend).2 legend rest).contains = ds.contains
    rw [ih, contains_build]

/-- A rebuild concerns no document that waits. -/
theorem intake_fireRebuild (e : Engine) (now : Nat) : (e.fireRebuild now).intake = e.intake := by
  unfold fireRebuild
  dsimp only
  split
  · have hrebuild : ∀ e : Engine, (e.rebuild now).intake =
        { e.intake with tracked := (buildAll e.documents e.legend e.dirtyVisible).contains } := by
      intro e
      unfold rebuild
      dsimp only
      split <;> rfl
    rw [hrebuild, contains_buildAll]
    rfl
  · rfl

theorem intake_fireRefresh (e : Engine) (now : Nat) : (e.fireRefresh now).2.intake = e.intake := by
  unfold fireRefresh
  dsimp only
  split <;> rfl

theorem intake_answer (e : Engine) (r : Request) : (e.answer r).intake = e.intake := by
  rw [answer_eq]
  show { e.intake with tracked := (e.documents.build r.doc e.legend).2.contains } = e.intake
  rw [contains_build]
  rfl

/-- What every action does. -/
theorem move_intake (e : Engine) (a : Action) : e.intake.Move a (e.act parse a).2.intake := by
  -- A request is answered from what is there; each step comes down to one move.
  cases a with
  | request r =>
    show e.intake.Move _ (e.answer r).intake
    rw [intake_answer]
    exact .idle _
  | step s =>
    cases s with
    | event now event => exact move_handle parse e now event
    | takeRequests => exact .taken
    | startLoad language =>
      refine .advanced _ ?_
      show e.registry.Keeps (if e.registry.isEnabled language then _ else _)
      split
      · exact Registry.keeps_start _ language
      · exact fun _ _ h => h
    | finishLoad files language => exact .advanced _ (Registry.keeps_finish _ files language)
    | deliver now language outcome =>
      show e.intake.Move _ (e.finishLoading parse language outcome now).intake
      rw [intake_finishLoading]
      exact .delivered now language outcome
    | fire now =>
      show e.intake.Move _ ((e.fireRebuild now).fireRefresh now).2.intake
      rw [intake_fireRefresh, intake_fireRebuild]
      exact .idle _

end Engine

end SyntaxHighlight
