import Mathlib.Data.List.Induction
import SyntaxHighlight.Proofs.Engine.Burst
import SyntaxHighlight.Proofs.Engine.Outcomes

/-!
# The work of the stages and how it is counted

A rebuild goes from editor to editor and looks at the document of each. While it does so, documents
get highlights and become owed, so that what it finds at an editor depends on the editors before.
`Tour` is the state of such a tour, and `Engine.tour_eq` says what the tour comes to: it makes
the highlights of the documents of `Engine.dirtyVisible`, each at the first editor that shows it.

The counters of an engine never say which work they count. `Session.history` lists the passes of
both stages in a run, with the highlights that were made and the buckets that were sent in each.
Every action changes the counters by its own passes (`Engine.tally_act`), and hence a run does so by
its history (`Session.stage_work_is_counted`).
-/

namespace SyntaxHighlight

/-- The documents whose highlights are made when those of a document are asked for: the document
itself, or none if it is not tracked or has its highlights. -/
def Documents.makes (ds : Documents) (doc : DocumentName) : List DocumentName :=
  if (ds.get? doc).any (·.isDirty) then [doc] else []

/-! ### The tour of a rebuild -/

/-- What a rebuild has come to on its tour over the editors on screen. -/
structure Tour where
  documents : Documents
  owed : NameSet
  /-- The documents of the editors so far. -/
  seen : NameSet
  /-- The number of documents that were not passed over. -/
  rebuilt : Nat
  /-- The documents whose highlights were made, one entry for each time. -/
  made : List DocumentName

/-- A tour comes to an editor. It passes over a document that it has seen before, that is not
tracked or that has its highlights by now. -/
def Tour.visit (legend : Legend) (t : Tour) (editor : Editor) : Tour :=
  let doc := editor.doc
  if t.seen.contains doc || !t.documents.contains doc || t.documents.isFresh doc then
    { t with seen := t.seen.insert doc }
  else
    { documents := (t.documents.build doc legend).2
      owed := t.owed.insert doc
      seen := t.seen.insert doc
      rebuilt := t.rebuilt + 1
      made := t.made ++ t.documents.makes doc }

namespace Engine

def tour (e : Engine) (editors : List Editor) : Tour :=
  editors.foldl (Tour.visit e.legend) ⟨e.documents, e.owed, .empty, 0, []⟩

/-- A rebuild in one tour over the editors on screen, and the documents whose highlights it
makes. -/
def rebuildByEditor (e : Engine) (now : Nat) : List DocumentName × Engine :=
  let t := e.tour e.visible
  let e' := { e with
    documents := t.documents
    owed := t.owed
    stats := { e.stats with
      rebuildPasses := e.stats.rebuildPasses + 1
      documentsRebuilt := e.stats.documentsRebuilt + t.rebuilt } }
  (t.made, if 0 < t.rebuilt then e'.arm .refresh now else e')

/-- The documents of some editors that are tracked and out of date, each once. -/
def dirtyOf (e : Engine) (editors : List Editor) : List DocumentName :=
  { e with visible := editors }.dirtyVisible

/-- One more editor adds its document, unless an editor before it shows the same one or there is
nothing to make. -/
theorem dirtyOf_concat (e : Engine) (editors : List Editor) (editor : Editor) :
    e.dirtyOf (editors ++ [editor]) =
      if editor.doc ∈ editors.map (·.doc) then e.dirtyOf editors
      else if e.documents.contains editor.doc && !e.documents.isFresh editor.doc then
        e.dirtyOf editors ++ [editor.doc]
      else e.dirtyOf editors := by
  unfold dirtyOf dirtyVisible
  dsimp only
  rw [List.map_append, List.map_singleton, eraseDups_concat]
  split
  · rfl
  · rw [List.filter_append, List.filter_singleton]
    cases e.documents.contains editor.doc && !e.documents.isFresh editor.doc with
    | true => rfl
    | false => apply List.append_nil

theorem buildAll_concat (ds : Documents) (legend : Legend) (docs : List DocumentName)
    (doc : DocumentName) :
    buildAll ds legend (docs ++ [doc]) = ((buildAll ds legend docs).build doc legend).2 := by
  rw [buildAll, List.foldl_append]
  rfl

/-- A tour makes the highlights of the documents that were out of date before it, each once. -/
theorem tour_eq (e : Engine) (editors : List Editor) :
    e.tour editors =
      { documents := buildAll e.documents e.legend (e.dirtyOf editors)
        owed := e.owed.insertAll (e.dirtyOf editors)
        seen := .ofList (editors.map (·.doc))
        rebuilt := (e.dirtyOf editors).length
        made := e.dirtyOf editors } := by
  induction editors using List.reverseRecOn with
  | nil => rfl
  | append_singleton editors editor ih =>
    have htour : e.tour (editors ++ [editor]) = (e.tour editors).visit e.legend editor := by
      rw [tour, List.foldl_append]
      rfl
    have hseen : NameSet.ofList ((editors ++ [editor]).map (·.doc)) =
        (NameSet.ofList (editors.map (·.doc))).insert editor.doc := by
      rw [List.map_append, List.map_singleton]
      exact NameSet.insertAll_concat _ _ _
    rw [htour, ih, Tour.visit, dirtyOf_concat, hseen, NameSet.contains_ofList]
    dsimp only
    by_cases hold : editor.doc ∈ editors.map (·.doc)
    · rw [if_pos (by simp [hold]), if_pos hold]
    -- A document that comes up for the first time is still as it was before the tour.
    have hnew : editor.doc ∉ e.dirtyOf editors := fun h => hold (mem_dirtyVisible.1 h).1
    have hget : (buildAll e.documents e.legend (e.dirtyOf editors)).get? editor.doc =
        e.documents.get? editor.doc := by
      rw [get?_buildAll, if_neg hnew]
    have hskip : (decide (editor.doc ∈ editors.map (·.doc)) ||
          !(buildAll e.documents e.legend (e.dirtyOf editors)).contains editor.doc ||
          (buildAll e.documents e.legend (e.dirtyOf editors)).isFresh editor.doc) =
        !(e.documents.contains editor.doc && !e.documents.isFresh editor.doc) := by
      simp only [Documents.contains_eq_isSome, Documents.isFresh, hget, hold, decide_false,
        Bool.false_or, Bool.not_and, Bool.not_not]
    rw [if_neg hold, hskip]
    cases hdirty : e.documents.contains editor.doc && !e.documents.isFresh editor.doc with
    | false => rfl
    | true =>
      have hmakes : (buildAll e.documents e.legend (e.dirtyOf editors)).makes editor.doc =
          [editor.doc] := by
        rw [Documents.contains_eq_isSome, Documents.isFresh] at hdirty
        rw [Documents.makes, hget]
        cases hd : e.documents.get? editor.doc with
        | none => simp [hd] at hdirty
        | some d => simpa [hd] using hdirty
      simp [hmakes, buildAll_concat, NameSet.insertAll_concat]

/-- Going from editor to editor comes to the same as finding the documents first. -/
theorem rebuildByEditor_eq (e : Engine) (now : Nat) :
    e.rebuildByEditor now = (e.dirtyVisible, e.rebuild now) := by
  have hdirty : e.dirtyOf e.visible = e.dirtyVisible := rfl
  unfold rebuildByEditor rebuild
  rw [tour_eq, hdirty]
  cases e.dirtyVisible <;> rfl

end Engine

/-! ### Passes -/

/-- A pass of a stage, with the engine before and after it: the documents whose highlights were made
in a rebuild, or what was sent to editors in a refresh. -/
inductive Pass where
  | rebuild (now : Nat) (before after : Engine) (made : List DocumentName)
  | refresh (before after : Engine) (pushes : List Push)

namespace Pass

def stage : Pass → Stage
  | rebuild _ _ _ _ => .rebuild
  | refresh _ _ _ => .refresh

def made : Pass → List DocumentName
  | rebuild _ _ _ made => made
  | refresh _ _ _ => []

def pushes : Pass → List Push
  | rebuild _ _ _ _ => []
  | refresh _ _ pushes => pushes

end Pass

namespace Engine

/-- A rebuild makes the highlights of the documents that are on screen, tracked and out of date,
each once. -/
structure RebuildsExactly (now : Nat) (before after : Engine) (made : List DocumentName) :
    Prop where
  /-- It goes from editor to editor. -/
  walked : before.rebuildByEditor now = (made, after)
  once : made.Nodup
  exactly : ∀ doc, doc ∈ made ↔ before.isVisible doc = true ∧
    before.documents.contains doc = true ∧ before.documents.isFresh doc = false
  highlighted : ∀ doc ∈ made, ∃ d, before.documents.get? doc = some d ∧
    after.documents.get? doc = some { d with built := some (d.highlight before.legend) }
  untouched : ∀ doc, doc ∉ made → after.documents.get? doc = before.documents.get? doc

/-- A refresh sends buckets once for each entry of the editors on screen whose document is owed and
has its highlights, in the order of the editors, and then nothing is owed. -/
structure RefreshesExactly (before after : Engine) (pushes : List Push) : Prop where
  editors : pushes.map (·.editor) = before.visible.filter fun editor =>
    before.isOwed editor.doc && before.documents.isFresh editor.doc
  paid : ∀ doc, after.isOwed doc = false

def rebuildPass (e : Engine) (now : Nat) : List Pass :=
  let (due, schedule) := e.schedule.expire .rebuild now
  if due then
    let before := { e with schedule }
    [.rebuild now before (e.fireRebuild now) (before.rebuildByEditor now).1]
  else []

def refreshPass (e : Engine) (now : Nat) : List Pass :=
  let (due, schedule) := e.schedule.expire .refresh now
  if due then [.refresh { e with schedule } (e.fireRefresh now).2 (e.fireRefresh now).1] else []

def passesIn (e : Engine) : Action → List Pass
  | .step (.fire now) => e.rebuildPass now ++ (e.fireRebuild now).refreshPass now
  | _ => []

/-! ### Each pass does its work and no other -/

theorem isVisible_iff {e : Engine} {doc : DocumentName} :
    e.isVisible doc = true ↔ doc ∈ e.visible.map (·.doc) := by
  simp [isVisible]

/-- A rebuild makes highlights for the documents that are on screen and out of date, and leaves the
others. -/
theorem get?_rebuild (e : Engine) (now : Nat) (doc : DocumentName) :
    (e.rebuild now).documents.get? doc =
      if doc ∈ e.dirtyVisible then (e.documents.get? doc).map fun d => (d.build e.legend).2
      else e.documents.get? doc := by
  have hdocuments : (e.rebuild now).documents =
      buildAll e.documents e.legend e.dirtyVisible :=
    congrArg Display.documents (e.display_rebuild now)
  rw [hdocuments, get?_buildAll]

/-- A rebuild does exactly its work. -/
theorem rebuildsExactly (e : Engine) (now : Nat) :
    RebuildsExactly now e (e.rebuild now) (e.rebuildByEditor now).1 := by
  -- The tour over the editors comes to the documents that the rebuild goes through.
  rw [rebuildByEditor_eq]
  constructor
  case walked => exact rebuildByEditor_eq e now
  case once => exact e.nodup_dirtyVisible
  case exactly =>
    intro doc
    rw [dirtyVisible, List.mem_filter, List.mem_eraseDups, isVisible_iff]
    simp
  case highlighted =>
    intro doc hdoc
    obtain ⟨-, d, hd, hdirty⟩ := mem_dirtyVisible.1 hdoc
    refine ⟨d, hd, ?_⟩
    rw [get?_rebuild, if_pos hdoc, hd, Option.map_some, Document.build, hdirty]
  case untouched =>
    intro doc hdoc
    rw [get?_rebuild, if_neg hdoc]

/-- Whether a refresh sends something to an editor. -/
theorem map_editor_push? (e : Engine) (editor : Editor) :
    (e.push? editor).map (·.editor) =
      Option.guard (fun editor => e.isOwed editor.doc && e.documents.isFresh editor.doc)
        editor := by
  unfold push? Documents.isFresh Document.isDirty Option.guard
  cases howed : e.isOwed editor.doc with
  | false => simp [howed]
  | true =>
    cases hd : e.documents.get? editor.doc with
    | none => simp [hd]
    | some d => cases hbuilt : d.built <;> simp [howed, hd, hbuilt]

/-- A refresh does exactly its work. -/
theorem refreshesExactly (e : Engine) : RefreshesExactly e e.refresh.2 e.refresh.1 := by
  constructor
  case editors =>
    show (e.visible.filterMap e.push?).map (·.editor) = _
    rw [List.map_filterMap, funext e.map_editor_push?, List.filterMap_eq_filter]
  case paid =>
    intro doc
    rfl

end Engine

/-- A pass that does the work of its stage and no other. -/
def Pass.Exact : Pass → Prop
  | rebuild now before after made => Engine.RebuildsExactly now before after made
  | refresh before after pushes => Engine.RefreshesExactly before after pushes

@[ext]
structure Tally where
  passes : Stage → Nat
  made : Nat
  sent : Nat

def Engine.tally (e : Engine) : Tally where
  passes := e.passes
  made := e.stats.documentsRebuilt
  sent := e.stats.editorsRefreshed

namespace Engine

/-- A rebuild at a time has one pass if the timer is taken as due, and otherwise does nothing. -/
theorem rebuildPass_cases (e : Engine) (now : Nat) :
    (∃ before : Engine, e.fireRebuild now = before.rebuild now ∧ before.tally = e.tally ∧
      e.rebuildPass now =
        [.rebuild now before (before.rebuild now) (before.rebuildByEditor now).1]) ∨
    (e.fireRebuild now = e ∧ e.rebuildPass now = []) := by
  unfold rebuildPass fireRebuild
  cases e.schedule.expire .rebuild now with
  | mk due schedule =>
    cases due with
    | true => exact .inl ⟨{ e with schedule }, rfl, rfl, rfl⟩
    | false => exact .inr ⟨rfl, rfl⟩

/-- A refresh at a time has one pass if the timer is taken as due, and otherwise does nothing. -/
theorem refreshPass_cases (e : Engine) (now : Nat) :
    (∃ before : Engine, e.fireRefresh now = before.refresh ∧ before.tally = e.tally ∧
      e.refreshPass now = [.refresh before before.refresh.2 before.refresh.1]) ∨
    (e.fireRefresh now = ([], e) ∧ e.refreshPass now = []) := by
  unfold refreshPass fireRefresh
  cases e.schedule.expire .refresh now with
  | mk due schedule =>
    cases due with
    | true => exact .inl ⟨{ e with schedule }, rfl, rfl, rfl⟩
    | false => exact .inr ⟨rfl, rfl⟩

/-- Every pass in an action does exactly the work of its stage. -/
theorem exact_of_mem_passesIn {e : Engine} {a : Action} {p : Pass} (h : p ∈ e.passesIn a) :
    p.Exact := by
  unfold passesIn at h
  split at h
  · next now =>
    rcases List.mem_append.1 h with hrebuild | hrefresh
    · -- Either stage has one pass if it is due, and none otherwise.
      obtain ⟨before, -, -, hpass⟩ | ⟨-, hpass⟩ := e.rebuildPass_cases now <;>
        rw [hpass] at hrebuild
      · rw [List.mem_singleton.1 hrebuild]
        apply rebuildsExactly
      · cases hrebuild
    · obtain ⟨before, -, -, hpass⟩ | ⟨-, hpass⟩ := (e.fireRebuild now).refreshPass_cases now <;>
        rw [hpass] at hrefresh
      · rw [List.mem_singleton.1 hrefresh]
        apply refreshesExactly
      · cases hrefresh
  · cases h

end Engine

/-! ### What is counted -/

def Tally.after (t : Tally) (passes : List Pass) : Tally where
  passes stage := t.passes stage + passes.countP (·.stage = stage)
  made := t.made + (passes.flatMap (·.made)).length
  sent := t.sent + (passes.flatMap (·.pushes)).length

theorem Tally.after_append (t : Tally) (early late : List Pass) :
    t.after (early ++ late) = (t.after early).after late := by
  simp [after, Nat.add_assoc]

namespace Engine

variable (parse : Parse)

theorem tally_track (e : Engine) (doc : DocumentName) (language : Language) (text : String)
    (now : Nat) : (e.track parse doc language text now).tally = e.tally := by
  unfold track
  dsimp only
  split <;> rfl

/-- No event is a pass of a stage. -/
theorem tally_handle (e : Engine) (now : Nat) (event : Event) :
    (e.handle parse now event).tally = e.tally := by
  -- Whatever happens, a document is tracked or dropped, or a timer is armed.
  cases event with
  | opened doc language text =>
    show (e.openDocument parse doc language text now).tally = e.tally
    unfold openDocument
    dsimp only
    split
    · split
      · apply tally_track
      · rfl
      · rfl
    · rfl
  | changed doc text edits =>
    show (e.changeDocument parse doc text edits now).tally = e.tally
    unfold changeDocument
    dsimp only
    split
    · split <;> rfl
    · split
      · split <;> rfl
      · rfl
      · rfl
  | closed doc =>
    show (e.closeDocument doc).tally = e.tally
    unfold closeDocument
    dsimp only
    split <;> rfl
  | visibleEditors editors =>
    show (e.setVisible editors now).tally = e.tally
    unfold setVisible
    dsimp only
    split
    · rfl
    · split <;> rfl
  | settingsChanged settings =>
    show (e.setSettings settings now).tally = e.tally
    unfold setSettings
    dsimp only
    split
    · rfl
    · split <;> rfl

theorem tally_finishLoading (e : Engine) (language : LanguageId) (outcome : Outcome) (now : Nat) :
    (e.finishLoading parse language outcome now).tally = e.tally := by
  cases outcome with
  | ok loaded => rw [finishLoading_ok]; rfl
  | error error => rfl

theorem tally_rebuild (e : Engine) (now : Nat) :
    (e.rebuild now).tally =
      e.tally.after [.rebuild now e (e.rebuild now) (e.rebuildByEditor now).1] := by
  have hstats : (e.rebuild now).stats =
      { e.stats with
        rebuildPasses := e.stats.rebuildPasses + 1
        documentsRebuilt := e.stats.documentsRebuilt + e.dirtyVisible.length } := by
    unfold rebuild
    dsimp only
    split <;> rfl
  rw [rebuildByEditor_eq, Tally.after, tally, hstats]
  ext stage
  · cases stage <;> simp [passes, hstats, tally, Pass.stage]
  · simp [tally, Pass.made]
  · rfl

theorem tally_refresh (e : Engine) :
    e.refresh.2.tally = e.tally.after [.refresh e e.refresh.2 e.refresh.1] := by
  ext stage
  · cases stage <;> rfl
  · rfl
  · simp [Tally.after, Pass.pushes, refresh, tally]

/-- The rebuild stage counts its passes. -/
theorem tally_fireRebuild (e : Engine) (now : Nat) :
    (e.fireRebuild now).tally = e.tally.after (e.rebuildPass now) := by
  obtain ⟨before, hfire, htally, hpass⟩ | ⟨hfire, hpass⟩ := e.rebuildPass_cases now
  · rw [hfire, hpass, ← htally]
    apply tally_rebuild
  · rw [hfire, hpass]
    rfl

/-- The refresh stage counts its passes. -/
theorem tally_fireRefresh (e : Engine) (now : Nat) :
    (e.fireRefresh now).2.tally = e.tally.after (e.refreshPass now) := by
  obtain ⟨before, hfire, htally, hpass⟩ | ⟨hfire, hpass⟩ := e.refreshPass_cases now
  · rw [hfire, hpass, ← htally]
    apply tally_refresh
  · rw [hfire, hpass]
    rfl

/-- An action counts its own passes, and nothing else. -/
theorem tally_act (e : Engine) (a : Action) :
    (e.act parse a).2.tally = e.tally.after (e.passesIn a) := by
  cases a with
  | request r => rw [act, answer_eq]; rfl
  | step s =>
    cases s with
    | event now event => apply tally_handle
    | deliver now language outcome => apply tally_finishLoading
    | fire now =>
      show ((e.fireRebuild now).fireRefresh now).2.tally = _
      rw [tally_fireRefresh, tally_fireRebuild, ← Tally.after_append]
      rfl
    | _ => rfl

/-- Whatever an action sends is sent in one of its passes. -/
theorem act_fst (e : Engine) (a : Action) :
    (e.act parse a).1 = (e.passesIn a).flatMap (·.pushes) := by
  cases a with
  | request r => rfl
  | step s =>
    cases s with
    | fire now =>
      -- A rebuild sends nothing, so that all pushes are those of the refresh.
      have hrebuild : (e.rebuildPass now).flatMap (·.pushes) = [] := by
        obtain ⟨before, -, -, hpass⟩ | ⟨-, hpass⟩ := e.rebuildPass_cases now <;>
          rw [hpass] <;> rfl
      show ((e.fireRebuild now).fireRefresh now).1 = _
      rw [passesIn, List.flatMap_append, hrebuild, List.nil_append]
      obtain ⟨before, hfire, -, hpass⟩ | ⟨hfire, hpass⟩ :=
        (e.fireRebuild now).refreshPass_cases now
      · rw [hfire, hpass, List.flatMap_singleton]
        rfl
      · rw [hfire, hpass]
        rfl
    | _ => rfl

end Engine

namespace Session

variable (parse : Parse)

/-- The passes of both stages in a run, the latest last. -/
def history (s : Session) : List Action → List Pass
  | [] => []
  | a :: rest => s.engine.passesIn a ++ (s.act parse a).history rest

/-- Every pass in a run does exactly the work of its stage. -/
theorem exact_of_mem_history {s : Session} {actions : List Action} {p : Pass}
    (h : p ∈ s.history parse actions) : p.Exact := by
  induction actions generalizing s with
  | nil => cases h
  | cons a rest ih =>
    rcases List.mem_append.1 h with hnow | hlater
    · exact Engine.exact_of_mem_passesIn hnow
    · exact ih hlater

/-- A run counts the passes of its history, and nothing else. -/
theorem tally_run (s : Session) (actions : List Action) :
    (s.run parse actions).engine.tally = s.engine.tally.after (s.history parse actions) := by
  induction actions generalizing s with
  | nil => rfl
  | cons a rest ih =>
    show ((s.act parse a).run parse rest).engine.tally = _
    rw [ih, history, Tally.after_append]
    congr 1
    exact s.engine.tally_act parse a

/-- A run sends what the passes of its history send. -/
theorem sent_run (s : Session) (actions : List Action) :
    (s.run parse actions).sent = s.sent ++ (s.history parse actions).flatMap (·.pushes) := by
  induction actions generalizing s with
  | nil => exact (List.append_nil _).symm
  | cons a rest ih =>
    show ((s.act parse a).run parse rest).sent = _
    rw [ih, history, List.flatMap_append, ← s.engine.act_fst parse a, ← List.append_assoc]
    rfl

/-- **Work is done once for a document and once for an editor, and is counted as it is done.** In
every run from a new engine:

* each rebuild pass makes the highlights of exactly the documents that are on screen, tracked and
  out of date, each once however many editors show it, and leaves all other documents as they are;
* each refresh pass sends buckets exactly once for each entry of the editors on screen whose
  document is owed and has its highlights, in the order of these entries, and then nothing is owed;
* the passes of a stage are counted as often as its timer was taken as due, the documents rebuilt as
  often as a rebuild pass made highlights, and the editors refreshed as often as buckets were
  sent. -/
theorem stage_work_is_counted (registry : Registry) (settings : Settings)
    (actions : List Action) :
    let passes := (create registry settings).history parse actions
    let s := (create registry settings).run parse actions
    (∀ p ∈ passes, p.Exact) ∧
    s.engine.stats.rebuildPasses = passes.countP (·.stage = .rebuild) ∧
    s.engine.stats.refreshPasses = passes.countP (·.stage = .refresh) ∧
    s.engine.stats.documentsRebuilt = (passes.flatMap (·.made)).length ∧
    s.engine.stats.editorsRefreshed = s.sent.length ∧
    s.sent = passes.flatMap (·.pushes) := by
  intro passes s
  -- The counters of an engine that has seen no event are zero.
  have htally : s.engine.tally = (Tally.mk (fun _ => 0) 0 0).after passes := by
    have hstart : (create registry settings).engine.tally = ⟨fun _ => 0, 0, 0⟩ := by
      ext stage
      · cases stage <;> rfl
      · rfl
      · rfl
    rw [← hstart]
    exact tally_run parse _ actions
  have hsent : s.sent = passes.flatMap (·.pushes) := sent_run parse _ actions
  refine ⟨fun p hp => exact_of_mem_history parse hp, ?_, ?_, ?_, ?_, hsent⟩
  · exact (congrFun (congrArg Tally.passes htally) .rebuild).trans (Nat.zero_add _)
  · exact (congrFun (congrArg Tally.passes htally) .refresh).trans (Nat.zero_add _)
  · exact (congrArg Tally.made htally).trans (Nat.zero_add _)
  · rw [hsent]
    exact (congrArg Tally.sent htally).trans (Nat.zero_add _)

end Session

namespace Sample

/-- Two editors show a document, and a third one another document that is never opened. -/
def sharing : List Action :=
  [.step (.event 0 (.opened "a" "digits" "1")),
    .step (.event 1 (.visibleEditors [⟨1, "a"⟩, ⟨2, "b"⟩, ⟨3, "a"⟩])),
    .step (.deliver 2 "digits" (.ok language)), .step (.fire 22), .step (.fire 42)]

end Sample

/-- The document is rebuilt once, and both of its editors are refreshed. -/
example :
    ((Session.create Sample.registry Sample.settings).history Sample.parse Sample.sharing).map
      (fun p => (p.stage, p.made, p.pushes.map (·.editor.id))) =
    [(.rebuild, ["a"], []), (.refresh, [], [1, 3])] := by
  decide

end SyntaxHighlight
