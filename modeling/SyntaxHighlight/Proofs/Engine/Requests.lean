import SyntaxHighlight.Proofs.Engine.Delivery

/-!
# Requests and what editors show

A request makes the highlights of a document on the spot. It sends nothing, and two runs that differ
in requests only agree on everything but kept highlights, debts, deadlines and counts: this is what
`Engine.forget` forgets (`Session.forget_run_unasked`).

Highlights that were made for a request look like those of a rebuild, though nobody owes them to the
editors. So a request that comes between a change and the rebuild leaves the editors behind, and
`Session.lastSent?_eq_unasked_iff` says that nothing else does.
-/

namespace SyntaxHighlight

/-! ### Forgetting highlights -/

def Document.forget (d : Document) : Document := { d with built := none }

theorem Document.forget_build (d : Document) (legend : Legend) :
    (d.build legend).2.forget = d.forget := by
  unfold build
  split <;> rfl

namespace Documents

/-- Documents are determined by what is tracked under each name. -/
theorem ext_get? {ds es : Documents} (h : ∀ doc, ds.get? doc = es.get? doc) : ds = es := by
  cases ds
  cases es
  exact congrArg mk (NameMap.ext_find? h)

def forget (ds : Documents) : Documents := ⟨ds.byId.mapValues (·.forget)⟩

@[simp] theorem get?_forget (ds : Documents) (doc : DocumentName) :
    ds.forget.get? doc = (ds.get? doc).map (·.forget) :=
  NameMap.find?_mapValues ds.byId _ doc

@[simp] theorem forget_forget (ds : Documents) : ds.forget.forget = ds.forget := by
  apply ext_get?
  intro doc
  rw [get?_forget, get?_forget, Option.map_map]
  rfl

theorem forget_track (ds : Documents) (parse : Parse) (doc : DocumentName) (language : Language)
    (text : String) :
    (ds.track parse doc language text).forget =
      (ds.forget.track parse doc language text).forget := by
  apply ext_get?
  intro other
  simp only [get?_forget, get?_track]
  split
  · rfl
  · rw [Option.map_map]
    rfl

theorem forget_close (ds : Documents) (doc : DocumentName) :
    (ds.close doc).2.forget = (ds.forget.close doc).2.forget := by
  apply ext_get?
  intro other
  simp only [get?_forget, get?_close]
  split
  · rfl
  · rw [Option.map_map]
    rfl

/-- Making highlights changes nothing but the highlights. -/
theorem forget_build (ds : Documents) (doc : DocumentName) (legend : Legend) :
    (ds.build doc legend).2.forget = ds.forget := by
  apply ext_get?
  intro other
  rw [get?_forget, get?_forget, get?_build]
  split
  · next heq =>
    rw [heq, Option.map_map]
    cases ds.get? doc with
    | none => rfl
    | some d => exact congrArg some (d.forget_build legend)
  · rfl

theorem forget_buildAll (ds : Documents) (legend : Legend) (docs : List DocumentName) :
    (Engine.buildAll ds legend docs).forget = ds.forget := by
  induction docs generalizing ds with
  | nil => rfl
  | cons doc rest ih => exact (ih (ds.build doc legend).2).trans (forget_build ds doc legend)

end Documents

/-- The engine without highlights, debts, deadlines and counts. -/
def Engine.forget (e : Engine) : Engine :=
  { e with
    documents := e.documents.forget
    owed := .empty
    schedule := .ofDelay 0
    stats := {} }

namespace Engine

@[simp] theorem forget_forget (e : Engine) : e.forget.forget = e.forget := by
  unfold forget
  dsimp only
  rw [Documents.forget_forget]

/-- Apart from what is forgotten, tracking a document changes nothing but the documents. -/
theorem forget_track (e : Engine) (parse : Parse) (doc : DocumentName) (language : Language)
    (text : String) (now : Nat) :
    (e.track parse doc language text now).forget =
      { e.forget with documents := (e.documents.track parse doc language text).forget } := by
  unfold track
  dsimp only
  split <;> rfl

/-- What a step does to the rest of an engine does not depend on what is forgotten. -/
theorem forget_track_forget (e : Engine) (parse : Parse) (doc : DocumentName) (language : Language)
    (text : String) (now : Nat) :
    (e.track parse doc language text now).forget =
      (e.forget.track parse doc language text now).forget := by
  rw [forget_track, forget_track, forget_forget, Documents.forget_track]
  rfl

theorem forget_openDocument (e : Engine) (parse : Parse) (doc : DocumentName)
    (language : LanguageId) (text : String) (now : Nat) :
    (e.openDocument parse doc language text now).forget =
      (e.forget.openDocument parse doc language text now).forget := by
  have hregistry : e.forget.registry = e.registry := rfl
  unfold openDocument
  rw [hregistry]
  split
  · split
    · exact forget_track_forget { e with loading := e.loading.erase doc } parse doc _ text now
    · exact (forget_forget { e with loading := e.loading.erase doc }).symm
    · exact (forget_forget (await { e with loading := e.loading.erase doc } doc _ text)).symm
  · exact (forget_forget e).symm

theorem forget_changeDocument (e : Engine) (parse : Parse) (doc : DocumentName) (text : String)
    (edits : List Edit) (now : Nat) :
    (e.changeDocument parse doc text edits now).forget =
      (e.forget.changeDocument parse doc text edits now).forget := by
  have hloading : e.forget.loading = e.loading := rfl
  have hdocuments : e.forget.documents = e.documents.forget := rfl
  unfold changeDocument
  rw [hloading, hdocuments]
  -- Whether a document waits or is tracked, and whether there were edits, is seen without the
  -- highlights.
  split
  · next waiting hw =>
    split
    · exact (forget_forget e).symm
    · exact (forget_forget { e with loading := _ }).symm
  · cases hd : e.documents.get? doc with
    | none =>
      have hd' : e.documents.forget.get? doc = none := by rw [Documents.get?_forget, hd]; rfl
      rw [Documents.edit_of_none hd, Documents.edit_of_none hd']
      exact (forget_forget e).symm
    | some d =>
      have hd' : e.documents.forget.get? doc = some d.forget := by
        rw [Documents.get?_forget, hd]; rfl
      cases edits with
      | nil =>
        rw [Documents.edit_nil hd, Documents.edit_nil hd']
        exact (forget_forget e).symm
      | cons edit edits =>
        rw [Documents.edit_cons hd, Documents.edit_cons hd']
        exact forget_track_forget e parse doc d.language text now

theorem forget_closeDocument (e : Engine) (doc : DocumentName) :
    (e.closeDocument doc).forget = (e.forget.closeDocument doc).forget := by
  have hclosed (e : Engine) : (e.closeDocument doc).forget =
      { e.forget with
        loading := e.loading.erase doc
        documents := (e.documents.close doc).2.forget } := by
    unfold closeDocument
    dsimp only
    split <;> rfl
  rw [hclosed, hclosed, forget_forget, Documents.forget_close]
  rfl

theorem forget_setVisible (e : Engine) (editors : List Editor) (now : Nat) :
    (e.setVisible editors now).forget = (e.forget.setVisible editors now).forget := by
  have hshown (e : Engine) : (e.setVisible editors now).forget =
      { e.forget with visible := editors } := by
    unfold setVisible
    split
    · next hsame => rw [hsame]; rfl
    · dsimp only
      split <;> rfl
  rw [hshown, hshown, forget_forget]

theorem forget_setSettings (e : Engine) (settings : Settings) (now : Nat) :
    (e.setSettings settings now).forget = (e.forget.setSettings settings now).forget := by
  have henabled (e : Engine) : (e.setSettings settings now).forget =
      { e.forget with
        registry := e.registry.setEnabled settings.languages
        enabledTerms := settings.enabledTerms } := by
    unfold setSettings
    dsimp only
    split
    · next hsame => rw [hsame]; rfl
    · split <;> rfl
  rw [henabled, henabled, forget_forget]
  rfl

/-- What an event does to an engine, up to what requests may change, depends on the engine up to
that. -/
theorem forget_handle (e : Engine) (parse : Parse) (now : Nat) (event : Event) :
    (e.handle parse now event).forget = (e.forget.handle parse now event).forget := by
  cases event with
  | opened doc language text => exact forget_openDocument e parse doc language text now
  | changed doc text edits => exact forget_changeDocument e parse doc text edits now
  | closed doc => exact forget_closeDocument e doc
  | visibleEditors editors => exact forget_setVisible e editors now
  | settingsChanged settings => exact forget_setSettings e settings now

/-- Documents that are released one by one, in two engines that differ in what is forgotten. -/
theorem forget_foldl_release (parse : Parse) (language : Language) (now : Nat)
    (waiting : List (DocumentName × String)) {e f : Engine} (h : e.forget = f.forget) :
    (waiting.foldl (release parse language now) e).forget =
      (waiting.foldl (release parse language now) f).forget := by
  induction waiting generalizing e f with
  | nil => exact h
  | cons w rest ih =>
    apply ih
    have hloading : ({ e with loading := e.loading.erase w.1 } : Engine).forget =
        ({ f with loading := f.loading.erase w.1 } : Engine).forget := by
      show { e.forget with loading := e.forget.loading.erase w.1 } =
        { f.forget with loading := f.forget.loading.erase w.1 }
      rw [h]
    rw [release, release, forget_track_forget, hloading, ← forget_track_forget]

/-- A delivery does not look at what requests may change. -/
theorem forget_finishLoading (e : Engine) (parse : Parse) (language : LanguageId)
    (outcome : Outcome) (now : Nat) :
    (e.finishLoading parse language outcome now).forget =
      (e.forget.finishLoading parse language outcome now).forget := by
  cases outcome with
  | error _ =>
    show _ = (forget { e.forget with loading := _, requested := _ })
    exact (forget_forget (finishLoading e parse language _ now)).symm
  | ok loaded => exact forget_foldl_release parse loaded now _ (forget_forget e).symm

/-- Firing the stages changes nothing but what is forgotten. -/
theorem forget_fire (e : Engine) (now : Nat) : (e.fire now).2.forget = e.forget := by
  -- A rebuild and a refresh add to what is forgotten.
  have hrebuild : (e.fireRebuild now).forget = e.forget := by
    unfold fireRebuild
    dsimp only
    split
    · unfold rebuild
      dsimp only
      split
      · exact congrArg (fun ds => { e.forget with documents := ds })
          (Documents.forget_buildAll e.documents e.legend _)
      · exact congrArg (fun ds => { e.forget with documents := ds })
          (Documents.forget_buildAll e.documents e.legend _)
    · rfl
  rw [← hrebuild]
  show ((e.fireRebuild now).fireRefresh now).2.forget = _
  unfold fireRefresh
  dsimp only
  split <;> rfl

/-- What a step does to the rest of an engine does not depend on what is forgotten. -/
theorem forget_step (e : Engine) (parse : Parse) (s : Step) :
    (e.step parse s).2.forget = (e.forget.step parse s).2.forget := by
  cases s with
  | event now event => exact forget_handle e parse now event
  | takeRequests => exact (forget_forget (e.takeRequests).2).symm
  | startLoad language => exact (forget_forget { e with registry := _ }).symm
  | finishLoad files language => exact (forget_forget { e with registry := _ }).symm
  | deliver now language outcome => exact forget_finishLoading e parse language outcome now
  | fire now =>
    show (e.fire now).2.forget = (e.forget.fire now).2.forget
    rw [forget_fire, forget_fire, forget_forget]

/-- A request changes nothing but what is forgotten. -/
theorem forget_answer (e : Engine) (r : Request) : (e.answer r).forget = e.forget := by
  rw [answer_eq]
  exact congrArg (fun ds => { e.forget with documents := ds })
    (Documents.forget_build e.documents r.doc e.legend)

end Engine

namespace Session

def unasked (actions : List Action) : List Action := (actions.filterMap Action.step?).map .step

/-- Two runs that differ in requests only differ only in what is forgotten. -/
theorem forget_run_unasked (parse : Parse) (actions : List Action) {s t : Session}
    (h : s.engine.forget = t.engine.forget) :
    (s.run parse actions).engine.forget = (t.run parse (unasked actions)).engine.forget := by
  induction actions generalizing s t with
  | nil => exact h
  | cons a rest ih =>
    cases a with
    | request r =>
      have hanswer : (s.act parse (.request r)).engine.forget = t.engine.forget :=
        (s.engine.forget_answer r).trans h
      exact ih hanswer
    | step step =>
      have hstep : (s.act parse (.step step)).engine.forget =
          (t.act parse (.step step)).engine.forget := by
        show (s.engine.step parse step).2.forget = (t.engine.step parse step).2.forget
        rw [Engine.forget_step, h, ← Engine.forget_step]
      exact ih hstep

end Session

/-! ### The editors that a request leaves behind -/

namespace Display

/-- A document that awaits the rebuild has nothing to be done for it once it was asked for. -/
theorem Awaits.quiet_asked {v : Display} {doc : DocumentName} (h : v.Awaits doc) :
    (v.asked doc).Quiet doc := by
  obtain ⟨⟨_, d, hd, _⟩, hunowed⟩ := h
  refine ⟨⟨(d.build v.legend).2, (d.build v.legend).1, ?_, d.built_build v.legend⟩, hunowed⟩
  rw [asked, Documents.get?_build, if_pos rfl, hd]
  rfl

/-- A rebuild does not owe a document that has highlights. -/
theorem Quiet.unowed_of_rebuilds {v w : Display} {doc : DocumentName} (h : Rebuilds v w)
    (hv : v.Quiet doc) : w.owed.contains doc = false := by
  obtain ⟨⟨d, b, hd, hb⟩, hunowed⟩ := hv
  cases h with
  | idle => exact hunowed
  | due docs hdocs deadline =>
    rw [NameSet.contains_insertAll, hunowed, Bool.or_false, decide_eq_false_iff_not]
    intro hmem
    obtain ⟨_, d', hd', hdirty⟩ := (hdocs doc).1 hmem
    rw [hd] at hd'
    obtain rfl := Option.some.inj hd'
    rw [hb] at hdirty
    cases hdirty

/-- While nothing is to be done for a document, nothing is sent to its editors. -/
theorem Quiet.ne_of_move {parse : Parse} {v w : Display} {a : Action} {pushes : List Push}
    {doc : DocumentName} (hv : v.Quiet doc) (h : Move parse v a pushes w) {p : Push}
    (hp : p ∈ pushes) : p.editor.doc ≠ doc := by
  cases h with
  | changed => cases hp
  | asked => cases hp
  | fired hrebuilds hrefreshes =>
    cases hrefreshes with
    | idle => cases hp
    | due hpushes =>
      rintro rfl
      obtain ⟨_, howed, _⟩ := (hpushes p).1 hp
      rw [hv.unowed_of_rebuilds hrebuilds] at howed
      cases howed

end Display

namespace Session

/-- A document that is overlooked has highlights, and its editors wait for nothing. -/
theorem OverlookedSince.quiet {parse : Parse} {start : Session} {doc : DocumentName}
    {before actions : List Action} (h : OverlookedSince parse start doc before actions) :
    (start.run parse actions).engine.display.Quiet doc := by
  cases h with
  | kept _ hquiet => exact hquiet
  | @asked r hdoc hawaits =>
    rw [run_concat]
    show ((start.run parse before).engine.answer r).display.Quiet doc
    rw [Engine.display_answer, hdoc]
    exact hawaits.quiet_asked

/-- An editor that is left behind shows what it showed when it was. -/
theorem OverlookedSince.lastSent?_eq {parse : Parse} {start : Session} {editor : Editor}
    {before actions : List Action}
    (h : OverlookedSince parse start editor.doc before actions) :
    (start.run parse actions).lastSent? editor = (start.run parse before).lastSent? editor := by
  induction h with
  | asked =>
    rw [run_concat]
    exact lastSent?_act_of_forall_ne fun p hp => absurd hp List.not_mem_nil
  | @kept actions a hover _ ih =>
    rw [run_concat, ← ih]
    apply lastSent?_act_of_forall_ne
    rintro p hp rfl
    exact hover.quiet.ne_of_move (Engine.move_act parse _ a) hp rfl

/-- **What requests disturb.** Take a run and the same run without its requests, both with no
deadline left. An editor on screen was last sent the same in both, unless a request for its document
came between a change and the rebuild that was to follow, and there was nothing to be done for the
document ever since. Then it was last sent the same only if it had been sent that already. -/
theorem lastSent?_eq_unasked_iff (parse : Parse) (registry : Registry) (settings : Settings)
    (actions : List Action) {s t : Session}
    (hs : s = (create registry settings).run parse actions)
    (ht : t = (create registry settings).run parse (unasked actions))
    (hidle : s.engine.deadline? = none) (hidle' : t.engine.deadline? = none) {editor : Editor}
    (hvisible : editor ∈ s.engine.visible) {d : Document}
    (hd : s.engine.documents.get? editor.doc = some d) :
    s.lastSent? editor = t.lastSent? editor ↔
      ∀ before, OverlookedSince parse (create registry settings) editor.doc before actions →
        ((create registry settings).run parse before).lastSent? editor =
          some ((d.freshBuckets parse s.engine.legend).filter s.engine.enabledTerms) := by
  have hforget : s.engine.forget = t.engine.forget := by
    rw [hs, ht]
    exact forget_run_unasked parse actions rfl
  have hterms : t.engine.enabledTerms = s.engine.enabledTerms :=
    (congrArg (·.enabledTerms) hforget).symm
  have hlegend : t.engine.legend = s.engine.legend := (congrArg (·.legend) hforget).symm
  have hvisible' : editor ∈ t.engine.visible := by
    have : s.engine.visible = t.engine.visible := congrArg (·.visible) hforget
    rwa [this] at hvisible
  -- Both runs track the document with the same language and text.
  obtain ⟨d', hd', hsame⟩ : ∃ d', t.engine.documents.get? editor.doc = some d' ∧
      d'.forget = d.forget := by
    have hdocuments : t.engine.documents.forget = s.engine.documents.forget :=
      (congrArg (·.documents) hforget).symm
    have hget := Documents.get?_forget t.engine.documents editor.doc
    rw [hdocuments, Documents.get?_forget, hd] at hget
    exact Option.map_eq_some_iff.1 hget.symm
  have hfresh : d'.freshBuckets parse t.engine.legend = d.freshBuckets parse s.engine.legend := by
    rw [hlegend]
    show d'.forget.freshBuckets parse _ = d.forget.freshBuckets parse _
    rw [hsame]
  have hbase : t.lastSent? editor =
      some ((d.freshBuckets parse s.engine.legend).filter s.engine.enabledTerms) := by
    have hsent := (lastSent?_of_rests ht (rests_of_idle ht hidle' hvisible' hd')).resolve_right
      (not_overlookedSince_steps parse _ _ _)
    rwa [hfresh, hterms] at hsent
  rw [hbase]
  constructor
  · intro hsent before hover
    rw [← hover.lastSent?_eq, ← hs]
    exact hsent
  · intro hsent
    rcases lastSent?_of_rests hs (rests_of_idle hs hidle hvisible hd) with
      hcurrent | ⟨before, hover⟩
    · exact hcurrent
    · rw [hs, hover.lastSent?_eq, ← hs]
      exact hsent before hover

theorem lastSent?_eq_unasked_iff_asking :
    ∃ s t d, s = (create Sample.registry Sample.settings).run Sample.parse Sample.asking ∧
      t = (create Sample.registry Sample.settings).run Sample.parse (unasked Sample.asking) ∧
      s.engine.deadline? = none ∧ t.engine.deadline? = none ∧ ⟨1, "a"⟩ ∈ s.engine.visible ∧
      s.engine.documents.get? "a" = some d ∧
      (s.lastSent? ⟨1, "a"⟩ = t.lastSent? ⟨1, "a"⟩ ↔
        ∀ before, OverlookedSince Sample.parse (create Sample.registry Sample.settings) "a" before
            Sample.asking →
          ((create Sample.registry Sample.settings).run Sample.parse before).lastSent? ⟨1, "a"⟩ =
            some ((d.freshBuckets Sample.parse s.engine.legend).filter s.engine.enabledTerms)) :=
  ⟨_, _, _, rfl, rfl, by decide, by decide, by decide, rfl,
    lastSent?_eq_unasked_iff Sample.parse Sample.registry Sample.settings Sample.asking rfl rfl
      (by decide) (by decide) (by decide) rfl⟩

/-- A request between a change and the rebuild keeps the change from the editor for good: with the
request the editor is left with `1`, without it the editor is sent `12`. -/
theorem request_leaves_editor_behind :
    ∃ s t, s = (create Sample.registry Sample.settings).run Sample.parse Sample.asking ∧
      t = (create Sample.registry Sample.settings).run Sample.parse (unasked Sample.asking) ∧
      s.engine.deadline? = none ∧ t.engine.deadline? = none ∧ ⟨1, "a"⟩ ∈ s.engine.visible ∧
      s.engine.documents.contains "a" = true ∧
      s.lastSent? ⟨1, "a"⟩ ≠ t.lastSent? ⟨1, "a"⟩ :=
  ⟨_, _, rfl, rfl, by decide, by decide, by decide, by decide, by decide +kernel⟩

end Session

end SyntaxHighlight
