import Mathlib.Data.List.Induction
import SyntaxHighlight.Proofs.Engine.Coherence

/-!
# Nothing is lost between the two stages

A document on screen is in one of three situations. It has no highlights: then a rebuild is
planned, which makes them and owes them to the editors. It is owed: then a refresh is planned, which
sends it to the editors if it has highlights. Or it *rests*, and its editors have what they should
show. `Display.Planned` is the first two thirds of this, and `Session.rests_act` says how an editor
comes to rest:

* it was sent the buckets of its document just now, or
* it has rested before and nothing has changed for it, or
* its document had no highlights, was not owed, and the highlights were asked for.

The third way is the only one that leaves an editor behind. A run without requests never takes it,
so that there an editor rests with the current buckets of its document.
-/

namespace SyntaxHighlight

namespace Display

/-- Whatever is to be done has a deadline. -/
structure Planned (v : Display) : Prop where
  rebuild : ∀ doc, v.Overdue doc → v.rebuildAt.isSome = true
  refresh : ∀ doc, v.owed.contains doc = true → v.refreshAt.isSome = true

/-- Nothing is to be done for a document: it has highlights and is not owed. -/
def Quiet (v : Display) (doc : DocumentName) : Prop :=
  (∃ d b, v.documents.get? doc = some d ∧ d.built = some b) ∧ v.owed.contains doc = false

/-- A document counts on the next rebuild to be owed to its editors. -/
def Awaits (v : Display) (doc : DocumentName) : Prop :=
  v.Overdue doc ∧ v.owed.contains doc = false

structure Rests (v : Display) (editor : Editor) (d : Document) : Prop where
  visible : editor ∈ v.visible
  get : v.documents.get? editor.doc = some d
  built : d.built.isSome = true
  unowed : v.owed.contains editor.doc = false

/-! ### Whatever is to be done stays planned -/

theorem mem_newcomers {v : Display} {editors : List Editor} {editor : Editor}
    (h : editor ∈ editors) (hnew : editor ∉ v.visible) : editor.doc ∈ v.newcomers editors := by
  refine List.mem_map.2 ⟨editor, List.mem_filter.2 ⟨h, ?_⟩, rfl⟩
  simpa using hnew

/-- No change leaves anything to be done without a deadline: whatever makes a document overdue or
owed arms the stage that deals with it. -/
theorem Planned.change {parse : Parse} {v w : Display} (h : Change parse v w) (hv : v.Planned) :
    w.Planned := by
  cases h with
  | renewed doc language text deadline =>
    -- Only this document has lost its highlights, and the rebuild is planned if it is on screen.
    refine ⟨?_, hv.refresh⟩
    rintro other ⟨hvisible, d, hd, hdirty⟩
    dsimp only at hvisible hd ⊢
    split
    · rfl
    · next hhidden =>
      have hne : other ≠ doc := by
        rintro rfl
        obtain ⟨editor, heditor, hdoc⟩ := List.mem_map.1 hvisible
        exact hhidden (List.any_eq_true.2 ⟨editor, heditor, by simpa using hdoc⟩)
      rw [Documents.get?_track, if_neg hne] at hd
      exact hv.rebuild other ⟨hvisible, d, hd, hdirty⟩
  | closed doc =>
    -- What is overdue or owed now was so before.
    constructor
    · rintro other ⟨hvisible, d, hd, hdirty⟩
      dsimp only at hvisible hd
      rw [Documents.get?_close] at hd
      split at hd
      · cases hd
      · exact hv.rebuild other ⟨hvisible, d, hd, hdirty⟩
    · intro other howed
      dsimp only at howed
      rw [NameSet.contains_erase, Bool.and_eq_true] at howed
      exact hv.refresh other howed.2
  | shown editors rebuildAt refreshAt =>
    refine ⟨?_, fun _ _ => rfl⟩
    rintro other ⟨hvisible, d, hd, hdirty⟩
    dsimp only at hvisible hd ⊢
    split
    · rfl
    · next hnone =>
      obtain ⟨editor, heditor, rfl⟩ := List.mem_map.1 hvisible
      -- An editor that was on screen before had its rebuild planned; for a newcomer it is planned
      -- now.
      by_cases hold : editor ∈ v.visible
      · exact hv.rebuild _ ⟨List.mem_map.2 ⟨editor, hold, rfl⟩, d, hd, hdirty⟩
      · refine absurd (List.any_eq_true.2 ⟨editor.doc, mem_newcomers heditor hold, ?_⟩) hnone
        rw [Documents.contains_eq_isSome, hd]
        rfl
  | enabled terms deadline =>
    -- The editors on screen are owed, and without any of them nothing changes.
    refine ⟨hv.rebuild, ?_⟩
    intro doc howed
    dsimp only at howed ⊢
    split
    · next hempty =>
      rw [List.isEmpty_iff.1 hempty] at howed
      exact hv.refresh doc (by simpa using howed)
    · rfl

/-- After a rebuild no document on screen is without highlights. -/
theorem Planned.rebuilds {v w : Display} (h : Rebuilds v w) (hv : v.Planned) : w.Planned := by
  cases h with
  | idle => exact hv
  | due docs hdocs deadline =>
    constructor
    · rintro doc ⟨hvisible, d, hd, hdirty⟩
      dsimp only at hvisible hd
      -- Every document that was overdue has its highlights now.
      rw [Engine.get?_buildAll] at hd
      split at hd
      · obtain ⟨d₀, _, rfl⟩ := Option.map_eq_some_iff.1 hd
        rw [Document.built_build] at hdirty
        cases hdirty
      · next hnot => exact absurd ((hdocs doc).2 ⟨hvisible, d, hd, hdirty⟩) hnot
    · -- If no document was overdue, what is owed was owed before.
      intro doc howed
      dsimp only at howed ⊢
      rw [NameSet.contains_insertAll, Bool.or_eq_true, decide_eq_true_eq] at howed
      split
      · next hempty =>
        rw [List.isEmpty_iff.1 hempty] at howed
        exact hv.refresh doc (howed.resolve_left List.not_mem_nil)
      · rfl

/-- What is owed after a refresh that was not due was owed before, and a refresh that was due leaves
nothing owed. -/
theorem Planned.refreshes {v w : Display} {pushes : List Push} (h : Refreshes v pushes w)
    (hv : v.Planned) : w.Planned := by
  cases h with
  | idle => exact hv
  | due hpushes =>
    refine ⟨hv.rebuild, ?_⟩
    intro doc howed
    cases howed

/-- Asking for highlights makes nothing overdue. -/
theorem Planned.asked {v : Display} (hv : v.Planned) (doc : DocumentName) :
    (v.asked doc).Planned := by
  refine ⟨?_, hv.refresh⟩
  rintro other ⟨hvisible, d, hd, hdirty⟩
  rw [Display.asked, Documents.get?_build] at hd
  split at hd
  · obtain ⟨d₀, hd₀, rfl⟩ := Option.map_eq_some_iff.1 hd
    rw [Document.built_build] at hdirty
    cases hdirty
  · exact hv.rebuild other ⟨hvisible, d, hd, hdirty⟩

/-! ### How an editor comes to rest -/

/-- No change lets an editor rest that has not rested before, and while it rests its document and
the enabled terms stay. -/
theorem Rests.of_change {parse : Parse} {v w : Display} {editor : Editor} {d : Document}
    (h : Change parse v w) (hw : w.Rests editor d) :
    v.Rests editor d ∧ w.enabledTerms = v.enabledTerms := by
  obtain ⟨hvisible, hd, hbuilt, hunowed⟩ := hw
  cases h with
  | renewed doc language text deadline =>
    -- A document that has a new text has no highlights, so the editor shows another one.
    dsimp only at hd
    rw [Documents.get?_track] at hd
    split at hd
    · obtain rfl := Option.some.inj hd
      cases hbuilt
    · exact ⟨⟨hvisible, hd, hbuilt, hunowed⟩, rfl⟩
  | closed doc =>
    dsimp only at hd hunowed
    rw [Documents.get?_close] at hd
    split at hd
    · cases hd
    · next hne =>
      rw [NameSet.contains_erase, decide_eq_false hne] at hunowed
      exact ⟨⟨hvisible, hd, hbuilt, by simpa using hunowed⟩, rfl⟩
  | shown editors rebuildAt refreshAt =>
    dsimp only at hvisible hunowed
    rw [NameSet.contains_insertAll, Bool.or_eq_false_iff, decide_eq_false_iff_not] at hunowed
    refine ⟨⟨?_, hd, hbuilt, hunowed.2⟩, rfl⟩
    -- A newcomer is owed and does not rest.
    by_cases hold : editor ∈ v.visible
    · exact hold
    · exact absurd (mem_newcomers hvisible hold) hunowed.1
  | enabled terms deadline =>
    dsimp only at hvisible hunowed
    rw [NameSet.contains_insertAll, Bool.or_eq_false_iff, decide_eq_false_iff_not] at hunowed
    -- All editors on screen are owed.
    exact absurd (List.mem_map.2 ⟨editor, hvisible, rfl⟩) hunowed.1

/-- An editor that rests after some changes has rested before them. -/
theorem Rests.of_changes {parse : Parse} {v w : Display} {editor : Editor} {d : Document}
    (h : Changes parse v w) (hw : w.Rests editor d) :
    v.Rests editor d ∧ w.enabledTerms = v.enabledTerms := by
  induction h with
  | refl => exact ⟨hw, rfl⟩
  | tail _ hlast ih =>
    obtain ⟨hx, hterms⟩ := hw.of_change hlast
    obtain ⟨hv, hterms'⟩ := ih hx
    exact ⟨hv, hterms.trans hterms'⟩

/-- The documents that a rebuild highlights are owed behind it, so their editors do not rest. -/
theorem Rests.of_rebuilds {v w : Display} {editor : Editor} {d : Document} (h : Rebuilds v w)
    (hw : w.Rests editor d) : v.Rests editor d ∧ w.enabledTerms = v.enabledTerms := by
  cases h with
  | idle => exact ⟨hw, rfl⟩
  | due docs hdocs deadline =>
    obtain ⟨hvisible, hd, hbuilt, hunowed⟩ := hw
    dsimp only at hd hunowed
    rw [NameSet.contains_insertAll, Bool.or_eq_false_iff, decide_eq_false_iff_not] at hunowed
    rw [Engine.get?_buildAll, if_neg hunowed.1] at hd
    exact ⟨⟨hvisible, hd, hbuilt, hunowed.2⟩, rfl⟩

/-- An editor that rests behind a refresh was either owed, and then it was sent the buckets of its
document, or it has rested before and was sent nothing. -/
theorem Rests.of_refreshes {v w : Display} {pushes : List Push} {editor : Editor} {d : Document}
    (h : Refreshes v pushes w) (hw : w.Rests editor d) :
    (∃ b, d.built = some b ∧ ⟨editor, b.buckets.filter w.enabledTerms⟩ ∈ pushes) ∨
    (v.Rests editor d ∧ w.enabledTerms = v.enabledTerms ∧ ∀ p ∈ pushes, p.editor ≠ editor) := by
  cases h with
  | idle => exact .inr ⟨hw, rfl, fun p hp => absurd hp List.not_mem_nil⟩
  | due hpushes =>
    obtain ⟨hvisible, hd, hbuilt, _⟩ := hw
    cases howed : v.owed.contains editor.doc with
    | true =>
      obtain ⟨b, hb⟩ := Option.isSome_iff_exists.1 hbuilt
      exact .inl ⟨b, hb, (hpushes _).2 ⟨hvisible, howed, d, b, hd, hb, rfl⟩⟩
    | false =>
      refine .inr ⟨⟨hvisible, hd, hbuilt, howed⟩, rfl, ?_⟩
      rintro p hp rfl
      obtain ⟨_, howed', _⟩ := (hpushes p).1 hp
      rw [howed] at howed'
      cases howed'

/-- All that a refresh sends to one editor is the same. -/
theorem Refreshes.eq_of_editor_eq {v w : Display} {pushes : List Push} (h : Refreshes v pushes w)
    {p q : Push} (hp : p ∈ pushes) (hq : q ∈ pushes) (heq : q.editor = p.editor) : q = p := by
  cases h with
  | idle => cases hp
  | due hpushes => exact ((hpushes p).1 hp).eq_of_editor_eq ((hpushes q).1 hq) heq

/-- Asking for the highlights of a document that awaits the rebuild lets its editors rest. -/
theorem Rests.of_asked {v : Display} {doc : DocumentName} {editor : Editor} {d : Document}
    (hw : (v.asked doc).Rests editor d) :
    v.Rests editor d ∨ (doc = editor.doc ∧ v.Awaits editor.doc) := by
  obtain ⟨hvisible, hd, hbuilt, hunowed⟩ := hw
  dsimp only [asked] at hvisible hd hunowed
  rw [Documents.get?_build] at hd
  split at hd
  · next heq =>
    obtain ⟨d₀, hd₀, rfl⟩ := Option.map_eq_some_iff.1 hd
    rw [← heq] at hd₀
    -- The highlights of this document were asked for: it had none and awaited the rebuild, or had
    -- them and is the same as before.
    cases hb : d₀.built with
    | none =>
      have hmem : editor.doc ∈ v.visible.map (·.doc) := List.mem_map.2 ⟨editor, hvisible, rfl⟩
      exact .inr ⟨heq.symm, ⟨hmem, d₀, hd₀, hb⟩, hunowed⟩
    | some b =>
      have hsame : (d₀.build v.legend).2 = d₀ := by rw [Document.build, hb]
      rw [hsame]
      exact .inl ⟨hvisible, hd₀, by rw [hb]; rfl, hunowed⟩
  · exact .inl ⟨hvisible, hd, hbuilt, hunowed⟩

end Display

namespace Session

/-- How an editor comes to rest: it was sent its buckets just now, or it rests on, or its document
was asked for while it awaited the rebuild. -/
theorem rests_act {parse : Parse} {s : Session} {a : Action} {editor : Editor} {d : Document}
    (h : (s.act parse a).engine.display.Rests editor d) :
    (∃ b, d.built = some b ∧ (s.act parse a).lastSent? editor =
      some (b.buckets.filter (s.act parse a).engine.enabledTerms)) ∨
    (s.engine.display.Rests editor d ∧
      (s.act parse a).engine.enabledTerms = s.engine.enabledTerms ∧
      (s.act parse a).lastSent? editor = s.lastSent? editor) ∨
    (∃ r, a = .request r ∧ r.doc = editor.doc ∧ s.engine.display.Awaits editor.doc) := by
  have hmove := s.engine.move_act parse a
  generalize hpushes : (s.engine.act parse a).1 = pushes at hmove
  generalize hdisplay : (s.engine.act parse a).2.display = w at hmove
  have hw : w.Rests editor d := hdisplay ▸ h
  have hterms : (s.act parse a).engine.enabledTerms = w.enabledTerms := by rw [← hdisplay]; rfl
  rw [hterms]
  -- What is left to show for an editor that was sent nothing.
  have rests_on (hv : s.engine.display.Rests editor d)
      (hsame : w.enabledTerms = s.engine.display.enabledTerms)
      (hnone : ∀ p ∈ pushes, p.editor ≠ editor) :
      s.engine.display.Rests editor d ∧ w.enabledTerms = s.engine.enabledTerms ∧
        (s.act parse a).lastSent? editor = s.lastSent? editor :=
    ⟨hv, hsame, lastSent?_act_of_forall_ne (by rw [hpushes]; exact hnone)⟩
  cases hmove with
  | changed hchanges =>
    obtain ⟨hv, hsame⟩ := hw.of_changes hchanges
    exact .inr (.inl (rests_on hv hsame fun p hp => absurd hp List.not_mem_nil))
  | fired hrebuilds hrefreshes =>
    rcases hw.of_refreshes hrefreshes with ⟨b, hb, hmem⟩ | ⟨hx, hsame, hnone⟩
    · refine .inl ⟨b, hb, ?_⟩
      rw [← hpushes] at hmem hrefreshes
      exact lastSent?_act_of_forall_eq hmem fun q hq heq => hrefreshes.eq_of_editor_eq hmem hq heq
    · obtain ⟨hv, hsame'⟩ := hx.of_rebuilds hrebuilds
      exact .inr (.inl (rests_on hv (hsame.trans hsame') hnone))
  | asked r =>
    rcases hw.of_asked with hv | ⟨hdoc, hawaits⟩
    · exact .inr (.inl (rests_on hv rfl fun p hp => absurd hp List.not_mem_nil))
    · exact .inr (.inr ⟨r, rfl, hdoc, hawaits⟩)

/-! ### Whole runs -/

/-- The editors of a document are left behind: after some actions its highlights were asked for
while it awaited the rebuild, and at no moment since then was there anything to be done for it. -/
inductive OverlookedSince (parse : Parse) (start : Session) (doc : DocumentName)
    (before : List Action) : List Action → Prop where
  | asked {r : Request} (hdoc : r.doc = doc)
      (hawaits : (start.run parse before).engine.display.Awaits doc) :
    OverlookedSince parse start doc before (before ++ [.request r])
  | kept {actions : List Action} {a : Action}
      (h : OverlookedSince parse start doc before actions)
      (hquiet : (start.run parse (actions ++ [a])).engine.display.Quiet doc) :
    OverlookedSince parse start doc before (actions ++ [a])

/-- Only a request can make a document overlooked. -/
theorem OverlookedSince.exists_request {parse : Parse} {start : Session} {doc : DocumentName}
    {before actions : List Action} (h : OverlookedSince parse start doc before actions) :
    ∃ r, .request r ∈ actions := by
  induction h with
  | asked => exact ⟨_, List.mem_append_right _ (List.mem_singleton.2 rfl)⟩
  | kept _ _ ih =>
    obtain ⟨r, hr⟩ := ih
    exact ⟨r, List.mem_append_left _ hr⟩

/-- Nobody is left behind without a request. -/
theorem not_overlookedSince_steps (parse : Parse) (start : Session) (doc : DocumentName)
    (steps : List Step) :
    ¬ ∃ before, OverlookedSince parse start doc before (steps.map .step) := by
  rintro ⟨before, hover⟩
  obtain ⟨r, hr⟩ := hover.exists_request
  obtain ⟨step, _, hstep⟩ := List.mem_map.1 hr
  cases hstep

/-- In every run, whatever is to be done has a deadline. -/
theorem run_planned (parse : Parse) (registry : Registry) (settings : Settings)
    (actions : List Action) :
    ((create registry settings).run parse actions).engine.display.Planned := by
  refine run_display (motive := (·.Planned)) (fun v w h hv => hv.change h)
    (fun v w h hv => hv.rebuilds h) (fun v pushes w h hv => hv.refreshes h)
    (fun v doc hv => hv.asked doc) ⟨?_, ?_⟩ actions
  · rintro doc ⟨hvisible, _⟩
    cases hvisible
  · intro doc howed
    cases howed

/-- An editor that rests has the current buckets of its document, unless it was left behind. -/
theorem lastSent?_of_rests {parse : Parse} {registry : Registry} {settings : Settings}
    {actions : List Action} {s : Session} (hs : s = (create registry settings).run parse actions)
    {editor : Editor} {d : Document} (hrests : s.engine.display.Rests editor d) :
    s.lastSent? editor = some ((d.freshBuckets parse s.engine.legend).filter s.engine.enabledTerms)
      ∨ ∃ before, OverlookedSince parse (create registry settings) editor.doc before actions := by
  have hlegend : s.engine.legend = .default := by rw [hs, run_legend]; rfl
  rw [hlegend]
  subst hs
  -- On the run from behind: an editor that rests after the last action was sent its buckets by it,
  -- has rested before, or was overlooked.
  induction actions using List.reverseRecOn with
  | nil =>
    obtain ⟨hvisible, _⟩ := hrests
    cases hvisible
  | append_singleton actions a ih =>
    have hcoherent := run_coherent parse registry settings (actions ++ [a]) _ _ hrests.get
    have hlegend' : ((create registry settings).run parse (actions ++ [a])).engine.display.legend =
        .default := run_legend parse _ _
    have hquiet : ((create registry settings).run parse (actions ++ [a])).engine.display.Quiet
        editor.doc := by
      obtain ⟨b, hb⟩ := Option.isSome_iff_exists.1 hrests.built
      exact ⟨⟨d, b, hrests.get, hb⟩, hrests.unowed⟩
    rw [run_concat] at hrests ⊢
    rcases rests_act hrests with ⟨b, hb, hsent⟩ | ⟨hrests', hterms, hsent⟩ | ⟨r, rfl, hdoc, hawaits⟩
    · left
      rw [hsent, hcoherent.built b hb, hlegend']
    · rw [hsent, hterms]
      rcases ih hrests' (run_legend parse _ _) with hsent' | ⟨before, hover⟩
      · exact .inl hsent'
      · exact .inr ⟨before, hover.kept hquiet⟩
    · exact .inr ⟨actions, .asked hdoc hawaits⟩

/-- With no deadline left, every editor on screen with a document that is tracked rests. -/
theorem rests_of_idle {parse : Parse} {registry : Registry} {settings : Settings}
    {actions : List Action} {s : Session} (hs : s = (create registry settings).run parse actions)
    (hidle : s.engine.deadline? = none) {editor : Editor} (hvisible : editor ∈ s.engine.visible)
    {d : Document} (hd : s.engine.documents.get? editor.doc = some d) :
    s.engine.display.Rests editor d := by
  have hplanned := run_planned parse registry settings actions
  rw [← hs] at hplanned
  obtain ⟨hrebuild, hrefresh⟩ := Schedule.deadline?_eq_none_iff.1 hidle
  have hrebuild' : s.engine.display.rebuildAt = none := hrebuild
  have hrefresh' : s.engine.display.refreshAt = none := hrefresh
  -- A document without highlights, or owed, would have a deadline.
  refine ⟨hvisible, hd, ?_, ?_⟩
  · cases hb : d.built with
    | some b => rfl
    | none =>
      have := hplanned.rebuild editor.doc ⟨List.mem_map.2 ⟨editor, hvisible, rfl⟩, d, hd, hb⟩
      rw [hrebuild'] at this
      cases this
  · cases howed : s.engine.display.owed.contains editor.doc with
    | false => rfl
    | true =>
      have := hplanned.refresh editor.doc howed
      rw [hrefresh'] at this
      cases this

/-- **No update is lost.** After any steps, once no deadline is left, every editor on screen whose
document is tracked was sent the buckets of the document's text as it is now, restricted to the
terms that are enabled now, and nothing after that. -/
theorem lastSent?_of_idle (parse : Parse) (registry : Registry) (settings : Settings)
    (steps : List Step) {s : Session}
    (hs : s = (create registry settings).run parse (steps.map .step))
    (hidle : s.engine.deadline? = none) {editor : Editor} (hvisible : editor ∈ s.engine.visible)
    {d : Document} (hd : s.engine.documents.get? editor.doc = some d) :
    s.lastSent? editor =
      some ((d.freshBuckets parse s.engine.legend).filter s.engine.enabledTerms) := by
  have hrests := rests_of_idle hs hidle hvisible hd
  exact (lastSent?_of_rests hs hrests).resolve_right (not_overlookedSince_steps parse _ _ _)

/-- A document changes once it is on screen, and both stages fire: `12` is shown in place of `1`. -/
theorem lastSent?_of_idle_changed :
    ∃ s d, s = (create Sample.registry Sample.settings).run Sample.parse
        ((Sample.opening ++ Sample.typing ++ Sample.settling).map .step) ∧
      s.engine.deadline? = none ∧ ⟨1, "a"⟩ ∈ s.engine.visible ∧
      s.engine.documents.get? "a" = some d ∧ d.text = "12" ∧
      s.lastSent? ⟨1, "a"⟩ =
        some ((d.freshBuckets Sample.parse s.engine.legend).filter s.engine.enabledTerms) :=
  ⟨_, _, rfl, by decide, by decide, rfl, rfl,
    lastSent?_of_idle Sample.parse Sample.registry Sample.settings _ rfl (by decide) (by decide)
      rfl⟩

end Session

end SyntaxHighlight
