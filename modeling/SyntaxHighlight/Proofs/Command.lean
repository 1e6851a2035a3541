import SyntaxHighlight.Command.Run
import SyntaxHighlight.Proofs.Buckets
import SyntaxHighlight.Proofs.Engine.Coherence
import SyntaxHighlight.Proofs.Engine.Outcomes
import SyntaxHighlight.Proofs.Language.Traffic
import SyntaxHighlight.Proofs.Tree.Subtree

/-!
# What is printed is what the engine answers

The command line and the engine make highlights each in its own way. The command line drops those
without an enabled term, sorts the rest by range and cuts each of them at line ends; the engine
keeps all of them with their document, and drops and cuts whole buckets.

Sorting is stable (`filter_sortByRange`), so highlights of one range stay in the order of the walk,
those of the nodes below first (`exists_shownAt`). An engine that tracks the text
(`Engine.Tracks`) answers with the same highlights and holds the same ranges
(`Command.prints_what_the_engine_answers`).
-/

namespace SyntaxHighlight

/-! ### The order of ranges -/

namespace Range

theorem notAfter_iff {r s : Range} :
    r.notAfter s = true ↔ r.start.row < s.start.row ∨ r.start.row = s.start.row ∧
      (r.start.column < s.start.column ∨ r.start.column = s.start.column ∧
        (r.stop.row < s.stop.row ∨ r.stop.row = s.stop.row ∧ r.stop.column ≤ s.stop.column)) := by
  obtain ⟨⟨a, b⟩, ⟨c, d⟩⟩ := r
  obtain ⟨⟨a', b'⟩, ⟨c', d'⟩⟩ := s
  simp [notAfter, Position.before, Position.notAfter]
  omega

theorem notAfter_refl (r : Range) : r.notAfter r = true := by
  rw [notAfter_iff]
  omega

/-- Ranges are compared by a total order on their ends. -/
theorem notAfter_trans (r s t : Range) (h : r.notAfter s = true) (h' : s.notAfter t = true) :
    r.notAfter t = true := by
  rw [notAfter_iff] at h h' ⊢
  omega

theorem notAfter_total (r s : Range) : (r.notAfter s || s.notAfter r) = true := by
  rw [Bool.or_eq_true, notAfter_iff, notAfter_iff]
  omega

end Range

/-! ### Sorting by range -/

section Sorting

variable {α : Type} (range : α → Range)

def sortByRange (l : List α) : List α := l.mergeSort fun x y => (range x).notAfter (range y)

theorem sortByRange_perm (l : List α) : (sortByRange range l).Perm l := List.mergeSort_perm _ _

theorem pairwise_sortByRange (l : List α) :
    (sortByRange range l).Pairwise fun x y => (range x).notAfter (range y) = true :=
  List.pairwise_mergeSort (fun x y z => Range.notAfter_trans (range x) (range y) (range z))
    (fun x y => Range.notAfter_total (range x) (range y)) l

/-- What has one range stays in its order. -/
theorem filter_sortByRange (l : List α) (r : Range) :
    (sortByRange range l).filter (range · = r) = l.filter (range · = r) := by
  have hequal : (l.filter (range · = r)).Pairwise fun x y =>
      (range x).notAfter (range y) = true := by
    rw [List.pairwise_iff_forall_sublist]
    intro x y hsub
    have hrange : ∀ z ∈ [x, y], range z = r := fun z hz => by
      simpa using (List.mem_filter.1 (hsub.subset hz)).2
    rw [hrange x (by simp), hrange y (by simp)]
    exact r.notAfter_refl
  -- Sorting keeps sublists that are in order; this one is all that the sorted list has in `r`.
  have hsub : (l.filter (range · = r)).Sublist (sortByRange range l) :=
    List.sublist_mergeSort (fun x y z => Range.notAfter_trans (range x) (range y) (range z))
      (fun x y => Range.notAfter_total (range x) (range y)) hequal List.filter_sublist
  have hfilter := hsub.filter (range · = r)
  rw [List.filter_filter] at hfilter
  simp only [Bool.and_self] at hfilter
  exact (hfilter.eq_of_length ((sortByRange_perm range l).filter _).length_eq.symm).symm

/-- What holds of any two in their order still holds of any two with one range. -/
theorem pairwise_sortByRange_of_pairwise {R : α → α → Prop} {l : List α} (h : l.Pairwise R) :
    (sortByRange range l).Pairwise fun x y => range x = range y → R x y := by
  rw [List.pairwise_iff_forall_sublist]
  intro x y hsub hrange
  have hboth : [x, y].Sublist (l.filter (range · = range x)) := by
    rw [← filter_sortByRange]
    have hfilter := hsub.filter (range · = range x)
    simpa [hrange] using hfilter
  exact List.pairwise_iff_forall_sublist.1 h (hboth.trans List.filter_sublist)

theorem map_sortByRange {β : Type} {f : α → β} {range' : β → Range}
    (h : ∀ x, range' (f x) = range x) (l : List α) :
    (sortByRange range l).map f = sortByRange range' (l.map f) :=
  List.map_mergeSort fun x _ y _ => by rw [h, h]

end Sorting

/-! ### The places of what is printed -/

theorem Cursor.range_of_highlight? {c : Cursor} {g : Grammar} {a : Highlight}
    (h : c.highlight? g = some a) : a.range = c.node.range := by
  obtain ⟨term, -, rfl⟩ := Option.map_eq_some_iff.1 h
  rfl

namespace Tree

/-- The places of a tree that have a highlight with an enabled term, with these highlights, in the
order of a walk. -/
def shown (t : Tree) (g : Grammar) (enabled : NameSet) : List (Cursor × Highlight) :=
  (Cursor.ofTree t).walk.filterMap fun c =>
    ((c.highlight? g).filter fun a => enabled.contains a.term).map (c, ·)

variable (t : Tree) (g : Grammar) (enabled : NameSet)

/-- The highlights that are shown are those of the tree with an enabled term. -/
theorem map_shown :
    (t.shown g enabled).map (·.2) = (t.highlights g).filter fun a => enabled.contains a.term := by
  rw [shown, highlights, Cursor.highlights, List.map_filterMap, List.filter_filterMap]
  simp only [Option.map_map]
  congr 1
  funext c
  exact Option.map_id'

/-- What is shown are the places of the tree that have a highlight with an enabled term. -/
theorem mem_shown_iff {c : Cursor} {a : Highlight} :
    (c, a) ∈ t.shown g enabled ↔ Cursor.AtOrBelow (.ofTree t) c ∧ c.highlight? g = some a ∧
      enabled.contains a.term = true := by
  rw [shown, List.mem_filterMap]
  simp only [Option.map_eq_some_iff, Option.filter_eq_some_iff, Prod.mk.injEq,
    Cursor.walk_eq_postorder, Cursor.mem_postorder_iff]
  grind

/-- No place is shown in front of one below it. -/
theorem pairwise_shown :
    (t.shown g enabled).Pairwise fun p q => ¬ Cursor.AtOrBelow p.1 q.1 := by
  refine List.Pairwise.filterMap _ ?_ (Cursor.walk_eq_postorder _ ▸ Cursor.pairwise_postorder _)
  intro c d hbelow p hp q hq
  obtain ⟨a, -, rfl⟩ := Option.map_eq_some_iff.1 hp
  obtain ⟨b, -, rfl⟩ := Option.map_eq_some_iff.1 hq
  exact hbelow

end Tree

/-- Highlights for the places of a tree that have one with an enabled term. Of places with one range
those below come first. -/
structure ShownAt (t : Tree) (g : Grammar) (enabled : NameSet) (places : List Cursor)
    (printed : List Highlight) : Prop where
  highlights : printed.map some = places.map (·.highlight? g)
  mem_iff : ∀ c, c ∈ places ↔ Cursor.AtOrBelow (.ofTree t) c ∧
    ∃ a, c.highlight? g = some a ∧ enabled.contains a.term = true
  nodup : places.Nodup
  childrenFirst : places.Pairwise fun c d => c.node.range = d.node.range → ¬ Cursor.AtOrBelow c d

/-- Highlights by start and end. Those of one range are in the order of another list. -/
structure SortedFrom (highlights printed : List Highlight) : Prop where
  perm : printed.Perm highlights
  sorted : printed.Pairwise fun a b => a.range.notAfter b.range = true
  stable : ∀ r, printed.filter (·.range = r) = highlights.filter (·.range = r)

/-- Sorting is stable. -/
theorem sortedFrom_sortByRange (highlights : List Highlight) :
    SortedFrom highlights (sortByRange (·.range) highlights) where
  perm := sortByRange_perm _ _
  sorted := pairwise_sortByRange _ _
  stable := filter_sortByRange _ _

/-- Sorting the highlights of a tree by their ranges moves places about, but keeps those of one
range in the order of the walk. -/
theorem exists_shownAt (t : Tree) (g : Grammar) (enabled : NameSet) :
    ∃ places, ShownAt t g enabled places
      (sortByRange (·.range) ((t.highlights g).filter fun a => enabled.contains a.term)) := by
  -- Highlights do not tell their places, so the places are sorted along with them.
  have hperm := sortByRange_perm (·.2.range) (t.shown g enabled)
  have hmem {p : Cursor × Highlight} : p ∈ sortByRange (·.2.range) (t.shown g enabled) ↔
      Cursor.AtOrBelow (.ofTree t) p.1 ∧ p.1.highlight? g = some p.2 ∧
        enabled.contains p.2.term = true :=
    hperm.mem_iff.trans (t.mem_shown_iff g enabled)
  refine ⟨(sortByRange (·.2.range) (t.shown g enabled)).map (·.1), ?_, ?_, ?_, ?_⟩
  · have hsorted : (sortByRange (·.2.range) (t.shown g enabled)).map (·.2) =
        sortByRange (·.range) ((t.shown g enabled).map (·.2)) :=
      map_sortByRange _ (fun _ => rfl) _
    rw [← Tree.map_shown, ← hsorted, List.map_map, List.map_map]
    refine List.map_congr_left fun p hp => ?_
    exact (hmem.1 hp).2.1.symm
  · intro c
    rw [List.mem_map]
    constructor
    · rintro ⟨p, hp, rfl⟩
      obtain ⟨hbelow, hhighlight, henabled⟩ := hmem.1 hp
      exact ⟨hbelow, p.2, hhighlight, henabled⟩
    · rintro ⟨hbelow, a, hhighlight, henabled⟩
      exact ⟨(c, a), hmem.2 ⟨hbelow, hhighlight, henabled⟩, rfl⟩
  · have hnodup : ((t.shown g enabled).map (·.1)).Nodup := by
      rw [List.nodup_iff_pairwise_ne, List.pairwise_map]
      refine (t.pairwise_shown g enabled).imp fun {p q} hbelow heq => hbelow ?_
      rw [heq]
      exact .self
    exact (hperm.map _).nodup_iff.2 hnodup
  · rw [List.pairwise_map]
    have hpairs := pairwise_sortByRange_of_pairwise (·.2.range) (t.pairwise_shown g enabled)
    refine hpairs.imp_of_mem fun hp hq hbelow hrange => hbelow ?_
    rw [Cursor.range_of_highlight? (hmem.1 hp).2.1, Cursor.range_of_highlight? (hmem.1 hq).2.1,
      hrange]

/-! ### Buckets that are split -/

namespace Buckets

/-- Some highlights have the ranges that buckets hold, term by term and up to their order. -/
def HoldRanges (b : Buckets) (highlights : List Highlight) : Prop :=
  ∀ t, ((highlights.filter (·.term = t)).map (·.range)).Perm ((b.get? t).getD [])

theorem getD_ofHighlights (seed : List Term) (highlights : List Highlight) (t : Term) :
    ((ofHighlights seed highlights).get? t).getD [] =
      (highlights.filter (·.term = t)).map (·.range) := by
  rw [get?_ofHighlights]
  split
  · rfl
  · next hnone =>
    have hnil : highlights.filter (·.term = t) = [] := by
      rw [List.filter_eq_nil_iff]
      intro a ha hat
      exact hnone (.inr (List.mem_map.2 ⟨a, ha, of_decide_eq_true hat⟩))
    rw [hnil]
    rfl

/-- The parts of enabled highlights, in any order, have the ranges of the enabled buckets that are
split. -/
theorem holdRanges_split {seed : List Term} {highlights printed : List Highlight}
    {enabled : NameSet}
    (hperm : printed.Perm (highlights.filter fun a => enabled.contains a.term)) (text : String) :
    (((ofHighlights seed highlights).filter enabled).split text).HoldRanges
      (printed.flatMap (·.split text)) := by
  intro t
  have hsplit (b : Buckets) :
      ((b.split text).get? t).getD [] = ((b.get? t).getD []).flatMap (·.split text) := by
    rw [get?_split]
    cases b.get? t <;> rfl
  rw [hsplit, filter_ofHighlights, getD_ofHighlights, ranges_flatMap_split]
  exact ((hperm.filter _).map _).flatMap_right _

end Buckets

/-! ### What an engine answers -/

/-- An engine that, after any run, tracks a document with a language and a text, with the terms of
some settings. -/
structure Engine.Tracks (parse : Parse) (e : Engine) (doc : DocumentName) (language : Language)
    (text : String) (settings : Settings) : Prop where
  reached : ∃ registry first actions,
    e = ((Session.create registry first).run parse actions).engine
  tracked : ∃ d, e.documents.get? doc = some d ∧ d.language = language ∧ d.text = text
  enabled : e.enabledTerms = settings.enabledTerms

namespace Engine.Tracks

variable {parse : Parse} {e : Engine} {doc : DocumentName} {language : Language} {text : String}
  {settings : Settings}

/-- A request is answered with the highlights of the text that have an enabled term. -/
theorem highlights_eq (h : e.Tracks parse doc language text settings) :
    (e.highlights doc).1 = some (((parse language.linked.parser text).highlights
      language.grammar).filter fun a => settings.enabledTerms.contains a.term) := by
  obtain ⟨registry, first, actions, rfl⟩ := h.reached
  obtain ⟨d, hd, rfl, rfl⟩ := h.tracked
  rw [Engine.highlights_fst (Session.run_coherent parse registry first actions), hd, ← h.enabled]
  rfl

/-- The buckets of the document hold the highlights of the text. -/
theorem exists_build_eq (h : e.Tracks parse doc language text settings) :
    ∃ built, (e.documents.build doc e.legend).1 = some built ∧
      built.buckets = .ofHighlights e.legend.terms
        ((parse language.linked.parser text).highlights language.grammar) := by
  obtain ⟨registry, first, actions, rfl⟩ := h.reached
  obtain ⟨d, hd, rfl, rfl⟩ := h.tracked
  have hbuild := (Session.run_coherent parse registry first actions doc d hd).build.1
  refine ⟨_, ?_, congrArg (·.buckets) hbuild⟩
  rw [Documents.build_fst, hd]
  rfl

/-- What is sent to an editor of the document are these buckets, as far as they are enabled. -/
theorem buckets_of_mem_fire (h : e.Tracks parse doc language text settings) {now : Nat} {p : Push}
    (hp : p ∈ (e.fire now).1) (hdoc : p.editor.doc = doc) :
    p.buckets = (Buckets.ofHighlights e.legend.terms
      ((parse language.linked.parser text).highlights language.grammar)).filter e.enabledTerms := by
  obtain ⟨registry, first, actions, rfl⟩ := h.reached
  obtain ⟨d, hd, rfl, rfl⟩ := h.tracked
  obtain ⟨-, d', hd', hbuckets⟩ :=
    Engine.of_mem_fire (Session.run_coherent parse registry first actions) hp
  rw [hdoc, hd] at hd'
  obtain rfl := Option.some.inj hd'
  exact hbuckets

end Engine.Tracks

/-! ### A document is opened -/

def Settings.registry (s : Settings) : Registry := { runtime := s.runtime, enabled := s.languages }

/-- A language that could be loaded is kept. -/
theorem Settings.get?_load {s : Settings} {files : FileTree} {id : LanguageId} {loaded : Language}
    (henabled : s.enables id = true)
    (hloads : (s.registry.load files id).1.outcome = .ok loaded) :
    (s.registry.load files id).2.get? id = some (.ok loaded) := by
  have hfirst : s.registry.isEnabled id = true := henabled
  rw [Registry.load_of_none hfirst rfl] at hloads ⊢
  refine Registry.get?_eq_some_iff.2 ?_
  rw [Registry.progress_keep, if_pos rfl, ← hloads]
  rfl

section Opening

variable {parse : Parse} {settings : Settings} {id : LanguageId} {loaded : Language}
  {registry : Registry} {e : Engine} {doc : DocumentName} {text : String} {now : Nat}

namespace Engine

theorem openDocument_of_ready (henabled : e.registry.isEnabled id = true)
    (hready : e.registry.get? id = some (.ok loaded)) :
    e.openDocument parse doc id text now =
      { e with loading := e.loading.erase doc }.track parse doc loaded text now := by
  rw [openDocument, if_pos henabled]
  dsimp only
  rw [hready]

theorem openDocument_of_new (henabled : e.registry.isEnabled id = true)
    (hnew : e.registry.get? id = none) :
    e.openDocument parse doc id text now =
      { e with loading := e.loading.erase doc }.await doc id text := by
  rw [openDocument, if_pos henabled]
  dsimp only
  rw [hnew]

/-- A document is tracked at once if its language is ready. -/
theorem tracks_of_ready (henabled : settings.enables id = true)
    (hready : registry.get? id = some (.ok loaded)) :
    ((Session.create registry settings).run parse
      [.step (.event now (.opened doc id text))]).engine.Tracks parse doc loaded text settings := by
  have hopened : ((Session.create registry settings).run parse
      [.step (.event now (.opened doc id text))]).engine = _ :=
    openDocument_of_ready (e := create registry settings) henabled hready
  refine ⟨⟨_, _, _, rfl⟩, ⟨.opened parse loaded text, ?_, rfl, rfl⟩, ?_⟩
  · rw [hopened, track]
    exact (Documents.get?_track _ _ _ _ _ _).trans (if_pos rfl)
  · rw [hopened, track]
    rfl

/-- A document that has waited is tracked when its language is reported to be ready. -/
theorem tracks_of_new (henabled : settings.enables id = true) (hnew : registry.get? id = none)
    (files : FileTree) (later : Nat) :
    ((Session.create registry settings).run parse
      [.step (.event now (.opened doc id text)), .step (.startLoad id),
        .step (.finishLoad files id), .step (.deliver later id (.ok loaded))]).engine.Tracks
          parse doc loaded text settings := by
  -- As the language has no outcome yet, the document waits.
  have hopened : ((Session.create registry settings).run parse
      [.step (.event now (.opened doc id text))]).engine = _ :=
    openDocument_of_new (e := create registry settings) henabled hnew
  let e := ((Session.create registry settings).run parse
    [.step (.event now (.opened doc id text)), .step (.startLoad id),
      .step (.finishLoad files id)]).engine
  -- The work on the language is no concern of the document and the terms.
  have hwaits : e.loading.find? doc = some ⟨id, text⟩ := by
    show (((Session.create registry settings).run parse
      [.step (.event now (.opened doc id text))]).engine).loading.find? doc = _
    rw [hopened]
    exact (NameMap.find?_insert _ _ _ _).trans (if_pos rfl)
  have hterms : e.enabledTerms = settings.enabledTerms := by
    show (((Session.create registry settings).run parse
      [.step (.event now (.opened doc id text))]).engine).enabledTerms = _
    rw [hopened]
    rfl
  have hdelivered : Delivered parse id (.ok loaded) later ((e.waitingFor id).map (·.1)) e
      (e.finishLoading parse id (.ok loaded) later) :=
    delivered_finishLoading (.refl _) (.ok loaded) later
  have hmem := mem_names_waitingFor_iff.2 ⟨⟨id, text⟩, hwaits, rfl⟩
  refine ⟨⟨_, _, _, rfl⟩, ⟨_, hdelivered.tracked loaded rfl doc _ hmem hwaits, rfl, rfl⟩, ?_⟩
  exact hdelivered.enabledTerms.trans hterms

end Engine

end Opening

/-! ### Calls -/

/-- A call that asks for the highlights of a file, whose language is enabled and can be got
ready. -/
structure Arguments.AsksFor (a : Arguments) (files : FileTree) (env : Environment)
    (settings : Settings) (id : LanguageId) (loaded : Language) (text : String)
    (splitLines : Bool) : Prop where
  settings_eq : a.settings files env = .ok settings
  command : ∃ file language, a.command = .highlight file language splitLines ∧
    language.or (Command.languageOf? file) = some id ∧ files.readText file = .ok text
  enabled : settings.enables id = true
  loads : (settings.registry.load files id).1.outcome = .ok loaded

/-- Such a call prints the lines of its highlights. -/
theorem Arguments.AsksFor.run_eq {a : Arguments} {files : FileTree} {env : Environment}
    {settings : Settings} {id : LanguageId} {loaded : Language} {text : String}
    {splitLines : Bool} (h : a.AsksFor files env settings id loaded text splitLines)
    (parse : Parse) :
    a.run parse files env = .ok ((Command.sortedHighlights parse settings loaded text).flatMap
      (Command.highlightLines text splitLines)) := by
  obtain ⟨file, language, hcommand, hid, htext⟩ := h.command
  have hloads : (({ runtime := settings.runtime, enabled := settings.languages } :
    Registry).load files id).1.outcome = .ok loaded := h.loads
  rw [Arguments.run, h.settings_eq, hcommand]
  show Command.printHighlights parse files settings file language splitLines = _
  rw [Command.printHighlights, hid, htext]
  simp only [pure_bind, h.enabled, hloads]
  rfl

def printedLines (text : String) (splitLines : Bool) (printed : List Highlight) : List String :=
  if splitLines then (printed.flatMap (·.split text)).map (·.text) else printed.map (·.text)

theorem flatMap_highlightLines (text : String) (splitLines : Bool) (printed : List Highlight) :
    printed.flatMap (Command.highlightLines text splitLines) =
      printedLines text splitLines printed := by
  cases splitLines with
  | false =>
    show printed.flatMap (fun a => [a.text]) = printed.map (·.text)
    exact List.map_eq_flatMap.symm
  | true =>
    show _ = (printed.flatMap (·.split text)).map (·.text)
    rw [List.map_flatMap]
    congr 1
    funext a
    rw [Highlight.split, List.map_map]
    rfl

/-- **What is printed is what the engine answers.** For a call that asks for the highlights of a
file, there is a list of highlights that is printed as it is or, if that is asked for, part by part.

* It belongs to the places of the tree that have an enabled term. Of places with one range those
  below come first.
* An engine that tracks a document with the same language and text, after any run and with the same
  enabled terms, answers a request with the same highlights, of which the list is the stable sort.
* The parts on the lines of the text have the ranges of the enabled buckets of such an engine, term
  by term, and of whatever it sends to the editors of the document.
* A document that is opened in a new engine is tracked in this way, whether its language is ready
  before or gets ready later. -/
theorem Command.prints_what_the_engine_answers {a : Arguments} {files : FileTree}
    {env : Environment} {settings : Settings} {id : LanguageId} {loaded : Language}
    {text : String} {splitLines : Bool}
    (h : a.AsksFor files env settings id loaded text splitLines) (parse : Parse) :
    ∃ printed : List Highlight,
      a.run parse files env = .ok (printedLines text splitLines printed) ∧
      (∃ places, ShownAt (parse loaded.linked.parser text) loaded.grammar settings.enabledTerms
        places printed) ∧
      (∀ (e : Engine) (doc : DocumentName), e.Tracks parse doc loaded text settings →
        (∃ highlights, (e.highlights doc).1 = some highlights ∧ SortedFrom highlights printed) ∧
        (∃ built, (e.documents.build doc e.legend).1 = some built ∧
          ((built.buckets.filter e.enabledTerms).split text).HoldRanges
            (printed.flatMap (·.split text))) ∧
        ∀ now, ∀ p ∈ (e.fire now).1, p.editor.doc = doc →
          (p.buckets.split text).HoldRanges (printed.flatMap (·.split text))) ∧
      ∀ (doc : DocumentName) (now later : Nat),
        ((Session.create (settings.registry.load files id).2 settings).run parse
          [.step (.event now (.opened doc id text))]).engine.Tracks parse doc loaded text
            settings ∧
        ((Session.create settings.registry settings).run parse
          [.step (.event now (.opened doc id text)), .step (.startLoad id),
            .step (.finishLoad files id),
            .step (.deliver later id (settings.registry.load files id).1.outcome)]).engine.Tracks
              parse doc loaded text settings := by
  -- Everything but the sorting is done by the same functions on both sides.
  have hsorted := sortedFrom_sortByRange
    (((parse loaded.linked.parser text).highlights loaded.grammar).filter fun a =>
      settings.enabledTerms.contains a.term)
  refine ⟨_, ?_, exists_shownAt _ _ _, fun e doc htracks => ⟨?_, ?_, ?_⟩, fun doc now later =>
    ⟨?_, ?_⟩⟩
  · rw [h.run_eq, flatMap_highlightLines]
    rfl
  · exact ⟨_, htracks.highlights_eq, hsorted⟩
  · obtain ⟨built, hbuilt, hbuckets⟩ := htracks.exists_build_eq
    refine ⟨built, hbuilt, ?_⟩
    rw [hbuckets, htracks.enabled]
    exact Buckets.holdRanges_split hsorted.perm text
  · intro now p hp hdoc
    rw [htracks.buckets_of_mem_fire hp hdoc, htracks.enabled]
    exact Buckets.holdRanges_split hsorted.perm text
  · exact Engine.tracks_of_ready h.enabled (Settings.get?_load h.enabled h.loads)
  · rw [h.loads]
    exact Engine.tracks_of_new h.enabled rfl files later

/-! ### A file for an example

Its text is one node with another node inside, and both have one range. -/

namespace Json5

theorem skipBlanks_of_head {c : Char} {rest : List Char} (h : c ≠ '/' ∧ isSpace c = false) :
    skipBlanks (c :: rest) = c :: rest := by
  rw [skipBlanks.eq_def]
  split
  case h_1 heq => exact absurd (List.cons.inj heq).1 h.1
  case h_2 heq => exact absurd (List.cons.inj heq).1 h.1
  case h_3 heq =>
    obtain ⟨rfl, rfl⟩ := List.cons.inj heq
    rw [if_neg (by simp [h.2])]
  case h_4 heq => cases heq

/-- A token in front of what is cut into tokens. -/
theorem tokens_of_token? {s r : String} {t : Token} {ts : List Token}
    (h : s.toList.head?.any (fun c => c ≠ '/' ∧ isSpace c = false) = true ∧
      token? s.toList = some (t, r.toList) ∧ r.toList.length < s.toList.length)
    (hrest : tokens r.toList = some ts) : tokens s.toList = some (t :: ts) := by
  obtain ⟨hsolid, htoken, hlt⟩ := h
  have hblanks : skipBlanks s.toList = s.toList := by
    generalize s.toList = cs at hsolid
    cases cs with
    | nil => cases hsolid
    | cons c rest => exact skipBlanks_of_head (by simpa using hsolid)
  rw [tokens, hblanks]
  simp [htoken, hrest, hlt]

end Json5

namespace Sample

def numberRules : String := "[\x7b\"n\":\"type\",\"d\":\"number\"\x7d]"

open Json5 in
theorem tokens_numberRules : tokens numberRules.toList =
    some [.leftBracket, .leftBrace, .string (some "n"), .colon, .string (some "type"), .comma,
      .string (some "d"), .colon, .string (some "number"), .rightBrace, .rightBracket] := by
  -- Reading tokens is by recursion on the length of the rest, so the text is read token by token.
  have hend : tokens "".toList = some [] := by
    have hblanks : skipBlanks "".toList = [] := by
      rw [skipBlanks.eq_def]
      rfl
    rw [tokens, hblanks]
    simp [token?]
  apply tokens_of_token? (r := "\x7b\"n\":\"type\",\"d\":\"number\"\x7d]") (by decide +kernel)
  apply tokens_of_token? (r := "\"n\":\"type\",\"d\":\"number\"\x7d]") (by decide +kernel)
  apply tokens_of_token? (r := ":\"type\",\"d\":\"number\"\x7d]") (by decide +kernel)
  apply tokens_of_token? (r := "\"type\",\"d\":\"number\"\x7d]") (by decide +kernel)
  apply tokens_of_token? (r := ",\"d\":\"number\"\x7d]") (by decide +kernel)
  apply tokens_of_token? (r := "\"d\":\"number\"\x7d]") (by decide +kernel)
  apply tokens_of_token? (r := ":\"number\"\x7d]") (by decide +kernel)
  apply tokens_of_token? (r := "\"number\"\x7d]") (by decide +kernel)
  apply tokens_of_token? (r := "\x7d]") (by decide +kernel)
  apply tokens_of_token? (r := "]") (by decide +kernel)
  exact tokens_of_token? (by decide +kernel) hend

def numbers : Language where
  id := "c"
  grammar := ⟨"c", .ofList [("n", "type"), ("d", "number")], .empty, {}⟩
  linked := ⟨⟨"c", newestVersion⟩, true⟩

open Json5 in
theorem parse_numberRules : Grammar.parse "c" numberRules = .ok numbers.grammar := by
  have hvalue : Value.parse numberRules = some (.array [.object
      [(some "n", .string (some "type")), (some "d", .string (some "number"))]]) := by
    rw [Value.parse, tokens_numberRules]
    simp [readValue, readMembers, readItems, keyText]
  rw [Grammar.parse, Rules.parse, hvalue]
  rfl

def installed : FileTree where
  nodes := .ofList
    [("/a.c", .file "12".toUTF8), ("/run", .directory), ("/run/grammars", .directory),
      ("/run/grammars/c.json", .file numberRules.toUTF8), ("/run/parsers", .directory),
      ("/run/parsers/libc.so", .library (.ofList [("tree_sitter_c", ⟨"c", newestVersion⟩)]))]
  workingDirectory := "/"

def installedSettings : Settings := { Settings.default "." with runtime := "/run" }

/-- A call with the language told by the name of the file. -/
def highlightFile : Arguments where
  config := none
  runtime := some "/run"
  verbose := false
  command := .highlight "/a.c" none false

theorem load_numbers :
    (installedSettings.registry.load installed "c").1.outcome = .ok numbers := by
  have hgrammar : Grammar.load installed "/run" "c" = .ok numbers.grammar := by
    have htext : installed.readText (Grammar.path "/run" "c") = .ok numberRules := rfl
    have hexists : installed.pathExists (Grammar.path "/run" "c") = true := rfl
    rw [Grammar.load, if_pos hexists, htext]
    exact parse_numberRules
  have hparser : LinkedParser.loadInstalled installed "/run" "c" = .ok numbers.linked := rfl
  have hprepare : (installedSettings.registry.start "c").prepare installed "c" = .ok numbers := by
    have hbuiltin : (installedSettings.registry.start "c").builtins.find? "c" = none := rfl
    have hrules : (installedSettings.registry.start "c").builtinRules? "c" = none := rfl
    have hruntime : (installedSettings.registry.start "c").runtime = "/run" := rfl
    rw [Registry.prepare, hrules, hbuiltin, hruntime]
    dsimp only
    rw [hgrammar, hparser]
    rfl
  have henabled : installedSettings.registry.isEnabled "c" = true := by decide
  rw [Registry.load_of_none henabled rfl]
  exact hprepare

theorem asksFor_highlightFile :
    highlightFile.AsksFor installed {} installedSettings "c" numbers "12" false where
  settings_eq := rfl
  command := ⟨"/a.c", none, rfl, rfl, rfl⟩
  enabled := by decide
  loads := load_numbers

def nested : Parse := fun _ text =>
  let range : Range := ⟨⟨0, 0⟩, ⟨0, text.length⟩⟩
  .node ⟨0, "n", true, range⟩ [.node ⟨1, "d", true, range⟩ []]

end Sample

/-- Of two nodes with one range, the inner one comes first, in the engine and on the command
line. -/
theorem Command.prints_what_the_engine_answers_nested :
    ∃ e : Engine, e.Tracks Sample.nested "a" Sample.numbers "12" Sample.installedSettings ∧
      (e.highlights "a").1 =
        some [⟨"number", ⟨⟨0, 0⟩, ⟨0, 2⟩⟩⟩, ⟨"type", ⟨⟨0, 0⟩, ⟨0, 2⟩⟩⟩] ∧
      Sample.highlightFile.run Sample.nested Sample.installed {} =
        .ok ["0:0-0:2 number", "0:0-0:2 type"] := by
  obtain ⟨printed, hrun, -, hengine, hopened⟩ :=
    prints_what_the_engine_answers Sample.asksFor_highlightFile Sample.nested
  have htracks := (hopened "a" 0 0).1
  obtain ⟨⟨highlights, hanswer, hsorted⟩, -, -⟩ := hengine _ "a" htracks
  have hboth : highlights =
      [⟨"number", ⟨⟨0, 0⟩, ⟨0, 2⟩⟩⟩, ⟨"type", ⟨⟨0, 0⟩, ⟨0, 2⟩⟩⟩] := by
    rw [htracks.highlights_eq] at hanswer
    rw [← Option.some.inj hanswer]
    decide +kernel
  have hrange : ∀ a ∈ highlights, a.range = ⟨⟨0, 0⟩, ⟨0, 2⟩⟩ := by
    rw [hboth]
    decide
  -- Both highlights have one range, and so keep their order.
  have hprinted : printed = highlights := by
    have hstable := hsorted.stable ⟨⟨0, 0⟩, ⟨0, 2⟩⟩
    rwa [List.filter_eq_self.2 fun a ha => decide_eq_true (hrange a ha),
      List.filter_eq_self.2 fun a ha =>
        decide_eq_true (hrange a (hsorted.perm.mem_iff.1 ha))] at hstable
  refine ⟨_, htracks, hanswer.trans (congrArg some hboth), ?_⟩
  rw [hrun, hprinted, hboth]
  rfl

end SyntaxHighlight
