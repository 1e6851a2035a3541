import SyntaxHighlight.Proofs.Engine.Display

/-!
# Nothing out of date is sent or answered

Highlights are kept with a document from when they are made until its text changes. `Coherent` says
that what is kept is what would be made now: the tree is that of the text, and kept highlights are
those of the tree. Every change of the display keeps this, so every answer and everything that is
sent can be computed from the texts alone (`Session.run_emits_current`).
-/

namespace SyntaxHighlight

namespace Document

def freshHighlights (parse : Parse) (d : Document) : List Highlight :=
  (parse d.language.linked.parser d.text).highlights d.language.grammar

/-- The buckets of the document's text, parsed now, with buckets for all terms of a legend. -/
def freshBuckets (parse : Parse) (legend : Legend) (d : Document) : Buckets :=
  .ofHighlights legend.terms (d.freshHighlights parse)

/-- What is kept with a document is what would be made of its text now. -/
structure Coherent (parse : Parse) (legend : Legend) (d : Document) : Prop where
  tree : d.tree = parse d.language.linked.parser d.text
  built : ∀ b, d.built = some b → b = ⟨d.freshHighlights parse, d.freshBuckets parse legend⟩

theorem coherent_opened (parse : Parse) (legend : Legend) (language : Language) (text : String) :
    (opened parse language text).Coherent parse legend where
  tree := rfl
  built b hb := by cases hb

/-- The highlights that a coherent document gives are fresh, and it keeps no others. -/
theorem Coherent.build {parse : Parse} {legend : Legend} {d : Document}
    (h : d.Coherent parse legend) :
    (d.build legend).1 = ⟨d.freshHighlights parse, d.freshBuckets parse legend⟩ ∧
      (d.build legend).2.Coherent parse legend := by
  have hfresh : d.highlight legend = ⟨d.freshHighlights parse, d.freshBuckets parse legend⟩ := by
    rw [highlight, freshBuckets, freshHighlights, ← h.tree]
  unfold Document.build
  cases hb : d.built with
  | some b => exact ⟨h.built b hb, h⟩
  | none =>
    refine ⟨hfresh, h.tree, fun b hb => ?_⟩
    obtain rfl := Option.some.inj hb
    exact hfresh

/-- Making highlights leaves the language and the text alone, and with them what is fresh. -/
theorem freshHighlights_build (parse : Parse) (legend : Legend) (d : Document) :
    (d.build legend).2.freshHighlights parse = d.freshHighlights parse := by
  unfold build
  split <;> rfl

end Document

namespace Display

def Coherent (parse : Parse) (v : Display) : Prop :=
  ∀ doc d, v.documents.get? doc = some d → d.Coherent parse v.legend

/-- A change leaves a document alone or gives it a text without highlights. -/
theorem Coherent.change {parse : Parse} {v w : Display} (h : Change parse v w)
    (hv : v.Coherent parse) : w.Coherent parse := by
  intro doc d hd
  cases h with
  | renewed renewed language text deadline =>
    rw [Documents.get?_track] at hd
    split at hd
    · obtain rfl := Option.some.inj hd
      exact Document.coherent_opened parse v.legend language text
    · exact hv doc d hd
  | closed closed =>
    rw [Documents.get?_close] at hd
    split at hd
    · cases hd
    · exact hv doc d hd
  | shown => exact hv doc d hd
  | enabled => exact hv doc d hd

/-- A rebuild makes highlights of the tree, which is that of the text. -/
theorem Coherent.rebuilds {parse : Parse} {v w : Display} (h : Rebuilds v w)
    (hv : v.Coherent parse) : w.Coherent parse := by
  cases h with
  | idle => exact hv
  | due docs hdocs deadline =>
    intro doc d hd
    rw [Engine.get?_buildAll] at hd
    split at hd
    · obtain ⟨d₀, hd₀, rfl⟩ := Option.map_eq_some_iff.1 hd
      exact (hv doc d₀ hd₀).build.2
    · exact hv doc d hd

theorem Coherent.refreshes {parse : Parse} {v w : Display} {pushes : List Push}
    (h : Refreshes v pushes w) (hv : v.Coherent parse) : w.Coherent parse := by
  cases h <;> exact hv

theorem Coherent.asked {parse : Parse} {v : Display} (hv : v.Coherent parse)
    (asked : DocumentName) : (v.asked asked).Coherent parse := by
  intro doc d hd
  rw [Display.asked, Documents.get?_build] at hd
  split at hd
  · obtain ⟨d₀, hd₀, rfl⟩ := Option.map_eq_some_iff.1 hd
    exact (hv asked d₀ hd₀).build.2
  · exact hv doc d hd

end Display

namespace Display

/-- A rebuild makes highlights, but leaves what is fresh as it is. -/
theorem Rebuilds.exists_freshHighlights {v w : Display} (h : Rebuilds v w) {doc : DocumentName}
    {d : Document} (hd : w.documents.get? doc = some d) (parse : Parse) :
    ∃ d₀, v.documents.get? doc = some d₀ ∧ d.freshHighlights parse = d₀.freshHighlights parse := by
  cases h with
  | idle => exact ⟨d, hd, rfl⟩
  | due docs hdocs deadline =>
    rw [Engine.get?_buildAll] at hd
    split at hd
    · obtain ⟨d₀, hd₀, rfl⟩ := Option.map_eq_some_iff.1 hd
      exact ⟨d₀, hd₀, d₀.freshHighlights_build parse v.legend⟩
    · exact ⟨d, hd, rfl⟩

/-- A rebuild changes neither what is on screen nor the terms. -/
theorem Rebuilds.frame {v w : Display} (h : Rebuilds v w) :
    w.visible = v.visible ∧ w.enabledTerms = v.enabledTerms ∧ w.legend = v.legend := by
  cases h <;> exact ⟨rfl, rfl, rfl⟩

end Display

namespace Engine

def currentHighlights (parse : Parse) (e : Engine) (d : Document) : List Highlight :=
  (d.freshHighlights parse).filter fun a => e.enabledTerms.contains a.term

/-- A request is answered with the current highlights of its document, if that is tracked. -/
theorem highlights_fst {parse : Parse} {e : Engine} (h : e.display.Coherent parse)
    (doc : DocumentName) :
    (e.highlights doc).1 = (e.documents.get? doc).map (e.currentHighlights parse) := by
  show ((e.documents.build doc e.legend).1).map _ = _
  rw [Documents.build_fst, Option.map_map]
  cases hd : e.documents.get? doc with
  | none => rfl
  | some d =>
    have hbuild := (h doc d hd).build.1
    show some ((d.build e.legend).1.highlights.filter _) = _
    rw [show (d.build e.legend).1 = _ from hbuild]
    rfl

/-- A request for tokens is answered with those of the current highlights. -/
theorem tokens_fst {parse : Parse} {e : Engine} (h : e.display.Coherent parse)
    (doc : DocumentName) :
    (e.tokens doc).1 = (e.documents.get? doc).map fun d =>
      Token.encode (e.currentHighlights parse d) e.legend d.text := by
  show ((e.highlights doc).1.bind fun highlights =>
    ((e.documents.build doc e.legend).2.get? doc).bind fun d =>
      some (Token.encode highlights e.legend d.text)) = _
  rw [highlights_fst h, Documents.get?_build, if_pos rfl]
  cases hd : e.documents.get? doc with
  | none => rfl
  | some d =>
    show some (Token.encode _ e.legend (d.build e.legend).2.text) = _
    rw [Document.text_build]
    rfl

/-- Everything that is sent goes to an editor on screen with a document that is tracked, and is
made of the fresh highlights of that document. -/
theorem of_mem_fire {parse : Parse} {e : Engine} (h : e.display.Coherent parse) {now : Nat}
    {p : Push} (hp : p ∈ (e.fire now).1) :
    p.editor ∈ e.visible ∧ ∃ d, e.documents.get? p.editor.doc = some d ∧
      p.buckets = (d.freshBuckets parse e.legend).filter e.enabledTerms := by
  have hrebuilds := rebuilds_fireRebuild e now
  have hrefreshes := refreshes_fireRefresh (e.fireRebuild now) now
  have hcoherent := h.rebuilds hrebuilds
  obtain ⟨hvisible, hterms, hlegend⟩ := hrebuilds.frame
  have hp' : p ∈ ((e.fireRebuild now).fireRefresh now).1 := hp
  generalize ((e.fireRebuild now).fireRefresh now).1 = pushes at hp' hrefreshes
  generalize ((e.fireRebuild now).fireRefresh now).2.display = w at hrefreshes
  -- What is sent was made by the rebuild in front, or before, and in both cases of the text now.
  cases hrefreshes with
  | idle => cases hp'
  | due hpushes =>
    obtain ⟨hshown, _, d, b, hd, hb, hbuckets⟩ := (hpushes p).1 hp'
    obtain ⟨d₀, hd₀, hfresh⟩ := hrebuilds.exists_freshHighlights hd parse
    rw [hvisible] at hshown
    refine ⟨hshown, d₀, hd₀, ?_⟩
    rw [hbuckets, (hcoherent _ d hd).built b hb, hterms, hlegend]
    show (Document.freshBuckets parse e.legend d).filter e.enabledTerms = _
    rw [Document.freshBuckets, hfresh]
    rfl

/-- The enabled buckets of a document hold the current highlights, term by term. -/
theorem get?_filter_freshBuckets (parse : Parse) (e : Engine) (d : Document) (t : Term) :
    ((d.freshBuckets parse e.legend).filter e.enabledTerms).get? t =
      if e.enabledTerms.contains t then
        if t ∈ e.legend.terms ∨ t ∈ (e.currentHighlights parse d).map (·.term) then
          some (((e.currentHighlights parse d).filter (·.term = t)).map (·.range))
        else none
      else none := by
  rw [Buckets.get?_filter, Document.freshBuckets, Buckets.get?_ofHighlights]
  -- Only enabled terms have a bucket: either the one of the legend or that of a highlight.
  split
  · next ht =>
    have hterm : t ∈ (d.freshHighlights parse).map (·.term) ↔
        t ∈ (e.currentHighlights parse d).map (·.term) := by
      simp only [currentHighlights, List.mem_map, List.mem_filter]
      constructor
      · rintro ⟨a, ha, rfl⟩
        exact ⟨a, ⟨ha, ht⟩, rfl⟩
      · rintro ⟨a, ⟨ha, _⟩, rfl⟩
        exact ⟨a, ha, rfl⟩
    have hranges : (e.currentHighlights parse d).filter (·.term = t) =
        (d.freshHighlights parse).filter (·.term = t) := by
      rw [currentHighlights, List.filter_filter]
      apply List.filter_congr
      intro a _
      by_cases ha : a.term = t
      · simp [ha, ht]
      · simp [ha]
    rw [hranges]
    simp only [hterm]
  · rfl

end Engine

/-- All documents are coherent after every run. -/
theorem Session.run_coherent (parse : Parse) (registry : Registry) (settings : Settings)
    (actions : List Action) :
    ((create registry settings).run parse actions).engine.display.Coherent parse := by
  refine run_display (motive := (·.Coherent parse)) (fun v w h hv => hv.change h)
    (fun v w h hv => hv.rebuilds h) (fun v pushes w h hv => hv.refreshes h)
    (fun v doc hv => hv.asked doc) ?_ actions
  intro doc d hd
  cases hd

/-- **Nothing out of date and nothing disabled is given out.** After any actions:

* a request for highlights is answered for the documents that are tracked, with the highlights of
  the text as it is now and the terms that are enabled now;
* a request for tokens is answered with the tokens of these highlights;
* whatever a firing sends goes to an editor on screen whose document is tracked, and has a bucket
  for an enabled term if it is in the legend or among these highlights, with its ranges in order,
  and none for other terms. -/
theorem Session.emits_current (parse : Parse) (registry : Registry) (settings : Settings)
    (actions : List Action) {s : Session}
    (hs : s = (create registry settings).run parse actions) :
    (∀ doc, (s.engine.highlights doc).1 =
      (s.engine.documents.get? doc).map (s.engine.currentHighlights parse)) ∧
    (∀ doc, (s.engine.tokens doc).1 = (s.engine.documents.get? doc).map fun d =>
      Token.encode (s.engine.currentHighlights parse d) s.engine.legend d.text) ∧
    (∀ now, ∀ p ∈ (s.engine.fire now).1, p.editor ∈ s.engine.visible ∧
      ∃ d, s.engine.documents.get? p.editor.doc = some d ∧
        ∀ t, p.buckets.get? t =
          if s.engine.enabledTerms.contains t then
            if t ∈ s.engine.legend.terms ∨
                t ∈ (s.engine.currentHighlights parse d).map (·.term) then
              some (((s.engine.currentHighlights parse d).filter (·.term = t)).map (·.range))
            else none
          else none) := by
  have hcoherent := run_coherent parse registry settings actions
  rw [← hs] at hcoherent
  refine ⟨Engine.highlights_fst hcoherent, Engine.tokens_fst hcoherent, fun now p hp => ?_⟩
  obtain ⟨hvisible, d, hd, hbuckets⟩ := Engine.of_mem_fire hcoherent hp
  refine ⟨hvisible, d, hd, fun t => ?_⟩
  rw [hbuckets, Engine.get?_filter_freshBuckets]

/-- Before the last firing of the opening, the document is tracked, and the firing sends it. -/
theorem Session.emits_current_opening :
    ∃ s d p, s = (create Sample.registry Sample.settings).run Sample.parse
        (Sample.opening.dropLast.map .step) ∧
      s.engine.documents.get? "a" = some d ∧ p ∈ (s.engine.fire 42).1 ∧
      (s.engine.highlights "a").1 = some (s.engine.currentHighlights Sample.parse d) ∧
      (s.engine.tokens "a").1 = some (Token.encode (s.engine.currentHighlights Sample.parse d)
        s.engine.legend d.text) ∧
      p.editor ∈ s.engine.visible :=
  have current := emits_current Sample.parse Sample.registry Sample.settings
    (Sample.opening.dropLast.map .step) rfl
  ⟨_, _, _, rfl, rfl, .head _, current.1 "a", current.2.1 "a", (current.2.2 42 _ (.head _)).1⟩

end SyntaxHighlight
