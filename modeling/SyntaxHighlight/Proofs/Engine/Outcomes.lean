import SyntaxHighlight.Proofs.Engine.Ledger
import SyntaxHighlight.Proofs.Engine.Requests

/-!
# The outcome of a language and the documents that wait for it

When the outcome of a language is delivered, the documents that wait for it are taken one after the
other. Each of them changes what is known of itself, adds one to the parses, and sets the rebuild
deadline if it is on screen. `Engine.releaseAll_eq` adds this up: nobody else is touched. Any two of
these steps commute (`Engine.takeIn_comm`), since a deadline that is set twice at one time is set
once, and so it does not matter in which order the documents are taken
(`Engine.delivery_touches_waiting`).
-/

namespace SyntaxHighlight

namespace Documents

variable {parse : Parse} {loaded : Language}

/-- It makes no difference in which order two documents are tracked. -/
theorem track_comm {doc other : DocumentName} (h : doc ≠ other) (text text' : String)
    (ds : Documents) :
    (ds.track parse doc loaded text).track parse other loaded text' =
      (ds.track parse other loaded text').track parse doc loaded text := by
  apply ext_get?
  intro name
  simp only [get?_track]
  by_cases hname : name = doc
  · rw [if_pos hname, if_pos hname, if_neg (hname ▸ h)]
  · rw [if_neg hname, if_neg hname]

def trackAll (ds : Documents) (parse : Parse) (loaded : Language)
    (waiting : List (DocumentName × String)) : Documents :=
  waiting.foldl (fun ds w => ds.track parse w.1 loaded w.2) ds

theorem get?_trackAll_of_notMem {waiting : List (DocumentName × String)} {doc : DocumentName}
    (h : doc ∉ waiting.map (·.1)) (ds : Documents) :
    (ds.trackAll parse loaded waiting).get? doc = ds.get? doc := by
  induction waiting generalizing ds with
  | nil => rfl
  | cons w rest ih =>
    rw [List.map_cons, List.mem_cons, not_or] at h
    show ((ds.track parse w.1 loaded w.2).trackAll parse loaded rest).get? doc = _
    rw [ih h.2, get?_track, if_neg h.1]

/-- A document that is tracked once has the text that it was tracked with. -/
theorem get?_trackAll_of_mem {waiting : List (DocumentName × String)} {doc : DocumentName}
    {text : String} (h : (doc, text) ∈ waiting) (hnodup : (waiting.map (·.1)).Nodup)
    (ds : Documents) :
    (ds.trackAll parse loaded waiting).get? doc = some (.opened parse loaded text) := by
  induction waiting generalizing ds with
  | nil => cases h
  | cons w rest ih =>
    rw [List.map_cons, List.nodup_cons] at hnodup
    show ((ds.track parse w.1 loaded w.2).trackAll parse loaded rest).get? doc = _
    rcases List.mem_cons.1 h with rfl | hrest
    · rw [get?_trackAll_of_notMem hnodup.1, get?_track, if_pos rfl]
    · exact ih hrest hnodup.2 _

end Documents

namespace Engine

variable {parse : Parse} {e : Engine} {language : LanguageId} {doc : DocumentName}

/-! ### Releasing documents -/

theorem release_eq (loaded : Language) (now : Nat) (e : Engine) (w : DocumentName × String) :
    release parse loaded now e w =
      { e with
        documents := e.documents.track parse w.1 loaded w.2
        loading := e.loading.erase w.1
        schedule := if e.isVisible w.1 then e.schedule.arm .rebuild now else e.schedule
        stats := { e.stats with parses := e.stats.parses + 1 } } := by
  have hvisible : ({ e with loading := e.loading.erase w.1 } : Engine).isVisible w.1 =
      e.isVisible w.1 := rfl
  unfold release track
  dsimp only
  rw [hvisible]
  split <;> rfl

/-- All that comes of releasing documents one after the other. -/
theorem releaseAll_eq (waiting : List (DocumentName × String)) (loaded : Language) (now : Nat)
    (e : Engine) :
    waiting.foldl (release parse loaded now) e =
      { e with
        documents := e.documents.trackAll parse loaded waiting
        loading := waiting.foldl (fun loading w => loading.erase w.1) e.loading
        schedule :=
          if (waiting.map (·.1)).any e.isVisible then e.schedule.arm .rebuild now else e.schedule
        stats := { e.stats with parses := e.stats.parses + waiting.length } } := by
  induction waiting generalizing e with
  | nil => rfl
  | cons w rest ih =>
    have hvisible : (release parse loaded now e w).isVisible = e.isVisible := by
      rw [release_eq]
      rfl
    -- A deadline that is set again at the same time stays as it is.
    have harm : (if (rest.map (·.1)).any e.isVisible then
          (if e.isVisible w.1 then e.schedule.arm .rebuild now else e.schedule).arm .rebuild now
        else if e.isVisible w.1 then e.schedule.arm .rebuild now else e.schedule) =
        if ((w :: rest).map (·.1)).any e.isVisible then e.schedule.arm .rebuild now
        else e.schedule := by
      rw [List.map_cons, List.any_cons]
      cases e.isVisible w.1 <;> cases (rest.map (·.1)).any e.isVisible <;> rfl
    rw [List.foldl_cons, ih, hvisible, release_eq, ← harm, List.length_cons,
      Nat.add_comm rest.length, ← Nat.add_assoc]
    rfl

/-- It makes no difference in which order two documents are released. -/
theorem release_comm (loaded : Language) (now : Nat) (e : Engine) {v w : DocumentName × String}
    (h : v.1 ≠ w.1) :
    release parse loaded now (release parse loaded now e v) w =
      release parse loaded now (release parse loaded now e w) v := by
  have hvisible (u : DocumentName × String) :
      (release parse loaded now e u).isVisible = e.isVisible := by
    rw [release_eq]
    rfl
  rw [release_eq, release_eq _ _ (release parse loaded now e w), hvisible, hvisible, release_eq,
    release_eq]
  dsimp only
  rw [Documents.track_comm h, NameMap.erase_comm]
  cases e.isVisible v.1 <;> cases e.isVisible w.1 <;> rfl

/-! ### Taking the documents in any order -/

/-- Take a document out of those that wait, if it is among them, and track it with its text. -/
def takeIn (parse : Parse) (loaded : Language) (now : Nat) (e : Engine) (doc : DocumentName) :
    Engine :=
  match e.loading.find? doc with
  | some waiting => release parse loaded now e (doc, waiting.text)
  | none => e

def deliverTo (e : Engine) (parse : Parse) (language : LanguageId) (outcome : Outcome) (now : Nat)
    (docs : List DocumentName) : Engine :=
  match outcome with
  | .ok loaded => docs.foldl (takeIn parse loaded now) e
  | .error _ =>
    { e with
      loading := docs.foldl NameMap.erase e.loading
      requested := if (e.registry.get? language).isNone then e.requested.erase language
        else e.requested }

theorem takeIn_of_none (h : e.loading.find? doc = none) (loaded : Language) (now : Nat) :
    takeIn parse loaded now e doc = e := by
  rw [takeIn, h]

theorem takeIn_of_some {waiting : Waiting} (h : e.loading.find? doc = some waiting)
    (loaded : Language) (now : Nat) :
    takeIn parse loaded now e doc = release parse loaded now e (doc, waiting.text) := by
  rw [takeIn, h]

/-- What others wait for does not change when it is a document's turn. -/
theorem find?_release_of_ne {other : DocumentName} (h : other ≠ doc) (loaded : Language)
    (now : Nat) (e : Engine) (text : String) :
    (release parse loaded now e (doc, text)).loading.find? other = e.loading.find? other := by
  rw [release_eq, NameMap.find?_erase, if_neg h]

/-- It makes no difference which of two documents is taken first. -/
theorem takeIn_comm (loaded : Language) (now : Nat) (e : Engine) (doc other : DocumentName) :
    takeIn parse loaded now (takeIn parse loaded now e doc) other =
      takeIn parse loaded now (takeIn parse loaded now e other) doc := by
  by_cases hsame : doc = other
  · rw [hsame]
  -- A document that does not wait is passed over, whether or not another one is taken in before it.
  cases hdoc : e.loading.find? doc with
  | none =>
    rw [takeIn_of_none hdoc]
    cases hother : e.loading.find? other with
    | none => rw [takeIn_of_none hother, takeIn_of_none hdoc]
    | some waiting =>
      rw [takeIn_of_some hother, takeIn_of_none]
      rw [find?_release_of_ne hsame, hdoc]
  | some waiting =>
    rw [takeIn_of_some hdoc]
    cases hother : e.loading.find? other with
    | none =>
      rw [takeIn_of_none hother, takeIn_of_some hdoc, takeIn_of_none]
      rw [find?_release_of_ne (Ne.symm hsame), hother]
    | some waiting' =>
      rw [takeIn_of_some hother,
        takeIn_of_some (by rw [find?_release_of_ne (Ne.symm hsame), hother]),
        takeIn_of_some (by rw [find?_release_of_ne hsame, hdoc])]
      exact release_comm loaded now e hsame

/-- Documents that are looked up when it is their turn have waited with the same texts before. -/
theorem takeInAll_eq {waiting : List (DocumentName × String)}
    (hnodup : (waiting.map (·.1)).Nodup) (loaded : Language) (now : Nat) {e : Engine}
    (h : ∀ w ∈ waiting, ∃ x, e.loading.find? w.1 = some x ∧ x.text = w.2) :
    (waiting.map (·.1)).foldl (takeIn parse loaded now) e =
      waiting.foldl (release parse loaded now) e := by
  induction waiting generalizing e with
  | nil => rfl
  | cons w rest ih =>
    obtain ⟨hfresh, hrest⟩ := List.nodup_cons.1 hnodup
    obtain ⟨x, hfind, htext⟩ := h w List.mem_cons_self
    rw [List.map_cons, List.foldl_cons, List.foldl_cons, takeIn_of_some hfind, htext]
    apply ih hrest
    intro v hv
    have hne : v.1 ≠ w.1 := fun heq => hfresh (List.mem_map.2 ⟨v, hv, heq⟩)
    rw [find?_release_of_ne hne]
    exact h v (List.mem_cons_of_mem w hv)

/-! ### The documents that wait for a language -/

theorem mem_waitingFor_pair_iff {text : String} :
    (doc, text) ∈ e.waitingFor language ↔
      ∃ w, e.loading.find? doc = some w ∧ w.language = language ∧ w.text = text := by
  rw [mem_waitingFor_iff, Ledger.textFor?, Option.map_eq_some_iff]
  constructor
  · rintro ⟨w, hw, htext⟩
    obtain ⟨hfind, hlanguage⟩ := Option.filter_eq_some_iff.1 hw
    exact ⟨w, hfind, by simpa using hlanguage, htext⟩
  · rintro ⟨w, hfind, hlanguage, htext⟩
    exact ⟨w, Option.filter_eq_some_iff.2 ⟨hfind, by simpa using hlanguage⟩, htext⟩

theorem mem_names_waitingFor_iff : doc ∈ (e.waitingFor language).map (·.1) ↔
    ∃ w, e.loading.find? doc = some w ∧ w.language = language := by
  rw [mem_waitingFor, Intake.waits, Option.any_eq_true]
  simp [intake]

/-- A document waits once. -/
theorem nodup_waitingFor (e : Engine) (language : LanguageId) :
    ((e.waitingFor language).map (·.1)).Nodup := by
  rw [List.Nodup, List.pairwise_map]
  apply List.Pairwise.filterMap _ _ e.loading.increasing
  rintro ⟨doc, w⟩ ⟨doc', w'⟩ hlt a ha a' ha' heq
  dsimp only at hlt ha ha'
  split at ha
  · split at ha'
    · obtain rfl := Option.some.inj ha
      obtain rfl := Option.some.inj ha'
      obtain rfl : doc = doc' := heq
      exact String.lt_irrefl _ hlt
    · cases ha'
  · cases ha

/-! ### Deliveries -/

/-- What a delivery does, given the documents that wait for the language. -/
structure Delivered (parse : Parse) (language : LanguageId) (outcome : Outcome) (now : Nat)
    (docs : List DocumentName) (e e' : Engine) : Prop where
  none_waits : ∀ doc w, e'.loading.find? doc = some w → w.language ≠ language
  others : ∀ doc, doc ∉ docs →
    e'.loading.find? doc = e.loading.find? doc ∧ e'.documents.get? doc = e.documents.get? doc
  visible : e'.visible = e.visible
  owed : e'.owed = e.owed
  legend : e'.legend = e.legend
  enabledTerms : e'.enabledTerms = e.enabledTerms
  /-- The documents come with the texts they waited with, and without highlights. -/
  tracked : ∀ loaded, outcome = .ok loaded → ∀ doc w, doc ∈ docs →
    e.loading.find? doc = some w → e'.documents.get? doc =
      some { language := loaded, text := w.text, tree := parse loaded.linked.parser w.text,
             built := none }
  parsed : ∀ loaded, outcome = .ok loaded →
    e'.stats = { e.stats with parses := e.stats.parses + docs.length }
  armed : ∀ loaded, outcome = .ok loaded → e'.schedule =
    if docs.any e.isVisible then e.schedule.arm .rebuild now else e.schedule
  dropped : ∀ error, outcome = .error error →
    e'.documents = e.documents ∧ e'.schedule = e.schedule ∧ e'.stats = e.stats

/-- What a good outcome does, field by field. -/
theorem finishLoading_ok (e : Engine) (loaded : Language) (now : Nat) :
    e.finishLoading parse language (.ok loaded) now =
      { e with
        documents := e.documents.trackAll parse loaded (e.waitingFor language)
        loading := (e.waitingFor language).foldl (fun loading w => loading.erase w.1) e.loading
        schedule :=
          if ((e.waitingFor language).map (·.1)).any e.isVisible then
            e.schedule.arm .rebuild now
          else e.schedule
        stats := { e.stats with
          parses := e.stats.parses + (e.waitingFor language).length } } :=
  releaseAll_eq (e.waitingFor language) loaded now e

/-- Whatever the outcome, the documents that waited for the language wait no more, and the others as
before. -/
theorem find?_finishLoading (e : Engine) (outcome : Outcome) (now : Nat) (doc : DocumentName) :
    (e.finishLoading parse language outcome now).loading.find? doc =
      if doc ∈ (e.waitingFor language).map (·.1) then none else e.loading.find? doc := by
  have hloading : (e.finishLoading parse language outcome now).loading =
      (e.waitingFor language).foldl (fun loading w => loading.erase w.1) e.loading := by
    cases outcome with
    | error _ => rfl
    | ok loaded => rw [finishLoading_ok]
  rw [hloading, find?_eraseAll]

/-- The documents that wait for a language, whatever the order in which they are listed, get
what is delivered to all of them. -/
theorem deliverTo_eq {docs : List DocumentName}
    (h : docs.Perm ((e.waitingFor language).map (·.1))) (outcome : Outcome) (now : Nat) :
    e.deliverTo parse language outcome now docs =
      e.finishLoading parse language outcome now := by
  cases outcome with
  | ok loaded =>
    -- Neighbours may be exchanged, hence any order may be taken for that of the names.
    have horder : docs.foldl (takeIn parse loaded now) e =
        ((e.waitingFor language).map (·.1)).foldl (takeIn parse loaded now) e :=
      h.foldl_eq' (fun doc _ other _ e => takeIn_comm loaded now e doc other) e
    apply horder.trans
    apply takeInAll_eq (e.nodup_waitingFor language)
    rintro ⟨doc, text⟩ hmem
    obtain ⟨w, hfind, -, htext⟩ := mem_waitingFor_pair_iff.1 hmem
    exact ⟨w, hfind, htext⟩
  | error error =>
    -- Names may be forgotten in any order.
    have horder : docs.foldl NameMap.erase e.loading =
        ((e.waitingFor language).map (·.1)).foldl NameMap.erase e.loading :=
      h.foldl_eq' (fun doc _ other _ m => m.erase_comm doc other) e.loading
    rw [List.foldl_map] at horder
    show { e with loading := _, requested := _ } = _
    rw [horder]
    rfl

theorem delivered_finishLoading {docs : List DocumentName}
    (h : docs.Perm ((e.waitingFor language).map (·.1))) (outcome : Outcome) (now : Nat) :
    Delivered parse language outcome now docs e
      (e.finishLoading parse language outcome now) := by
  have hdone : ∀ doc w, (e.finishLoading parse language outcome now).loading.find? doc = some w →
      w.language ≠ language := by
    intro doc w hw hlanguage
    rw [find?_finishLoading] at hw
    split at hw
    · cases hw
    · next hnot => exact hnot (mem_names_waitingFor_iff.2 ⟨w, hw, hlanguage⟩)
  have hothers : ∀ doc, doc ∉ docs →
      (e.finishLoading parse language outcome now).loading.find? doc = e.loading.find? doc := by
    intro doc hdoc
    rw [find?_finishLoading, if_neg (mt h.mem_iff.2 hdoc)]
  -- An error drops the documents and touches nothing else; a good outcome tracks them.
  cases outcome with
  | error error =>
    exact {
      none_waits := hdone
      others := fun doc hdoc => ⟨hothers doc hdoc, rfl⟩
      visible := rfl
      owed := rfl
      legend := rfl
      enabledTerms := rfl
      tracked := nofun
      parsed := nofun
      armed := nofun
      dropped := fun _ _ => ⟨rfl, rfl, rfl⟩ }
  | ok loaded =>
    rw [finishLoading_ok] at hdone hothers ⊢
    constructor
    case none_waits => exact hdone
    case others =>
      intro doc hdoc
      exact ⟨hothers doc hdoc, Documents.get?_trackAll_of_notMem (mt h.mem_iff.2 hdoc) _⟩
    case visible => rfl
    case owed => rfl
    case legend => rfl
    case enabledTerms => rfl
    case tracked =>
      rintro _ ⟨⟩ doc w hdoc hw
      obtain ⟨w', hw', hlanguage⟩ := mem_names_waitingFor_iff.1 (h.mem_iff.1 hdoc)
      obtain rfl : w' = w := Option.some.inj (hw'.symm.trans hw)
      exact Documents.get?_trackAll_of_mem (mem_waitingFor_pair_iff.2 ⟨w', hw, hlanguage, rfl⟩)
        (e.nodup_waitingFor language) e.documents
    case parsed =>
      intro _ _
      rw [h.length_eq, List.length_map]
    case armed =>
      intro _ _
      rw [h.any_eq]
    case dropped => nofun

/-- **A delivery touches only the documents that wait for its language.** In any engine, let any
outcome of a language be delivered, and let the documents that wait for the language be listed in
any order:

* then none of them waits any more, and every other document waits as before and is tracked as
  before;
* the editors on screen, the debts to them, the legend and the enabled terms stay;
* if the outcome is good, the documents are tracked with the texts they waited with and without
  highlights, each counts as a parse, and the rebuild is planned anew if one of them is on screen;
* if it is an error, all tracked documents, both timers and all counts stay;
* taking the documents one after the other in the order of the list comes to the same. -/
theorem delivery_touches_waiting (parse : Parse) (e : Engine) (language : LanguageId)
    (outcome : Outcome) (now : Nat) {docs : List DocumentName} (hnodup : docs.Nodup)
    (hdocs : ∀ doc, doc ∈ docs ↔ ∃ w, e.loading.find? doc = some w ∧ w.language = language) :
    Delivered parse language outcome now docs e (e.finishLoading parse language outcome now) ∧
    e.deliverTo parse language outcome now docs =
      e.finishLoading parse language outcome now := by
  have hperm : docs.Perm ((e.waitingFor language).map (·.1)) := by
    rw [List.perm_ext_iff_of_nodup hnodup (e.nodup_waitingFor language)]
    intro doc
    rw [hdocs, mem_names_waitingFor_iff]
  exact ⟨delivered_finishLoading hperm outcome now, deliverTo_eq hperm outcome now⟩

end Engine

namespace Sample

/-- Three documents wait, two of them for one language, of which one is on screen. -/
def queueing : List Action :=
  [.step (.event 0 (.settingsChanged { settings with languages := ["digits", "signs"] })),
    .step (.event 0 (.opened "b" "digits" "2")), .step (.event 1 (.opened "c" "signs" "+")),
    .step (.event 2 (.opened "a" "digits" "1")), .step (.event 3 (.visibleEditors [⟨1, "a"⟩]))]

end Sample

/-- Both documents of the language come in, be they taken in the order of their names or in the
other one, and the third waits on. -/
theorem Engine.delivery_touches_waiting_queueing :
    ∃ e, e = ((Session.create Sample.registry Sample.settings).run Sample.parse
        Sample.queueing).engine ∧
      (∀ doc, doc ∈ ["b", "a"] ↔ ∃ w, e.loading.find? doc = some w ∧ w.language = "digits") ∧
      Delivered Sample.parse "digits" (.ok Sample.language) 4 ["b", "a"] e
        (e.finishLoading Sample.parse "digits" (.ok Sample.language) 4) ∧
      e.deliverTo Sample.parse "digits" (.ok Sample.language) 4 ["b", "a"] =
        e.finishLoading Sample.parse "digits" (.ok Sample.language) 4 ∧
      (e.finishLoading Sample.parse "digits" (.ok Sample.language) 4).isLoading "c" = true := by
  have hdocs : ∀ doc, doc ∈ ["b", "a"] ↔
      ∃ w, ((Session.create Sample.registry Sample.settings).run Sample.parse
        Sample.queueing).engine.loading.find? doc = some w ∧ w.language = "digits" := by
    intro doc
    rw [← mem_names_waitingFor_iff]
    have hnames : (((Session.create Sample.registry Sample.settings).run Sample.parse
        Sample.queueing).engine.waitingFor "digits").map (·.1) = ["a", "b"] := by decide
    rw [hnames]
    simp [or_comm]
  obtain ⟨hdelivered, horder⟩ := delivery_touches_waiting Sample.parse _ "digits"
    (.ok Sample.language) 4 (by decide) hdocs
  exact ⟨_, rfl, hdocs, hdelivered, horder, by decide⟩

end SyntaxHighlight
