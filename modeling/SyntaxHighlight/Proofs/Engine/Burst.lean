import Mathlib.Data.List.Chain
import Mathlib.Data.List.Induction
import Mathlib.Data.List.Nodup
import SyntaxHighlight.Proofs.Engine.Intake
import SyntaxHighlight.Proofs.Engine.Settling

/-!
# Bursts of changes

While a text is typed, changes come at intervals that are shorter than the delay of the timers. Each
of them sets the deadline of the rebuild stage anew, so a firing in between finds it in the future,
and the first firing behind the last deadline rebuilds what all changes have left
(`Session.burst_rebuilds_once`).

Two things make this work from every state. A change overrides whatever deadline there was, be it
planned with another delay; and both timers have the delay of the settings in force, so that the
refresh planned by the rebuild is not due at once.
-/

namespace SyntaxHighlight

/-! ### The delay of the timers -/

def Action.debounce? : Action → Option Nat
  | .step (.event _ (.settingsChanged settings)) => some settings.debounce
  | _ => none

def Settings.debounceAfter (settings : Settings) (actions : List Action) : Nat :=
  ((actions.filterMap Action.debounce?).getLast?).getD settings.debounce

namespace Engine

def delay (e : Engine) (stage : Stage) : Nat := (e.schedule.get stage).delay

variable (parse : Parse)

theorem delay_arm (e : Engine) (armed : Stage) (now : Nat) (stage : Stage) :
    (e.arm armed now).delay stage = e.delay stage := by
  unfold delay arm
  rw [Schedule.get_arm]
  split
  · next h => rw [h]; rfl
  · rfl

theorem delay_track (e : Engine) (doc : DocumentName) (language : Language) (text : String)
    (now : Nat) (stage : Stage) :
    (e.track parse doc language text now).delay stage = e.delay stage := by
  unfold track
  dsimp only
  split
  · exact delay_arm _ _ now stage
  · rfl

/-- A change of a document leaves the delays alone. -/
theorem delay_changeDocument (e : Engine) (doc : DocumentName) (text : String)
    (edits : List Edit) (now : Nat) (stage : Stage) :
    (e.changeDocument parse doc text edits now).delay stage = e.delay stage := by
  unfold changeDocument
  split
  · split <;> rfl
  · split
    · dsimp only
      split
      · exact delay_arm _ _ now stage
      · rfl
    · rfl
    · rfl

theorem delay_setVisible (e : Engine) (editors : List Editor) (now : Nat) (stage : Stage) :
    (e.setVisible editors now).delay stage = e.delay stage := by
  unfold setVisible
  split
  · rfl
  · rw [delay_arm]
    split
    · exact delay_arm _ _ now stage
    · rfl

/-- Settings give both timers their debounce. -/
theorem delay_setSettings (e : Engine) (settings : Settings) (now : Nat) (stage : Stage) :
    (e.setSettings settings now).delay stage = settings.debounce := by
  have hdelay : (e.schedule.withDelay settings.debounce).get stage =
      (e.schedule.get stage).withDelay settings.debounce := e.schedule.get_withDelay _ stage
  unfold setSettings
  dsimp only
  split
  · exact congrArg Timer.delay hdelay
  · split
    · exact congrArg Timer.delay hdelay
    · rw [delay_arm]
      exact congrArg Timer.delay hdelay

theorem delay_finishLoading (e : Engine) (language : LanguageId) (outcome : Outcome) (now : Nat)
    (stage : Stage) :
    (e.finishLoading parse language outcome now).delay stage = e.delay stage := by
  cases outcome with
  | error error => rfl
  | ok loaded =>
    show ((e.waitingFor language).foldl (release parse loaded now) e).delay stage = e.delay stage
    generalize e.waitingFor language = waiting
    induction waiting generalizing e with
    | nil => rfl
    | cons w rest ih => exact (ih _).trans (delay_track parse _ w.1 loaded w.2 now stage)

theorem delay_rebuild (e : Engine) (now : Nat) (stage : Stage) :
    (e.rebuild now).delay stage = e.delay stage := by
  unfold rebuild
  dsimp only
  split
  · rfl
  · exact delay_arm _ _ now stage

/-- Taking a deadline leaves the delays alone. -/
theorem delay_expire (s : Schedule) (expired : Stage) (now : Nat) (stage : Stage) :
    ((s.expire expired now).2.get stage).delay = (s.get stage).delay := by
  rw [Schedule.get_expire]
  split
  · next h =>
    rw [h, Timer.expire]
    split <;> rfl
  · rfl

/-- Firing the stages leaves the delays alone. -/
theorem delay_fire (e : Engine) (now : Nat) (stage : Stage) :
    (e.fire now).2.delay stage = e.delay stage := by
  have hrebuild : (e.fireRebuild now).delay stage = e.delay stage := by
    unfold fireRebuild
    dsimp only
    split
    · rw [delay_rebuild]
      exact delay_expire e.schedule .rebuild now stage
    · rfl
  refine Eq.trans ?_ hrebuild
  unfold fire fireRefresh
  dsimp only
  split
  · exact delay_expire _ .refresh now stage
  · rfl

/-- Only settings change the delay of a timer. -/
theorem delay_act (e : Engine) (a : Action) (stage : Stage) :
    (e.act parse a).2.delay stage = a.debounce?.getD (e.delay stage) := by
  -- Only new settings change the delays; every other action comes down to arming and cancelling.
  cases a with
  | request r => rw [act, answer_eq]; rfl
  | step s =>
    cases s with
    | event now event =>
      cases event with
      | opened doc language text =>
        show (e.openDocument parse doc language text now).delay stage = e.delay stage
        unfold openDocument
        split
        · dsimp only
          split
          · exact delay_track parse _ doc _ text now stage
          · rfl
          · rfl
        · rfl
      | changed doc text edits => exact delay_changeDocument parse e doc text edits now stage
      | closed doc =>
        show (e.closeDocument doc).delay stage = e.delay stage
        unfold closeDocument
        dsimp only
        split <;> rfl
      | visibleEditors editors => exact delay_setVisible e editors now stage
      | settingsChanged settings => exact delay_setSettings e settings now stage
    | deliver now language outcome => exact delay_finishLoading parse e language outcome now stage
    | fire now => exact delay_fire e now stage
    | _ => rfl

end Engine

/-- After any actions both timers have the delay of the settings in force. -/
theorem Session.delay_run (parse : Parse) (registry : Registry) (settings : Settings)
    (actions : List Action) (stage : Stage) :
    ((create registry settings).run parse actions).engine.delay stage =
      settings.debounceAfter actions := by
  induction actions using List.reverseRecOn with
  | nil => cases stage <;> rfl
  | append_singleton actions a ih =>
    rw [run_concat]
    refine (Engine.delay_act parse _ a stage).trans ?_
    rw [ih, Settings.debounceAfter, Settings.debounceAfter, List.filterMap_append,
      List.getLast?_append]
    cases ha : a.debounce? with
    | none => rw [List.filterMap_cons_none ha]; rfl
    | some debounce => rw [List.filterMap_cons_some ha]; rfl

/-! ### Bursts -/

/-- What happens in a burst: a document is changed, or the stages that are due are fired. -/
inductive Beat where
  | changed (now : Nat) (doc : DocumentName) (text : String) (edits : List Edit)
  | fired (now : Nat)

namespace Beat

def now : Beat → Nat
  | changed now _ _ _ => now
  | fired now => now

def step : Beat → Step
  | changed now doc text edits => .event now (.changed doc text edits)
  | fired now => .fire now

def change? : Beat → Option Nat
  | changed now _ _ _ => some now
  | fired _ => none

def text? (doc : DocumentName) : Beat → Option String
  | changed _ other text _ => if other = doc then some text else none
  | fired _ => none

def changes (beats : List Beat) : List Nat := beats.filterMap change?

def lastText? (beats : List Beat) (doc : DocumentName) : Option String :=
  (beats.filterMap (text? doc)).getLast?

@[simp] theorem changes_changed (beats : List Beat) (now : Nat) (doc : DocumentName)
    (text : String) (edits : List Edit) :
    changes (beats ++ [changed now doc text edits]) = changes beats ++ [now] := by
  rw [changes, List.filterMap_append]
  rfl

@[simp] theorem changes_fired (beats : List Beat) (now : Nat) :
    changes (beats ++ [fired now]) = changes beats := by
  rw [changes, List.filterMap_append]
  exact List.append_nil _

/-- A change gives its document the last text, and no other. -/
@[simp] theorem lastText?_changed (beats : List Beat) (now : Nat) (doc : DocumentName)
    (text : String) (edits : List Edit) (other : DocumentName) :
    lastText? (beats ++ [changed now doc text edits]) other =
      if doc = other then some text else lastText? beats other := by
  rw [lastText?, List.filterMap_append, List.getLast?_append]
  by_cases hdoc : doc = other
  · simp [text?, hdoc]
  · simp [text?, hdoc, lastText?]

@[simp] theorem lastText?_fired (beats : List Beat) (now : Nat) (doc : DocumentName) :
    lastText? (beats ++ [fired now]) doc = lastText? beats doc := by
  rw [lastText?, List.filterMap_append, lastText?]
  exact congrArg List.getLast? (List.append_nil _)

/-- A document has a text if and only if it has been changed. -/
theorem exists_lastText?_iff {beats : List Beat} {doc : DocumentName} :
    (∃ text, lastText? beats doc = some text) ↔
      ∃ now text edits, changed now doc text edits ∈ beats := by
  rw [← Option.isSome_iff_exists, lastText?, List.getLast?_isSome]
  constructor
  · intro hne
    obtain ⟨text, htext⟩ := List.exists_mem_of_ne_nil _ hne
    obtain ⟨beat, hbeat, heq⟩ := List.mem_filterMap.1 htext
    cases beat with
    | fired now => cases heq
    | changed now other text' edits =>
      rw [text?] at heq
      split at heq
      · next hother => exact ⟨now, text', edits, hother ▸ hbeat⟩
      · cases heq
  · rintro ⟨now, text, edits, hbeat⟩
    exact List.ne_nil_of_mem (List.mem_filterMap.2 ⟨_, hbeat, if_pos rfl⟩)

/-- Where a document has a text, there is a change. -/
theorem changes_ne_nil {beats : List Beat} {doc : DocumentName} {text : String}
    (h : lastText? beats doc = some text) : changes beats ≠ [] := by
  obtain ⟨now, text', edits, hbeat⟩ := exists_lastText?_iff.1 ⟨text, h⟩
  exact List.ne_nil_of_mem (List.mem_filterMap.2 ⟨_, hbeat, rfl⟩)

/-- Where there is a change, a document has a text. -/
theorem exists_lastText?_of_mem_changes {beats : List Beat} {now : Nat}
    (h : now ∈ changes beats) : ∃ doc text, lastText? beats doc = some text := by
  obtain ⟨beat, hbeat, hnow⟩ := List.mem_filterMap.1 h
  cases beat with
  | fired now => cases hnow
  | changed now doc text edits => exact ⟨doc, exists_lastText?_iff.2 ⟨now, text, edits, hbeat⟩⟩

end Beat

namespace Engine

/-- A change that matters: of a document that is on screen, tracked and does not wait, with at least
one edit. -/
def Takes (e : Engine) : Beat → Prop
  | .changed _ doc _ edits =>
    e.isVisible doc = true ∧ e.documents.contains doc = true ∧ e.isLoading doc = false ∧ edits ≠ []
  | .fired _ => True

/-- A burst: changes that come at shorter intervals than the delay, the last of them at the given
time, and any firings in between and behind them, as long as the delay has not passed since. -/
structure Burst (e : Engine) (delay last : Nat) (beats : List Beat) : Prop where
  takes : ∀ beat ∈ beats, e.Takes beat
  ordered : (beats.map Beat.now).Pairwise (· ≤ ·)
  close : (Beat.changes beats).IsChain fun t t' => t' < t + delay
  ends : (Beat.changes beats).getLast? = some last
  early : ∀ now, .fired now ∈ beats → now < last + delay

/-- A burst without its last beat is a burst, unless that was the first change. A firing that is
left out comes in time for the changes before it. -/
theorem Burst.init {e : Engine} {delay last : Nat} {beats : List Beat} {beat : Beat}
    (h : e.Burst delay last (beats ++ [beat])) (hchanges : Beat.changes beats ≠ []) :
    ∃ last', e.Burst delay last' beats ∧ ∀ now, beat = .fired now → now < last' + delay := by
  obtain ⟨last', hlast'⟩ := Option.isSome_iff_exists.1 (List.getLast?_isSome.2 hchanges)
  have htakes : ∀ b ∈ beats, e.Takes b := fun b hb => h.takes b (by simp [hb])
  have hordered := h.ordered
  have hclose := h.close
  have hlast := h.ends
  rw [List.map_append, List.pairwise_append] at hordered
  -- A firing leaves the last change where it is; a change comes less than one delay behind the
  -- change before, and so do the firings in between.
  cases beat with
  | fired now =>
    rw [Beat.changes_fired] at hclose hlast
    obtain rfl : last' = last := Option.some.inj (hlast'.symm.trans hlast)
    have hearly : ∀ t, .fired t ∈ beats → t < last' + delay :=
      fun t ht => h.early t (by simp [ht])
    refine ⟨last', ⟨htakes, hordered.1, hclose, hlast', hearly⟩, ?_⟩
    rintro _ ⟨⟩
    exact h.early now (by simp)
  | changed now doc text edits =>
    rw [Beat.changes_changed, List.isChain_append] at hclose
    have hnow : now < last' + delay := hclose.2.2 last' hlast' now rfl
    have hearly : ∀ t, .fired t ∈ beats → t < last' + delay := by
      intro t ht
      have hle : t ≤ now := hordered.2.2 t (List.mem_map.2 ⟨_, ht, rfl⟩) now (by simp [Beat.now])
      omega
    refine ⟨last', ⟨htakes, hordered.1, hclose.1, hlast', hearly⟩, ?_⟩
    rintro _ ⟨⟩

/-! ### What a beat leaves alone -/

variable (parse : Parse)

/-- A change that matters tracks its document anew. -/
theorem changeDocument_of_takes {e : Engine} {now : Nat} {doc : DocumentName} {text : String}
    {edits : List Edit} (h : e.Takes (.changed now doc text edits)) :
    ∃ language, e.changeDocument parse doc text edits now =
      e.track parse doc language text now := by
  obtain ⟨-, htracked, hwaits, hedits⟩ := h
  have hloading : e.loading.find? doc = none := by
    rwa [isLoading, NameMap.contains, Option.isSome_eq_false_iff, Option.isNone_iff_eq_none]
      at hwaits
  rw [Documents.contains_eq_isSome] at htracked
  obtain ⟨d, hd⟩ := Option.isSome_iff_exists.1 htracked
  obtain ⟨edit, rest, rfl⟩ := List.exists_cons_of_ne_nil hedits
  refine ⟨d.language, ?_⟩
  rw [changeDocument, hloading, Documents.edit_cons hd]
  rfl

/-- What a burst does not touch: who waits and is tracked, what is on screen, and the delays. -/
structure Stays (e e' : Engine) : Prop where
  intake : e'.intake = e.intake
  visible : e'.visible = e.visible
  delay : ∀ stage, e'.delay stage = e.delay stage

/-- A change that matters at the start of a burst matters in the course of it. -/
theorem Stays.takes {e e' : Engine} (h : Stays e e') {beat : Beat} (htakes : e.Takes beat) :
    e'.Takes beat := by
  cases beat with
  | fired now => trivial
  | changed now doc text edits =>
    obtain ⟨hvisible, htracked, hwaits, hedits⟩ := htakes
    refine ⟨?_, ?_, ?_, hedits⟩
    · rwa [isVisible, h.visible]
    · exact (congrFun (congrArg Intake.tracked h.intake) doc).trans htracked
    · exact (congrArg (fun v => v.loading.contains doc) h.intake).trans hwaits

/-- No beat touches who waits and is tracked, what is on screen, or the delays. -/
theorem Stays.beat {e e' : Engine} (h : Stays e e') {beat : Beat} (htakes : e.Takes beat) :
    Stays e (e'.step parse beat.step).2 := by
  have htakes' := h.takes htakes
  cases beat with
  | fired now =>
    -- Firing makes highlights and sends them.
    have hvisible : (e'.fire now).2.visible = (e'.fireRebuild now).visible := by
      unfold fire fireRefresh
      dsimp only
      split <;> rfl
    constructor
    case intake =>
      exact ((intake_fireRefresh _ now).trans (intake_fireRebuild e' now)).trans h.intake
    case visible => exact (hvisible.trans (rebuilds_fireRebuild e' now).frame.1).trans h.visible
    case delay => exact fun stage => (delay_fire e' now stage).trans (h.delay stage)
  | changed now doc text edits =>
    -- The changed document was tracked and is tracked again, with the new text.
    obtain ⟨language, hchange⟩ := changeDocument_of_takes parse htakes'
    have hstep : (e'.step parse (Beat.changed now doc text edits).step).2 =
        e'.track parse doc language text now := hchange
    rw [hstep]
    constructor
    case intake =>
      exact (intake_track_of_tracked parse htakes'.2.1 language text now).trans h.intake
    case visible =>
      rw [← h.visible, track]
      dsimp only
      split <;> rfl
    case delay =>
      exact fun stage => (delay_track parse e' doc language text now stage).trans (h.delay stage)

/-! ### What a burst is about to rebuild -/

/-- What a burst has led to: the rebuild is due one delay after the last change, and the changed
documents have their last texts and no highlights. -/
structure Pending (e : Engine) (deadline : Nat) (beats : List Beat) : Prop where
  deadline : e.schedule.rebuild.deadline = some deadline
  dirty : ∀ doc text, Beat.lastText? beats doc = some text →
    ∃ d, e.documents.get? doc = some d ∧ d.text = text ∧ d.built = none

/-- A firing before the deadline of the rebuild is at most a refresh. -/
theorem fire_of_lt {e : Engine} {deadline now : Nat}
    (h : e.schedule.rebuild.deadline = some deadline) (hlt : now < deadline) :
    e.fire now = e.fireRefresh now := by
  rcases schedule_fireRebuild e now with ⟨hdue, -⟩ | ⟨-, hsame⟩
  · obtain ⟨d, hd, hle⟩ := Timer.isDue_iff.1 hdue
    obtain rfl := Option.some.inj (h.symm.trans hd)
    omega
  · rw [fire, hsame]

/-- A firing before the deadline leaves everything pending. -/
theorem Pending.fired {e : Engine} {deadline : Nat} {beats : List Beat}
    (h : e.Pending deadline beats) {now : Nat} (hlt : now < deadline) :
    (e.fire now).2.Pending deadline (beats ++ [.fired now]) := by
  have hkeeps : (e.fireRefresh now).2.documents = e.documents ∧
      (e.fireRefresh now).2.schedule.rebuild = e.schedule.rebuild := by
    unfold fireRefresh
    dsimp only
    split <;> exact ⟨rfl, rfl⟩
  rw [fire_of_lt h.deadline hlt]
  constructor
  case deadline => rw [hkeeps.2, h.deadline]
  case dirty =>
    intro doc text htext
    rw [Beat.lastText?_fired] at htext
    rw [hkeeps.1]
    exact h.dirty doc text htext

/-- A change sets the deadline, whatever it was. -/
theorem pending_changed {e : Engine} {now : Nat} {doc : DocumentName} {text : String}
    {edits : List Edit} (htakes : e.Takes (.changed now doc text edits)) {beats : List Beat}
    (h : ∀ other text', Beat.lastText? beats other = some text' →
      ∃ d, e.documents.get? other = some d ∧ d.text = text' ∧ d.built = none) :
    (e.changeDocument parse doc text edits now).Pending (now + e.delay .rebuild)
      (beats ++ [.changed now doc text edits]) := by
  obtain ⟨language, hchange⟩ := changeDocument_of_takes parse htakes
  have htrack : (e.track parse doc language text now).documents =
        e.documents.track parse doc language text ∧
      (e.track parse doc language text now).schedule.rebuild.deadline =
        some (now + e.delay .rebuild) := by
    unfold track
    dsimp only
    rw [if_pos htakes.1]
    exact ⟨rfl, rfl⟩
  rw [hchange]
  constructor
  case deadline => exact htrack.2
  case dirty =>
    intro other text' htext
    rw [htrack.1, Documents.get?_track]
    rw [Beat.lastText?_changed] at htext
    -- The document that is changed has no highlights now; the others are as they were.
    by_cases hother : other = doc
    · rw [if_pos hother.symm] at htext
      rw [if_pos hother]
      exact ⟨_, rfl, Option.some.inj htext, rfl⟩
    · rw [if_neg (Ne.symm hother)] at htext
      rw [if_neg hother]
      exact h other text' htext

/-- What a firing does that finds the rebuild due and something to rebuild. The refresh that this
plans is still to come, unless there is no delay. -/
theorem fire_of_due {e : Engine} {now : Nat} (hdue : e.schedule.rebuild.isDue now = true)
    (hdirty : e.dirtyVisible ≠ []) (hpos : 0 < e.delay .refresh) :
    (e.fire now).2 =
      { e with
        documents := buildAll e.documents e.legend e.dirtyVisible
        owed := e.owed.insertAll e.dirtyVisible
        schedule := (e.schedule.cancel .rebuild).arm .refresh now
        stats := { e.stats with
          rebuildPasses := e.stats.rebuildPasses + 1
          documentsRebuilt := e.stats.documentsRebuilt + e.dirtyVisible.length } } := by
  -- The rebuild cancels its own timer and arms the other one.
  have hrebuild : e.fireRebuild now =
      { e with
        documents := buildAll e.documents e.legend e.dirtyVisible
        owed := e.owed.insertAll e.dirtyVisible
        schedule := (e.schedule.cancel .rebuild).arm .refresh now
        stats := { e.stats with
          rebuildPasses := e.stats.rebuildPasses + 1
          documentsRebuilt := e.stats.documentsRebuilt + e.dirtyVisible.length } } := by
    have hsome : ¬ e.dirtyVisible.isEmpty = true := by simpa using hdirty
    unfold fireRebuild
    rw [Schedule.expire, Schedule.get, Timer.expire_of_isDue hdue]
    dsimp only
    rw [if_pos rfl, rebuild]
    exact if_neg hsome
  -- As the delay is positive, the refresh is not due at the same time.
  have hlater : (e.fireRebuild now).schedule.refresh.isDue now = false := by
    rw [hrebuild, ← Bool.not_eq_true, Timer.isDue_iff]
    rintro ⟨d, hd, hle⟩
    have hd' : some (now + e.delay .refresh) = some d := hd
    obtain rfl := Option.some.inj hd'
    omega
  rcases schedule_fireRefresh (e.fireRebuild now) now with ⟨hdue', -⟩ | ⟨-, hsame⟩
  · rw [hlater] at hdue'
    cases hdue'
  · rw [fire, hsame, hrebuild]

/-- A document is rebuilt at most once by a pass. -/
theorem nodup_dirtyVisible (e : Engine) : e.dirtyVisible.Nodup :=
  (nodup_eraseDups _).filter _

/-- What the firing behind a burst does: one rebuild pass over each document of the burst, which
had no highlights, and now has those of its last text. The editors are refreshed one delay later. -/
structure RebuildsOnce (parse : Parse) (beats : List Beat) (delay now : Nat) (e e' : Engine) :
    Prop where
  pass : e'.passes .rebuild = e.passes .rebuild + 1
  rebuilt : e'.documents = buildAll e.documents e.legend e.dirtyVisible
  once : ∀ doc text, Beat.lastText? beats doc = some text → e.dirtyVisible.count doc = 1
  dirty : ∀ doc text, Beat.lastText? beats doc = some text →
    ∃ d, e.documents.get? doc = some d ∧ d.text = text ∧ d.built = none
  current : ∀ doc text, Beat.lastText? beats doc = some text →
    ∃ d, e'.documents.get? doc = some d ∧ d.text = text ∧
      d.built = some ⟨d.freshHighlights parse, d.freshBuckets parse e.legend⟩
  idle : e'.schedule.rebuild.deadline = none
  planned : e'.schedule.refresh.deadline = some (now + delay)

/-- A document that a rebuild finds out of date has fresh highlights behind it. -/
theorem get?_buildAll_of_dirty {e : Engine} (h : e.display.Coherent parse) {doc : DocumentName}
    {d : Document} (hd : e.documents.get? doc = some d) (hdirty : doc ∈ e.dirtyVisible) :
    ∃ d', (buildAll e.documents e.legend e.dirtyVisible).get? doc = some d' ∧ d'.text = d.text ∧
      d'.built = some ⟨d'.freshHighlights parse, d'.freshBuckets parse e.legend⟩ := by
  refine ⟨(d.build e.legend).2, ?_, d.text_build e.legend, ?_⟩
  · rw [get?_buildAll, if_pos hdirty, hd]
    rfl
  · rw [d.built_build e.legend]
    exact congrArg some ((h doc d hd).build.2.built _ (d.built_build e.legend))

/-- The first firing at the deadline of a burst or behind it. -/
theorem Pending.rebuildsOnce {e : Engine} {deadline delay now : Nat} {beats : List Beat}
    (h : e.Pending deadline beats) (hcoherent : e.display.Coherent parse)
    (hdelay : e.delay .refresh = delay) (hpos : 0 < delay) (hnow : deadline ≤ now)
    (hvisible : ∀ doc text, Beat.lastText? beats doc = some text → e.isVisible doc = true)
    (hsome : ∃ doc text, Beat.lastText? beats doc = some text) :
    RebuildsOnce parse beats delay now e (e.fire now).2 := by
  -- The documents of the burst are among those that the rebuild goes through: they are on screen
  -- and have no highlights.
  have hmem : ∀ doc text, Beat.lastText? beats doc = some text → doc ∈ e.dirtyVisible := by
    intro doc text htext
    obtain ⟨d, hd, -, hbuilt⟩ := h.dirty doc text htext
    have hshown := hvisible doc text htext
    rw [isVisible, List.any_eq_true] at hshown
    obtain ⟨editor, heditor, hdoc⟩ := hshown
    exact mem_dirtyVisible.2 ⟨List.mem_map.2 ⟨editor, heditor, by simpa using hdoc⟩, d, hd, hbuilt⟩
  obtain ⟨doc, text, htext⟩ := hsome
  have hdue : e.schedule.rebuild.isDue now = true := Timer.isDue_iff.2 ⟨_, h.deadline, hnow⟩
  rw [fire_of_due hdue (List.ne_nil_of_mem (hmem doc text htext)) (by omega)]
  constructor
  case pass => rfl
  case rebuilt => rfl
  case once =>
    intro doc text htext
    exact List.count_eq_one_of_mem e.nodup_dirtyVisible (hmem doc text htext)
  case dirty => exact h.dirty
  case current =>
    intro doc text htext
    obtain ⟨d, hd, rfl, -⟩ := h.dirty doc text htext
    exact get?_buildAll_of_dirty parse hcoherent hd (hmem doc d.text htext)
  case idle => rfl
  case planned => exact congrArg (fun delay => some (now + delay)) hdelay

end Engine

namespace Session

def play (parse : Parse) (s : Session) (beats : List Beat) : Session :=
  s.run parse (beats.map fun beat => .step beat.step)

variable {parse : Parse} {s : Session} {delay last : Nat} {beats : List Beat}

theorem engine_play_concat (beat : Beat) :
    (s.play parse (beats ++ [beat])).engine =
      ((s.play parse beats).engine.step parse beat.step).2 := by
  rw [play, List.map_append, List.map_singleton, run_concat]
  rfl

/-- Changes that matter and firings leave alone what a burst does not touch. -/
theorem stays_play (h : ∀ beat ∈ beats, s.engine.Takes beat) :
    Engine.Stays s.engine (s.play parse beats).engine := by
  induction beats using List.reverseRecOn with
  | nil => exact ⟨rfl, rfl, fun _ => rfl⟩
  | append_singleton beats beat ih =>
    rw [engine_play_concat]
    exact (ih fun b hb => h b (by simp [hb])).beat parse (h beat (by simp))

/-- Along a burst the rebuild stays one delay away from the last change. -/
theorem pending_play (h : s.engine.Burst delay last beats)
    (hdelay : s.engine.delay .rebuild = delay) :
    (s.play parse beats).engine.Pending (last + delay) beats := by
  -- On the burst from behind, since a burst without its last beat is a burst, with an earlier last
  -- change in general.
  induction beats using List.reverseRecOn generalizing last with
  | nil => cases h.ends
  | append_singleton beats beat ih =>
    have hstays : Engine.Stays s.engine (s.play parse beats).engine :=
      stays_play fun b hb => h.takes b (by simp [hb])
    have htakes := hstays.takes (h.takes beat (by simp))
    rw [engine_play_concat]
    cases beat with
    | fired now =>
      -- The firing comes before the deadline of the last change.
      have hends := h.ends
      rw [Beat.changes_fired] at hends
      have hchanges : Beat.changes beats ≠ [] := by
        intro hnil
        rw [hnil] at hends
        cases hends
      obtain ⟨last', hburst, hbefore⟩ := h.init hchanges
      obtain rfl : last' = last := Option.some.inj (hburst.ends.symm.trans hends)
      exact (ih hburst).fired (hbefore now rfl)
    | changed now doc text edits =>
      -- The change sets the deadline anew, and what was pending before it has still no highlights.
      have hends := h.ends
      rw [Beat.changes_changed, List.getLast?_concat] at hends
      obtain rfl := Option.some.inj hends
      have hdirty : ∀ other text', Beat.lastText? beats other = some text' →
          ∃ d, (s.play parse beats).engine.documents.get? other = some d ∧ d.text = text' ∧
            d.built = none := by
        intro other text' htext
        obtain ⟨last', hburst, -⟩ := h.init (Beat.changes_ne_nil htext)
        exact (ih hburst).dirty other text' htext
      have hpending := Engine.pending_changed parse htakes hdirty
      rw [hstays.delay, hdelay] at hpending
      exact hpending

/-- No rebuild runs from the first change of a burst on. -/
theorem passes_play {before : List Beat} (after : List Beat)
    (h : s.engine.Burst delay last (before ++ after))
    (hdelay : s.engine.delay .rebuild = delay) (hchanges : Beat.changes before ≠ []) :
    (s.play parse (before ++ after)).engine.passes .rebuild =
      (s.play parse before).engine.passes .rebuild := by
  -- On the beats behind the first change: whatever has been changed is pending, so no firing is
  -- late enough for a rebuild.
  induction after using List.reverseRecOn generalizing last with
  | nil => rw [List.append_nil]
  | append_singleton after beat ih =>
    rw [← List.append_assoc] at h ⊢
    have hsome : Beat.changes (before ++ after) ≠ [] := by
      rw [Beat.changes, List.filterMap_append]
      exact List.append_ne_nil_of_left_ne_nil hchanges _
    obtain ⟨last', hburst, hbefore⟩ := h.init hsome
    rw [engine_play_concat, ← ih hburst]
    cases beat with
    | fired now =>
      show ((s.play parse (before ++ after)).engine.fire now).2.passes .rebuild = _
      rw [Engine.fire_of_lt (pending_play hburst hdelay).deadline (hbefore now rfl),
        Engine.passes_rebuild_fireRefresh]
    | changed now doc text edits =>
      have hstays : Engine.Stays s.engine (s.play parse (before ++ after)).engine :=
        stays_play hburst.takes
      obtain ⟨language, hchange⟩ :=
        Engine.changeDocument_of_takes parse
          (hstays.takes (h.takes (.changed now doc text edits) (by simp)))
      show ((s.play parse (before ++ after)).engine.changeDocument parse doc text edits
        now).passes .rebuild = _
      rw [hchange, Engine.track]
      dsimp only
      split <;> rfl


/-- **A burst of changes costs one rebuild.** From any state in which the delay is not zero, let
changes that matter come at shorter intervals than the delay, with any firings in between:

* from the first change on, no rebuild pass runs before the delay has passed since the last;
* the first firing after that runs one rebuild pass, in which every document of the burst is
  highlighted once, from its last text; then no rebuild is planned, and a refresh is planned one
  delay after the firing. -/
theorem burst_rebuilds_once (parse : Parse) (registry : Registry) (settings : Settings)
    (actions : List Action) {s : Session} (hs : s = (create registry settings).run parse actions)
    {delay : Nat} (hdelay : settings.debounceAfter actions = delay) (hpos : 0 < delay)
    {last : Nat} {beats : List Beat} (hburst : s.engine.Burst delay last beats) :
    (∀ before after, beats = before ++ after → Beat.changes before ≠ [] →
      (s.play parse beats).engine.passes .rebuild = (s.play parse before).engine.passes .rebuild) ∧
    ∀ now, last + delay ≤ now →
      Engine.RebuildsOnce parse beats delay now (s.play parse beats).engine
        ((s.play parse beats).engine.fire now).2 := by
  -- The delay of both stages is the debounce in force.
  have hdelays : ∀ stage, s.engine.delay stage = delay := by
    intro stage
    rw [hs, delay_run, hdelay]
  constructor
  · rintro before after rfl hchanges
    exact passes_play after hburst (hdelays .rebuild) hchanges
  · intro now hnow
    have hstays : Engine.Stays s.engine (s.play parse beats).engine := stays_play hburst.takes
    -- What is kept is coherent, since the burst ends a run from the start.
    have hcoherent : (s.play parse beats).engine.display.Coherent parse := by
      rw [hs, play, run, run, ← List.foldl_append]
      exact run_coherent parse registry settings _
    apply (pending_play hburst (hdelays .rebuild)).rebuildsOnce parse hcoherent
    case hdelay => rw [hstays.delay, hdelays]
    case hpos => exact hpos
    case hnow => exact hnow
    case hvisible =>
      intro doc text htext
      obtain ⟨t, text', edits, hbeat⟩ := Beat.exists_lastText?_iff.1 ⟨text, htext⟩
      exact (hstays.takes (hburst.takes _ hbeat)).1
    case hsome => exact Beat.exists_lastText?_of_mem_changes (List.mem_of_getLast? hburst.ends)

end Session

namespace Sample

/-- A document is changed twice, with firings before, between and behind the changes. -/
def burst : List Beat :=
  [.fired 45, .changed 50 "a" "12" [⟨1, 1, 2, ⟨0, 1⟩, ⟨0, 1⟩, ⟨0, 2⟩⟩], .fired 60,
    .changed 69 "a" "123" [⟨2, 2, 3, ⟨0, 2⟩, ⟨0, 2⟩, ⟨0, 3⟩⟩], .fired 88]

theorem burst_opening :
    ((Session.create registry settings).run parse (opening.map .step)).engine.Burst 20 69
      burst where
  takes := by
    simp only [burst, List.forall_mem_cons, List.not_mem_nil]
    refine ⟨trivial, ?first, trivial, ?second, trivial, nofun⟩
    all_goals exact ⟨by decide, by decide, by decide, by simp⟩
  ordered := by decide
  close := by decide
  ends := rfl
  early now hnow := by
    simp only [burst, List.mem_cons, Beat.fired.injEq, reduceCtorEq, List.not_mem_nil,
      false_or, or_false] at hnow
    omega

end Sample

/-- Both changes are rebuilt together, by the firing at the deadline of the second. -/
theorem Session.burst_rebuilds_once_opening :
    ∃ s, s = (create Sample.registry Sample.settings).run Sample.parse
        (Sample.opening.map .step) ∧
      s.engine.Burst 20 69 Sample.burst ∧
      Engine.RebuildsOnce Sample.parse Sample.burst 20 89
        (s.play Sample.parse Sample.burst).engine
        ((s.play Sample.parse Sample.burst).engine.fire 89).2 := by
  refine ⟨_, rfl, Sample.burst_opening, ?_⟩
  exact (burst_rebuilds_once Sample.parse Sample.registry Sample.settings
    (Sample.opening.map .step) rfl rfl (by decide) Sample.burst_opening).2 89 (by decide)

end SyntaxHighlight
