import SyntaxHighlight.Proofs.Engine.Intake

/-!
# The handshake over languages

An engine asks its host for languages, the host hands each to a load, and every load comes back with
an outcome that the host delivers. In between anything else may happen to the engine, and settings
may disable and enable languages:

    queue      asked for, not taken over by the host yet
    loads      taken over, no outcome yet
    reports    an outcome is on its way to the engine

A load is refused while its language is not enabled, or comes back with the outcome that the
registry keeps. `Handshake.none_stranded` says that every language that documents wait for is in one
of the three places and in one only, that none is asked for in vain, and that a delivery leaves no
document waiting for its language.
-/

namespace SyntaxHighlight

namespace Registry

/-- A load of a language may come back with an outcome: the one that is kept, or a refusal while the
language is not enabled. -/
def Answers (r : Registry) (language : LanguageId) (outcome : Outcome) : Prop :=
  (r.isEnabled language = false ∧ outcome = .error (.disabled language)) ∨
    r.get? language = some outcome

/-- Once a language has been started, its end has an outcome. -/
theorem isSome_get?_finish_start (r : Registry) (files : FileTree) (language : LanguageId) :
    (((r.start language).finish files language).get? language).isSome = true := by
  have hstarted : ((r.start language).progress.find? language).isSome = true := by
    unfold start
    split
    · next h => exact h
    · rw [NameMap.find?_insert, if_pos rfl]
      rfl
  obtain ⟨progress, hprogress⟩ := Option.isSome_iff_exists.1 hstarted
  -- The work was started just now and ends here, or it had come to its end before.
  cases progress with
  | running =>
    rw [finish, hprogress]
    dsimp only
    rw [get?, NameMap.find?_insert, if_pos rfl]
    rfl
  | finished outcome =>
    rw [finish, hprogress]
    dsimp only
    rw [get?_eq_some_iff.2 hprogress]
    rfl

end Registry

/-- Whether an action belongs to the handshake itself. -/
def Action.isHandshake : Action → Bool
  | .step .takeRequests => true
  | .step (.deliver ..) => true
  | _ => false

namespace Intake

/-- No action takes back an outcome that a registry keeps. -/
theorem Move.keeps {v w : Intake} {a : Action} (h : v.Move a w) : v.registry.Keeps w.registry := by
  cases h with
  | advanced _ hkeeps => exact hkeeps
  | _ => exact fun _ _ h => h

/-- After a delivery a document waits if it waited before and not for that language. -/
theorem find?_deliver {v : Intake} {language : LanguageId} {outcome : Outcome}
    {doc : DocumentName} {w : Waiting} :
    (v.deliver language outcome).loading.find? doc = some w ↔
      v.loading.find? doc = some w ∧ w.language ≠ language := by
  show (v.loading.filter fun doc => !v.waits language doc).find? doc = some w ↔ _
  rw [NameMap.find?_filter, waits]
  cases hfind : v.loading.find? doc with
  | none => simp
  | some x =>
    by_cases hx : x.language = language
    · simp only [Option.any_some, hx, decide_true, Bool.not_true, Bool.false_eq_true, if_false,
        Option.some.injEq, reduceCtorEq, false_iff, not_and, not_not]
      rintro rfl
      exact hx
    · simp only [Option.any_some, hx, decide_false, Bool.not_false, if_true, Option.some.injEq,
        iff_self_and]
      rintro rfl
      exact hx

/-- A delivery takes back the request if it brings an error that is not kept. -/
theorem requested_deliver_iff {v : Intake} {language other : LanguageId} {outcome : Outcome} :
    (v.deliver language outcome).requested.contains other = true ↔
      v.requested.contains other = true ∧ (other = language →
        outcome.isOk = true ∨ (v.registry.get? language).isSome = true) := by
  unfold deliver
  dsimp only
  cases hok : outcome.isOk with
  | true => simp
  | false =>
    cases hget : v.registry.get? language with
    | none => simp [and_comm]
    | some kept => simp

/-- Requests are accounted for, given the languages that the host has taken over and not answered:
those in the queue and those are different languages, all requested, and among them are all that a
document waits for and all requested ones without outcome. -/
structure Accounts (v : Intake) (out : List LanguageId) : Prop where
  waiting : ∀ doc w, v.loading.find? doc = some w → w.language ∈ v.queue ++ out
  nodup : (v.queue ++ out).Nodup
  requested : ∀ language ∈ v.queue ++ out, v.requested.contains language = true
  pending : ∀ language, v.requested.contains language = true →
    v.registry.get? language = none → language ∈ v.queue ++ out

namespace Accounts

variable {v w : Intake} {out out' : List LanguageId}

/-- It makes no difference where a language is on its way. -/
theorem regroup (h : v.Accounts out) {queue : List LanguageId}
    (hperm : (v.queue ++ out).Perm (queue ++ out')) : { v with queue }.Accounts out' := by
  constructor
  case waiting =>
    intro doc x hx
    exact hperm.mem_iff.1 (h.waiting doc x hx)
  case nodup => exact hperm.nodup_iff.1 h.nodup
  case requested =>
    intro language hmem
    exact h.requested language (hperm.mem_iff.2 hmem)
  case pending =>
    intro language hrequested hnone
    exact hperm.mem_iff.1 (h.pending language hrequested hnone)

/-- The requests stay accounted for if only documents leave and outcomes come. -/
theorem mono (h : v.Accounts out) (hqueue : w.queue = v.queue)
    (hrequested : w.requested = v.requested) (hkeeps : v.registry.Keeps w.registry)
    (hloading : ∀ doc x, w.loading.find? doc = some x →
      ∃ y, v.loading.find? doc = some y ∧ x.language = y.language) :
    w.Accounts out := by
  constructor
  case waiting =>
    intro doc x hx
    obtain ⟨y, hy, hlanguage⟩ := hloading doc x hx
    rw [hqueue, hlanguage]
    exact h.waiting doc y hy
  case nodup =>
    rw [hqueue]
    exact h.nodup
  case requested =>
    rw [hqueue, hrequested]
    exact h.requested
  case pending =>
    intro language hmem hnone
    rw [hrequested] at hmem
    rw [hqueue]
    apply h.pending language hmem
    -- An outcome that was there before is there afterwards, so there was none before.
    cases hold : v.registry.get? language with
    | none => rfl
    | some outcome =>
      rw [hkeeps language outcome hold] at hnone
      cases hnone

/-- The language that a document comes to wait for joins those on their way. If it was requested
before, it is still among them; if not, it is nowhere among them. -/
theorem queue_await (h : v.Accounts out) {language : LanguageId}
    (hnone : v.registry.get? language = none) (doc : DocumentName) (text : String) :
    ((v.await doc language text).queue ++ out).Nodup ∧
      ∀ other, other ∈ (v.await doc language text).queue ++ out ↔
        other = language ∨ other ∈ v.queue ++ out := by
  by_cases hrequested : v.requested.contains language = true
  · have hsame : (v.await doc language text).queue = v.queue := if_pos hrequested
    rw [hsame]
    -- A language that was requested and has no outcome is on its way already.
    refine ⟨h.nodup, fun other => ⟨.inr, ?_⟩⟩
    rintro (rfl | hother)
    · exact h.pending other hrequested hnone
    · exact hother
  · have hnew : (v.await doc language text).queue = v.queue ++ [language] := if_neg hrequested
    have hperm : ((v.queue ++ [language]) ++ out).Perm (language :: (v.queue ++ out)) := by
      rw [List.append_assoc]
      exact List.perm_middle
    rw [hnew]
    constructor
    · rw [hperm.nodup_iff, List.nodup_cons]
      exact ⟨fun hmem => hrequested (h.requested language hmem), h.nodup⟩
    · intro other
      rw [hperm.mem_iff, List.mem_cons]

/-- The requests stay accounted for if a document comes to wait for a language without outcome. -/
theorem await (h : v.Accounts out) {language : LanguageId} (hnone : v.registry.get? language = none)
    (doc : DocumentName) (text : String) : (v.await doc language text).Accounts out := by
  obtain ⟨hnodup, hmem⟩ := h.queue_await hnone doc text
  have hrequested : ∀ other, (v.await doc language text).requested.contains other = true ↔
      other = language ∨ v.requested.contains other = true := by
    intro other
    show (v.requested.insert language).contains other = true ↔ _
    rw [NameSet.contains_insert, Bool.or_eq_true, decide_eq_true_eq]
  constructor
  case waiting =>
    intro other x hx
    rw [hmem]
    change ((v.loading.erase doc).insert doc ⟨language, text⟩).find? other = some x at hx
    rw [NameMap.find?_insert] at hx
    split at hx
    · obtain rfl := Option.some.inj hx
      exact .inl rfl
    · next hne =>
      rw [NameMap.find?_erase, if_neg hne] at hx
      exact .inr (h.waiting other x hx)
  case nodup => exact hnodup
  case requested =>
    intro other hother
    rw [hrequested]
    exact ((hmem other).1 hother).imp id (h.requested other)
  case pending =>
    intro other hother hothernone
    rw [hmem]
    exact ((hrequested other).1 hother).imp id fun hother => h.pending other hother hothernone

/-- What happens outside the handshake leaves the requests accounted for. -/
theorem move (h : v.Accounts out) {a : Action} (hmove : v.Move a w)
    (ha : a.isHandshake = false) : w.Accounts out := by
  have herase : ∀ (doc other : DocumentName) (x : Waiting),
      (v.loading.erase doc).find? other = some x →
      ∃ y, v.loading.find? other = some y ∧ x.language = y.language := by
    intro doc other x hx
    exact ⟨x, (NameMap.find?_erase_eq_some_iff.1 hx).2, rfl⟩
  have hkeeps := hmove.keeps
  -- Only a document that comes to wait asks for a language; otherwise documents leave, or keep the
  -- language for which they wait.
  cases hmove with
  | idle => exact h
  | advanced => exact h.mono rfl rfl hkeeps fun _ x hx => ⟨x, hx, rfl⟩
  | received _ doc => exact h.mono rfl rfl hkeeps (herase doc)
  | dropped _ doc => exact h.mono rfl rfl hkeeps (herase doc)
  | closed _ doc => exact h.mono rfl rfl hkeeps (herase doc)
  | awaited _ hnone => exact h.await hnone _ _
  | @rewritten _ doc y hy text =>
    refine h.mono rfl rfl hkeeps ?_
    intro other x hx
    rw [NameMap.find?_insert] at hx
    split at hx
    · next heq =>
      obtain rfl := Option.some.inj hx
      exact ⟨y, heq ▸ hy, rfl⟩
    · exact ⟨x, hx, rfl⟩
  | taken => cases ha
  | delivered => cases ha

/-- An outcome is delivered. Nothing waits for the language any more, and unless it has an outcome
for good it is no longer requested. -/
theorem deliver {language : LanguageId} (h : v.Accounts (language :: out)) {outcome : Outcome}
    (hkept : outcome.isOk = true → v.registry.get? language = some outcome) :
    (v.deliver language outcome).Accounts out := by
  have hperm : (v.queue ++ language :: out).Perm (language :: (v.queue ++ out)) := List.perm_middle
  have hnodup := hperm.nodup_iff.1 h.nodup
  rw [List.nodup_cons] at hnodup
  have hmem : ∀ {other : LanguageId}, other ∈ v.queue ++ language :: out → other ≠ language →
      other ∈ v.queue ++ out := by
    intro other hother hne
    rw [hperm.mem_iff, List.mem_cons] at hother
    exact hother.resolve_left hne
  constructor
  case waiting =>
    intro doc x hx
    obtain ⟨hx, hne⟩ := find?_deliver.1 hx
    exact hmem (h.waiting doc x hx) hne
  case nodup => exact hnodup.2
  case requested =>
    intro other hother
    have hne : other ≠ language := by
      rintro rfl
      exact hnodup.1 hother
    have hold := h.requested other (hperm.mem_iff.2 (List.mem_cons_of_mem language hother))
    exact requested_deliver_iff.2 ⟨hold, fun heq => absurd heq hne⟩
  case pending =>
    intro other hother hnone
    have hnone' : v.registry.get? other = none := hnone
    obtain ⟨hold, houtcome⟩ := requested_deliver_iff.1 hother
    apply hmem (h.pending other hold hnone')
    rintro rfl
    -- A language that stays requested after its delivery has an outcome.
    rcases houtcome rfl with hok | hsome
    · rw [hkept hok] at hnone'
      cases hnone'
    · rw [hnone'] at hsome
      cases hsome

end Accounts

end Intake

/-- An engine and its host: the loads that the host has started, and the outcomes that it has still
to deliver. -/
structure Handshake where
  engine : Engine
  loads : List LanguageId
  reports : List (LanguageId × Outcome)

namespace Handshake

def unanswered (h : Handshake) : List LanguageId := h.loads ++ h.reports.map (·.1)

def report (h : Handshake) (language : LanguageId) (outcome : Outcome) : Handshake :=
  { h with
    loads := h.loads.erase language
    reports := h.reports ++ [(language, outcome)] }

/-- What can happen next. -/
inductive Turn (parse : Parse) (h : Handshake) : Handshake → Prop where
  | acts (a : Action) (ha : a.isHandshake = false) :
    Turn parse h { h with engine := (h.engine.act parse a).2 }
  | takes :
    Turn parse h { h with
      engine := h.engine.takeRequests.2
      loads := h.loads ++ h.engine.takeRequests.1 }
  | answers {language : LanguageId} {outcome : Outcome} (hload : language ∈ h.loads)
      (hanswers : h.engine.registry.Answers language outcome) :
    Turn parse h (h.report language outcome)
  | delivers (now : Nat) {front back : List (LanguageId × Outcome)} {language : LanguageId}
      {outcome : Outcome} (hreports : h.reports = front ++ (language, outcome) :: back) :
    Turn parse h { h with
      engine := h.engine.finishLoading parse language outcome now
      reports := front ++ back }

/-- What can come of an engine that has seen no event, and its host. -/
inductive Reachable (parse : Parse) (registry : Registry) (settings : Settings) :
    Handshake → Prop where
  | create : Reachable parse registry settings ⟨.create registry settings, [], []⟩
  | turn {h h' : Handshake} (hreach : Reachable parse registry settings h)
      (hturn : Turn parse h h') : Reachable parse registry settings h'

variable {parse : Parse} {registry : Registry} {settings : Settings} {h : Handshake}

/-- A load that runs from its start to its end in one go is three turns at most. -/
theorem Reachable.load (hreach : Reachable parse registry settings h) {language : LanguageId}
    (hload : language ∈ h.loads) (files : FileTree) :
    Reachable parse registry settings
      ({ h with engine := (h.engine.loadLanguage files language).2 }.report language
        (h.engine.loadLanguage files language).1.outcome) := by
  -- A load is refused at once, or it is the work on the language from its start to its end, as two
  -- actions of the engine, followed by the answer.
  cases henabled : h.engine.registry.isEnabled language with
  | false =>
    have hanswer : h.engine.loadLanguage files language = (.refused language, h.engine) := by
      unfold Engine.loadLanguage Registry.load
      rw [henabled]
      rfl
    rw [hanswer]
    exact hreach.turn (.answers hload (.inl ⟨henabled, rfl⟩))
  | true =>
    obtain ⟨outcome, houtcome⟩ := Option.isSome_iff_exists.1
      (Registry.isSome_get?_finish_start h.engine.registry files language)
    have hanswer : h.engine.loadLanguage files language =
        (.kept language outcome,
          { h.engine with
            registry := (h.engine.registry.start language).finish files language }) := by
      unfold Engine.loadLanguage Registry.load
      rw [henabled, if_pos rfl]
      dsimp only
      rw [houtcome]
    have hstart := hreach.turn (.acts (.step (.startLoad language)) rfl)
    have hfinish := hstart.turn (.acts (.step (.finishLoad files language)) rfl)
    have hsame : ((h.engine.act parse (.step (.startLoad language))).2.act parse
        (.step (.finishLoad files language))).2 =
        { h.engine with registry := (h.engine.registry.start language).finish files language } := by
      simp only [Engine.act, Engine.step, henabled, if_true]
    rw [hanswer]
    dsimp only at hfinish
    rw [hsame] at hfinish
    exact hfinish.turn (.answers hload (.inr houtcome))

/-- What holds in every reachable state: requests are accounted for, and a language on its way to
the engine is one that the registry keeps. -/
structure Sound (h : Handshake) : Prop where
  accounts : h.engine.intake.Accounts h.unanswered
  kept : ∀ r ∈ h.reports, r.2.isOk = true → h.engine.registry.get? r.1 = some r.2

theorem sound_create (registry : Registry) (settings : Settings) :
    Sound ⟨.create registry settings, [], []⟩ := by
  -- Nothing waits, nothing is asked for and nothing is on its way.
  constructor
  case accounts =>
    constructor
    case waiting =>
      intro doc w hw
      cases hw
    case nodup => exact .nil
    case requested =>
      intro language hmem
      cases hmem
    case pending =>
      intro language hrequested
      cases hrequested
  case kept =>
    intro r hr
    cases hr

/-- Whatever happens next, requests stay accounted for: a language moves from one of the three
places to another, or leaves the last one when its outcome is delivered. -/
theorem Sound.turn (hsound : h.Sound) {h' : Handshake} (hturn : Turn parse h h') : h'.Sound := by
  obtain ⟨haccounts, hkept⟩ := hsound
  cases hturn with
  | acts a ha =>
    -- The places of the languages on their way do not change.
    have hmove := Engine.move_intake parse h.engine a
    refine ⟨haccounts.move hmove ha, ?_⟩
    intro r hr hok
    exact hmove.keeps r.1 r.2 (hkept r hr hok)
  | takes =>
    refine ⟨haccounts.regroup ?_, hkept⟩
    -- The queue goes behind the loads, in front of the reports.
    show (h.engine.queue ++ (h.loads ++ h.reports.map (·.1))).Perm
      ((h.loads ++ h.engine.queue) ++ h.reports.map (·.1))
    rw [← List.append_assoc]
    exact List.perm_append_comm.append_right _
  | @answers language outcome hload hanswers =>
    -- The language goes from the loads to the end of the reports.
    constructor
    case accounts =>
      refine haccounts.regroup (List.Perm.append_left h.engine.queue ?_)
      show (h.loads ++ h.reports.map (·.1)).Perm
        (h.loads.erase language ++ (h.reports ++ [(language, outcome)]).map (·.1))
      rw [List.map_append, ← List.append_assoc]
      refine ((List.perm_cons_erase hload).append_right _).trans ?_
      exact (List.perm_append_singleton language _).symm
    case kept =>
      intro r hr hok
      rcases List.mem_append.1 hr with hr | hr
      · exact hkept r hr hok
      · obtain rfl := List.mem_singleton.1 hr
        -- The new report is a refusal, and so not good, or what the registry keeps.
        rcases hanswers with ⟨-, rfl⟩ | hget
        · cases hok
        · exact hget
  | @delivers now front back language outcome hreports =>
    -- The report leaves its place, wherever that is, and no document waits for the
    -- language any more.
    have hmove := Engine.move_intake parse h.engine (.step (.deliver now language outcome))
    constructor
    case accounts =>
      have hperm : h.unanswered.Perm (language :: (h.loads ++ (front ++ back).map (·.1))) := by
        rw [unanswered, hreports, List.map_append, List.map_cons, List.map_append]
        refine (List.perm_middle.append_left h.loads).trans ?_
        exact List.perm_middle
      show (h.engine.finishLoading parse language outcome now).intake.Accounts _
      rw [Engine.intake_finishLoading]
      refine (haccounts.regroup (hperm.append_left h.engine.queue)).deliver ?_
      exact hkept (language, outcome) (hreports ▸ List.mem_append_cons_self)
    case kept =>
      intro r hr hok
      have hold : r ∈ h.reports := by
        rw [hreports, List.mem_append, List.mem_cons]
        exact (List.mem_append.1 hr).imp id .inr
      exact hmove.keeps r.1 r.2 (hkept r hold hok)

/-- Every reachable handshake is sound. -/
theorem Reachable.sound (hreach : Reachable parse registry settings h) : h.Sound := by
  induction hreach with
  | create => exact sound_create registry settings
  | turn _ hturn ih => exact ih.turn hturn

/-- **The handshake strands no document and asks for no language twice.** A document that waits does
so for a language that is in the queue or not answered yet; those languages are all different; among
them is every language that is requested and has no outcome; and once an outcome is delivered no
document waits for its language. -/
theorem none_stranded (parse : Parse) (registry : Registry) (settings : Settings) (h : Handshake)
    (hreach : Reachable parse registry settings h) :
    (∀ doc w, h.engine.loading.find? doc = some w →
      w.language ∈ h.engine.queue ∨ w.language ∈ h.unanswered) ∧
    (h.engine.queue ++ h.unanswered).Nodup ∧
    (∀ language, h.engine.requested.contains language = true →
      h.engine.registry.get? language = none →
      language ∈ h.engine.queue ∨ language ∈ h.unanswered) ∧
    ∀ now language outcome, (language, outcome) ∈ h.reports → ∀ doc w,
      (h.engine.finishLoading parse language outcome now).loading.find? doc = some w →
      w.language ≠ language := by
  obtain ⟨⟨hwaiting, hnodup, -, hpending⟩, -⟩ := hreach.sound
  refine ⟨?_, hnodup, ?_, ?_⟩
  · intro doc w hw
    exact List.mem_append.1 (hwaiting doc w hw)
  · intro language hrequested hnone
    exact List.mem_append.1 (hpending language hrequested hnone)
  · intro now language outcome _ doc w hw
    have hloading : (h.engine.finishLoading parse language outcome now).loading =
        (h.engine.intake.deliver language outcome).loading :=
      congrArg Intake.loading (Engine.intake_finishLoading parse h.engine language outcome now)
    rw [hloading] at hw
    exact (Intake.find?_deliver.1 hw).2

end Handshake

namespace Sample

def taken : Handshake where
  engine := ((Engine.create registry settings).handle parse 0
    (.opened "a" "digits" "1")).takeRequests.2
  loads := ["digits"]
  reports := []

def loaded : Handshake :=
  { taken with engine := (taken.engine.loadLanguage (.empty "/") "digits").2 }.report "digits"
    (taken.engine.loadLanguage (.empty "/") "digits").1.outcome

theorem reachable_loaded : Handshake.Reachable parse registry settings loaded := by
  have hopened : Handshake.Reachable parse registry settings _ :=
    Handshake.Reachable.create.turn (.acts (.step (.event 0 (.opened "a" "digits" "1"))) rfl)
  have htaken : Handshake.Reachable parse registry settings taken := hopened.turn .takes
  exact htaken.load List.mem_cons_self (.empty "/")

end Sample

/-- Before the delivery a document waits for a language that is not answered, and behind it none
does. -/
theorem Handshake.none_stranded_loaded :
    Reachable Sample.parse Sample.registry Sample.settings Sample.loaded ∧
    Sample.loaded.engine.loading.find? "a" = some ⟨"digits", "1"⟩ ∧
    "digits" ∈ Sample.loaded.unanswered ∧
    ∃ outcome, ("digits", outcome) ∈ Sample.loaded.reports ∧ ∀ doc w,
      (Sample.loaded.engine.finishLoading Sample.parse "digits" outcome 1).loading.find? doc =
        some w → w.language ≠ "digits" := by
  obtain ⟨hwaiting, -, -, hdelivered⟩ := none_stranded _ _ _ _ Sample.reachable_loaded
  have hfind : Sample.loaded.engine.loading.find? "a" = some ⟨"digits", "1"⟩ := by decide
  have hreport : ("digits", _) ∈ Sample.loaded.reports :=
    List.mem_append_right _ List.mem_cons_self
  refine ⟨Sample.reachable_loaded, hfind, ?_, _, hreport, hdelivered 1 "digits" _ hreport⟩
  exact (hwaiting "a" ⟨"digits", "1"⟩ hfind).resolve_left (by decide)

end SyntaxHighlight
