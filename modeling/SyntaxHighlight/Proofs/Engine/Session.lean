import SyntaxHighlight.Engine.Basic

/-!
# Sessions

A session is an engine together with everything that it has sent to editors. Its surroundings act
on it one action at a time:

    step       an event of the host, a part of loading a language, the firing of due stages
    request    a question for the highlights or the tokens of a document

Actions come in any order and carry any times. Nothing is assumed about the outcome that is
reported for a language, nor about when the work on it starts and ends.
-/

namespace SyntaxHighlight

/-- What drives an engine, apart from requests. -/
inductive Step where
  | event (now : Nat) (event : Event)
  /-- The host takes over the languages that it is asked to load. -/
  | takeRequests
  /-- A load begins, which for a language that is not enabled has no effect. -/
  | startLoad (language : LanguageId)
  /-- The work on a language ends, with the files as they are then. -/
  | finishLoad (files : FileTree) (language : LanguageId)
  /-- The host reports the outcome of loading a language. -/
  | deliver (now : Nat) (language : LanguageId) (outcome : Outcome)
  /-- The stages that are due are run. -/
  | fire (now : Nat)

/-- What the host asks of an engine. -/
inductive Request where
  | highlights (doc : DocumentName)
  | tokens (doc : DocumentName)

def Request.doc : Request → DocumentName
  | .highlights doc => doc
  | .tokens doc => doc

/-- Whatever is done with an engine. -/
inductive Action where
  | step (s : Step)
  | request (r : Request)

def Action.step? : Action → Option Step
  | .step s => some s
  | .request _ => none

namespace Engine

def step (parse : Parse) (e : Engine) : Step → List Push × Engine
  | .event now event => ([], e.handle parse now event)
  | .takeRequests => ([], e.takeRequests.2)
  | .startLoad language =>
    let started := if e.registry.isEnabled language then e.registry.start language else e.registry
    ([], { e with registry := started })
  | .finishLoad files language => ([], { e with registry := e.registry.finish files language })
  | .deliver now language outcome => ([], e.finishLoading parse language outcome now)
  | .fire now => e.fire now

def answer (e : Engine) : Request → Engine
  | .highlights doc => (e.highlights doc).2
  | .tokens doc => (e.tokens doc).2

/-- Both kinds of request do the same to the engine: the highlights of the document are made. -/
theorem answer_eq (e : Engine) (r : Request) : e.answer r = (e.highlights r.doc).2 := by
  cases r <;> rfl

def act (parse : Parse) (e : Engine) : Action → List Push × Engine
  | .step s => e.step parse s
  | .request r => ([], e.answer r)

end Engine

/-- An engine and what it has sent to editors, the latest last. -/
structure Session where
  engine : Engine
  sent : List Push

namespace Session

def create (registry : Registry) (settings : Settings) : Session :=
  ⟨.create registry settings, []⟩

def act (parse : Parse) (s : Session) (action : Action) : Session :=
  ⟨(s.engine.act parse action).2, s.sent ++ (s.engine.act parse action).1⟩

def run (parse : Parse) (s : Session) (actions : List Action) : Session :=
  actions.foldl (act parse) s

/-- The buckets that an editor was sent last. -/
def lastSent? (s : Session) (editor : Editor) : Option Buckets :=
  ((s.sent.filter (·.editor = editor)).getLast?).map (·.buckets)

@[simp] theorem run_concat (parse : Parse) (s : Session) (actions : List Action) (a : Action) :
    s.run parse (actions ++ [a]) = (s.run parse actions).act parse a := by
  simp [run, List.foldl_append]

/-- What holds at the start and is kept by every action holds after every run. -/
theorem run_invariant {parse : Parse} {motive : Session → Prop}
    (hact : ∀ s a, motive s → motive (s.act parse a)) {s : Session} (hs : motive s)
    (actions : List Action) : motive (s.run parse actions) := by
  induction actions generalizing s with
  | nil => exact hs
  | cons a rest ih => exact ih (hact s a hs)

/-! ### What an editor was sent last -/

/-- An action that sends an editor nothing leaves it with what it has. -/
theorem lastSent?_act_of_forall_ne {parse : Parse} {s : Session} {a : Action} {editor : Editor}
    (h : ∀ p ∈ (s.engine.act parse a).1, p.editor ≠ editor) :
    (s.act parse a).lastSent? editor = s.lastSent? editor := by
  have hnil : (s.engine.act parse a).1.filter (·.editor = editor) = [] := by
    rw [List.filter_eq_nil_iff]
    intro p hp
    simpa using h p hp
  rw [lastSent?, lastSent?, act, List.filter_append, hnil, List.append_nil]

/-- An action that sends an editor one thing only leaves it with that. -/
theorem lastSent?_act_of_forall_eq {parse : Parse} {s : Session} {a : Action} {p : Push}
    (hmem : p ∈ (s.engine.act parse a).1)
    (h : ∀ q ∈ (s.engine.act parse a).1, q.editor = p.editor → q = p) :
    (s.act parse a).lastSent? p.editor = some p.buckets := by
  have hp : p ∈ (s.engine.act parse a).1.filter (·.editor = p.editor) := by
    rw [List.mem_filter]
    exact ⟨hmem, by simp⟩
  obtain ⟨q, hq⟩ := Option.isSome_iff_exists.1 (List.getLast?_isSome.2 (List.ne_nil_of_mem hp))
  have hqp : q = p := by
    obtain ⟨hq₁, hq₂⟩ := List.mem_filter.1 (List.mem_of_getLast? hq)
    exact h q hq₁ (by simpa using hq₂)
  rw [lastSent?, act, List.filter_append, List.getLast?_append, hq, hqp]
  rfl

end Session

/-! ### A language for examples

Its texts are one number each, which is highlighted as a whole. -/

namespace Sample

def language : Language where
  id := "digits"
  grammar := ⟨"digits", NameMap.empty.insert "number" "number", .empty, {}⟩
  linked := ⟨⟨"digits", newestVersion⟩, false⟩

def parse : Parse := fun _ text =>
  .node ⟨0, "number", true, ⟨⟨0, 0⟩, ⟨0, text.length⟩⟩⟩ []

def registry : Registry := { runtime := "", enabled := [] }

def settings : Settings := { Settings.default "" with languages := ["digits"] }

def opening : List Step :=
  [.event 0 (.opened "a" "digits" "1"), .takeRequests, .event 1 (.visibleEditors [⟨1, "a"⟩]),
    .deliver 2 "digits" (.ok language), .fire 22, .fire 42]

def typing : List Step :=
  [.event 50 (.changed "a" "12" [⟨1, 1, 2, ⟨0, 1⟩, ⟨0, 1⟩, ⟨0, 2⟩⟩])]

def settling : List Step := [.fire 70, .fire 90]

/-- A request comes between the change and the stages. -/
def asking : List Action :=
  (opening ++ typing).map .step ++ .request (.highlights "a") :: settling.map .step

end Sample

end SyntaxHighlight
