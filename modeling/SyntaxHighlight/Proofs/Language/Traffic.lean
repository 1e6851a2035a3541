import Mathlib.Logic.Function.Basic
import SyntaxHighlight.Proofs.Engine.Ledger

/-!
# Loads that overlap

Any number of loads go on at once, and each of them takes its time:

    admitted   the language was enabled when the load was called
    waiting    another load gets the language ready
    chosen     this load is to get the language ready
    reading    it has begun, and reads the rules next
    linking    it has the grammar, and takes the parser next
    closing    it has the outcome, which is kept next
    answered   the load is over

Between two steps of a load there may be steps of others, other languages may be enabled, and files
may change. To look up whether a language is enabled, or which outcome is kept, changes nothing and
can be done at any time.

What becomes of the loads of a language depends on its `Lane` only, which the loads of other
languages leave alone (`Traffic.lane_run_filter`).
-/

namespace SyntaxHighlight

/-! ### The parts of the work on a language -/

namespace Registry

def prepareGrammar (r : Registry) (files : FileTree) (id : LanguageId) :
    Except LanguageError Grammar :=
  match r.builtinRules? id with
  | some rules => (Grammar.parse id rules).mapError .grammar
  | none => (Grammar.load files r.runtime id).mapError .grammar

def prepareParser (r : Registry) (files : FileTree) (id : LanguageId) :
    Except LanguageError LinkedParser :=
  match r.builtins.find? id with
  | some builtin => (LinkedParser.load files id builtin.provider).mapError .parser
  | none => (LinkedParser.loadInstalled files r.runtime id).mapError .parser

/-- Keep an outcome, in place of whatever there is. -/
def keep (r : Registry) (id : LanguageId) (outcome : Outcome) : Registry :=
  { r with progress := r.progress.insert id (.finished outcome) }

/-- Getting a language ready is making its grammar and then taking its parser. -/
theorem prepare_eq_bind (r : Registry) (files : FileTree) (id : LanguageId) :
    r.prepare files id = (r.prepareGrammar files id).bind fun grammar =>
      (r.prepareParser files id).map fun linked => ⟨id, grammar, linked⟩ := by
  unfold prepare prepareGrammar prepareParser
  cases r.builtinRules? id <;> cases r.builtins.find? id <;> dsimp only
  all_goals
    apply congrArg (Except.bind _)
    funext grammar
    exact bind_pure_comp _ _

theorem finish_of_running {r : Registry} {id : LanguageId}
    (h : r.progress.find? id = some .running) (files : FileTree) :
    r.finish files id = r.keep id (r.prepare files id) := by
  rw [finish, h]
  rfl

theorem start_of_none {r : Registry} {id : LanguageId} (h : r.progress.find? id = none) :
    r.start id =
      { r with progress := r.progress.insert id .running, starts := r.starts + 1 } := by
  have hnew : ¬ r.progress.contains id = true := by
    rw [NameMap.contains, h]
    decide
  rw [start, if_neg hnew]

/-- A language that was not worked on before is now. -/
theorem progress_start (r : Registry) (id other : LanguageId) :
    (r.start id).progress.find? other =
      if other = id then some ((r.progress.find? id).getD .running)
      else r.progress.find? other := by
  cases h : r.progress.find? id with
  | none =>
    rw [start_of_none h, NameMap.find?_insert]
    rfl
  | some progress =>
    have hold : r.progress.contains id = true := by
      rw [NameMap.contains, h]
      rfl
    rw [start, if_pos hold]
    split
    · next hother => rw [hother, h]; rfl
    · rfl

theorem progress_keep (r : Registry) (id : LanguageId) (outcome : Outcome) (other : LanguageId) :
    (r.keep id outcome).progress.find? other =
      if other = id then some (.finished outcome) else r.progress.find? other :=
  NameMap.find?_insert r.progress other id _

/-- A load of a language whose outcome is kept. -/
theorem load_of_kept {r : Registry} {id : LanguageId} {outcome : Outcome}
    (henabled : r.isEnabled id = true) (h : r.get? id = some outcome) (files : FileTree) :
    r.load files id = (.kept id outcome, r) := by
  have hprogress := get?_eq_some_iff.1 h
  have hcontains : r.progress.contains id = true := by
    rw [NameMap.contains, hprogress]
    rfl
  have hold : (r.start id).finish files id = r := by
    rw [start, if_pos hcontains, finish, hprogress]
  rw [load, if_pos henabled]
  dsimp only
  rw [hold, h]

/-- The first load of a language. -/
theorem load_of_none {r : Registry} {id : LanguageId} (henabled : r.isEnabled id = true)
    (h : r.progress.find? id = none) (files : FileTree) :
    r.load files id = (.kept id ((r.start id).prepare files id),
      (r.start id).keep id ((r.start id).prepare files id)) := by
  have hrunning : (r.start id).progress.find? id = some .running := by
    rw [progress_start, if_pos rfl, h]
    rfl
  have hkept := get?_eq_some_iff.2
    ((progress_keep (r.start id) id ((r.start id).prepare files id) id).trans (if_pos rfl))
  rw [load, if_pos henabled]
  dsimp only
  rw [finish_of_running hrunning, hkept]

end Registry

/-! ### Loads -/

/-- How far a load has come. -/
inductive Load where
  | admitted
  | waiting
  | chosen
  | reading
  | linking (grammar : Grammar)
  | closing (outcome : Outcome)
  | answered (answer : Registry.Answer)

namespace Load

/-- Whether a load is the one that gets the language ready. -/
def works : Load → Bool
  | admitted | waiting | answered _ => false
  | chosen | reading | linking _ | closing _ => true

/-- The number of steps in which a load that is at work comes to its end. -/
def toCome : Load → Nat
  | admitted | waiting | answered _ => 0
  | closing _ => 1
  | linking _ => 2
  | reading => 3
  | chosen => 4

theorem toCome_pos {load : Load} (h : load.works = true) : 0 < load.toCome := by
  cases load with
  | admitted | waiting | answered => cases h
  | chosen | reading | linking | closing => exact Nat.succ_pos _

theorem toCome_le (load : Load) : load.toCome ≤ 4 := by
  cases load <;> simp [toCome]

def progress? : Load → Option Progress
  | chosen => none
  | _ => some .running

def effect (id : LanguageId) (r : Registry) : Load → Registry
  | chosen => r.start id
  | closing outcome => r.keep id outcome
  | _ => r

def begins (id : LanguageId) : Load → List LanguageId
  | chosen => [id]
  | _ => []

end Load

/-- A registry in use by many loads. -/
structure Traffic where
  registry : Registry
  files : FileTree
  /-- The loads of each language, in the order of their calls. -/
  loads : LanguageId → List Load
  /-- The languages that the work was begun on, each as often as it was. -/
  begun : List LanguageId

namespace Traffic

inductive Move where
  | call (id : LanguageId)
  /-- A step of one of the loads of a language, counted from zero. -/
  | step (id : LanguageId) (k : Nat)
  | setEnabled (enabled : List LanguageId)
  | write (files : FileTree)

/-- Whether a move may matter to a language: only the loads of other languages do not. -/
def Move.concerns (id : LanguageId) : Move → Bool
  | call other => other == id
  | step other _ => other == id
  | setEnabled _ => true
  | write _ => true

def create (runtime : String) (builtins : NameMap Builtin) (enabled : List LanguageId)
    (files : FileTree) : Traffic where
  registry := { runtime, builtins, enabled }
  files := files
  loads _ := []
  begun := []

def load? (t : Traffic) (id : LanguageId) (k : Nat) : Option Load := (t.loads id)[k]?

/-- A load that is called: only an enabled language is looked at further. -/
def called (t : Traffic) (id : LanguageId) : Load :=
  if t.registry.isEnabled id then .admitted else .answered (.refused id)

/-- A load after its next step. -/
def next (t : Traffic) (id : LanguageId) : Load → Load
  | .admitted =>
    match t.registry.get? id with
    | some outcome => .answered (.kept id outcome)
    -- One load is let in at a time, and all that come while it is at work have to wait.
    | none => if (t.loads id).any Load.works then .waiting else .chosen
  | .waiting =>
    match t.registry.get? id with
    | some outcome => .answered (.kept id outcome)
    | none => .waiting
  | .chosen => .reading
  | .reading =>
    -- The files may change before the parser is taken, so the two parts can be of different times.
    match t.registry.prepareGrammar t.files id with
    | .ok grammar => .linking grammar
    | .error error => .closing (.error error)
  | .linking grammar =>
    .closing ((t.registry.prepareParser t.files id).map fun linked => ⟨id, grammar, linked⟩)
  | .closing outcome => .answered (.kept id outcome)
  | .answered answer => .answered answer

/-- A load takes its next step, if there is such a load. -/
def advance (t : Traffic) (id : LanguageId) (k : Nat) : Traffic :=
  match t.load? id k with
  | some load =>
    { t with
      registry := load.effect id t.registry
      loads := Function.update t.loads id ((t.loads id).set k (t.next id load))
      begun := t.begun ++ load.begins id }
  | none => t

def move (t : Traffic) : Move → Traffic
  | .call id => { t with loads := Function.update t.loads id (t.loads id ++ [t.called id]) }
  | .step id k => t.advance id k
  | .setEnabled enabled => { t with registry := t.registry.setEnabled enabled }
  | .write files => { t with files }

def run (t : Traffic) (moves : List Move) : Traffic := moves.foldl move t

variable {t t' : Traffic} {id : LanguageId} {k : Nat} {load : Load} {m : Move}
  {outcome : Outcome}

theorem run_cons (t : Traffic) (m : Move) (moves : List Move) :
    t.run (m :: moves) = (t.move m).run moves := rfl

theorem run_append (t : Traffic) (moves more : List Move) :
    t.run (moves ++ more) = (t.run moves).run more := List.foldl_append ..

/-! ### What a move changes -/

theorem advance_of_some (h : t.load? id k = some load) :
    t.advance id k =
      { t with
        registry := load.effect id t.registry
        loads := Function.update t.loads id ((t.loads id).set k (t.next id load))
        begun := t.begun ++ load.begins id } := by
  rw [advance, h]

theorem advance_of_none (h : t.load? id k = none) : t.advance id k = t := by
  rw [advance, h]

theorem loads_advance (h : t.load? id k = some load) :
    (t.advance id k).loads =
      Function.update t.loads id ((t.loads id).set k (t.next id load)) := by
  rw [advance_of_some h]

theorem loads_call (t : Traffic) (id : LanguageId) :
    (t.move (.call id)).loads = Function.update t.loads id (t.loads id ++ [t.called id]) := rfl

theorem registry_advance (h : t.load? id k = some load) :
    (t.advance id k).registry = load.effect id t.registry := by
  rw [advance_of_some h]

theorem lt_of_load? (h : t.load? id k = some load) : k < (t.loads id).length :=
  (List.getElem?_eq_some_iff.1 h).1

/-- A step changes the load that takes it. -/
theorem load?_advance (h : t.load? id k = some load) :
    (t.advance id k).load? id = Function.update (t.load? id) k (some (t.next id load)) := by
  funext j
  rw [load?, loads_advance h, Function.update_self, List.getElem?_set, if_pos (lt_of_load? h),
    Function.update_apply]
  simp only [eq_comm, load?]

/-- A call adds a load. -/
theorem load?_call (t : Traffic) (id : LanguageId) :
    (t.move (.call id)).load? id =
      Function.update (t.load? id) (t.loads id).length (some (t.called id)) := by
  funext j
  rw [load?, loads_call, Function.update_self, Function.update_apply, List.getElem?_append]
  split
  · next hlt => rw [if_neg (by omega)]; rfl
  · next hge =>
    split
    · next heq => rw [heq, Nat.sub_self]; rfl
    · next hne =>
      rw [load?, List.getElem?_eq_none (by simp; omega), List.getElem?_eq_none (by omega)]

/-- A load that is called comes behind all others. -/
theorem load?_called (t : Traffic) (id : LanguageId) :
    (t.move (.call id)).load? id (t.loads id).length = some (t.called id) := by
  rw [load?_call, Function.update_self]

/-- A step as the load that takes it sees it. -/
theorem advance_spec (h : t.load? id k = some load) :
    (t.advance id k).load? id k = some (t.next id load) ∧
      (t.advance id k).registry = load.effect id t.registry ∧ (t.advance id k).files = t.files := by
  refine ⟨?_, registry_advance h, ?_⟩
  · rw [load?_advance h, Function.update_self]
  · rw [advance_of_some h]

/-- A load stays as it is but for its own steps. -/
theorem load?_move_of_ne (h : t.load? id k = some load) (hne : m ≠ .step id k) :
    (t.move m).load? id k = some load := by
  -- A call adds a load behind the others, and a step replaces one of them.
  cases m with
  | call other =>
    by_cases hother : other = id
    · have hk : k ≠ (t.loads id).length := Nat.ne_of_lt (lt_of_load? h)
      rw [hother, load?_call, Function.update_of_ne hk, h]
    · rw [load?, loads_call, Function.update_of_ne (Ne.symm hother)]
      exact h
  | step other j =>
    show (t.advance other j).load? id k = some load
    cases hload : t.load? other j with
    | none => rw [advance_of_none hload, h]
    | some load' =>
      by_cases hother : other = id
      · subst hother
        have hk : k ≠ j := fun hkj => hne (by rw [hkj])
        rw [load?_advance hload, Function.update_of_ne hk, h]
      · rw [load?, loads_advance hload, Function.update_of_ne (Ne.symm hother)]
        exact h
  | setEnabled enabled => exact h
  | write files => exact h

/-- Whether any load is at work is asked of those that there are. -/
theorem any_works_iff :
    (t.loads id).any Load.works = true ↔
      ∃ k load, t.load? id k = some load ∧ load.works = true := by
  rw [List.any_eq_true]
  constructor
  · rintro ⟨load, hmem, hworks⟩
    obtain ⟨k, hk⟩ := List.mem_iff_getElem?.1 hmem
    exact ⟨k, load, hk, hworks⟩
  · rintro ⟨k, load, hk, hworks⟩
    exact ⟨load, List.mem_iff_getElem?.2 ⟨k, hk⟩, hworks⟩

/-- A load is chosen if no other one is at work and there is no outcome. -/
theorem next_admitted_of_idle (hnone : t.registry.get? id = none)
    (hidle : ¬ (t.loads id).any Load.works = true) : t.next id .admitted = .chosen := by
  rw [next, hnone]
  exact if_neg hidle

/-- A load waits if another one is at work. -/
theorem next_admitted_of_busy (hnone : t.registry.get? id = none)
    (hbusy : (t.loads id).any Load.works = true) : t.next id .admitted = .waiting := by
  rw [next, hnone]
  exact if_pos hbusy

/-! ### Each language by itself -/

/-- What the loads of a language depend on. -/
@[ext]
structure Lane where
  runtime : String
  builtins : NameMap Builtin
  enabled : List LanguageId
  files : FileTree
  progress : Option Progress
  loads : List Load

def lane (t : Traffic) (id : LanguageId) : Lane where
  runtime := t.registry.runtime
  builtins := t.registry.builtins
  enabled := t.registry.enabled
  files := t.files
  progress := t.registry.progress.find? id
  loads := t.loads id

/-- A load of one language leaves the progress of others alone. -/
theorem progress_effect_of_ne {other : LanguageId} (hne : other ≠ id) (r : Registry)
    (load : Load) : (load.effect id r).progress.find? other = r.progress.find? other := by
  cases load with
  | chosen => rw [Load.effect, Registry.progress_start, if_neg hne]
  | closing outcome => rw [Load.effect, Registry.progress_keep, if_neg hne]
  | _ => rfl

theorem progress_effect_congr {r r' : Registry}
    (h : r.progress.find? id = r'.progress.find? id) (load : Load) :
    (load.effect id r).progress.find? id = (load.effect id r').progress.find? id := by
  cases load with
  | chosen => rw [Load.effect, Load.effect, Registry.progress_start, Registry.progress_start, h]
  | closing outcome =>
    rw [Load.effect, Load.effect, Registry.progress_keep, Registry.progress_keep, h]
  | _ => exact h

/-- A load has no say in what is enabled, nor in what is built in. -/
theorem effect_frame (id : LanguageId) (r : Registry) (load : Load) :
    (load.effect id r).runtime = r.runtime ∧ (load.effect id r).builtins = r.builtins ∧
      (load.effect id r).enabled = r.enabled := by
  cases load with
  | chosen =>
    rw [Load.effect, Registry.start]
    split <;> exact ⟨rfl, rfl, rfl⟩
  | _ => exact ⟨rfl, rfl, rfl⟩

/-- Loads of other languages leave a lane alone. -/
theorem lane_move_of_not_concerns (h : m.concerns id = false) :
    (t.move m).lane id = t.lane id := by
  -- The loads of other languages, and what they do to the registry, are apart from this one.
  cases m with
  | call other =>
    have hne : id ≠ other := Ne.symm (beq_eq_false_iff_ne.1 h)
    ext1
    case loads => exact congrFun (loads_call t other) id |>.trans (Function.update_of_ne hne ..)
    all_goals rfl
  | step other k =>
    have hne : id ≠ other := Ne.symm (beq_eq_false_iff_ne.1 h)
    show (t.advance other k).lane id = t.lane id
    cases hload : t.load? other k with
    | none => rw [advance_of_none hload]
    | some load =>
      obtain ⟨hruntime, hbuiltins, henabled⟩ := effect_frame other t.registry load
      rw [advance_of_some hload]
      ext1
      case runtime => exact hruntime
      case builtins => exact hbuiltins
      case enabled => exact henabled
      case files => rfl
      case progress => exact progress_effect_of_ne hne t.registry load
      case loads => exact Function.update_of_ne hne ..
  | setEnabled enabled => cases h
  | write files => cases h

theorem get?_congr {r r' : Registry} (h : r.progress.find? id = r'.progress.find? id) :
    r.get? id = r'.get? id := by
  rw [Registry.get?, Registry.get?, h]

/-- What a load does next depends on its lane only. -/
theorem next_congr (h : t.lane id = t'.lane id) (load : Load) :
    t.next id load = t'.next id load := by
  obtain ⟨hruntime, hbuiltins, -, hfiles, hprogress, hloads⟩ := Lane.ext_iff.1 h
  have hget : t.registry.get? id = t'.registry.get? id := get?_congr hprogress
  have hrules : t.registry.builtinRules? id = t'.registry.builtinRules? id :=
    congrArg (fun builtins : NameMap Builtin => (builtins.find? id).bind (·.rules)) hbuiltins
  -- Each step looks up one thing in the lane of the language.
  cases load with
  | admitted => rw [next, next, hget, show t.loads id = t'.loads id from hloads]
  | waiting => rw [next, next, hget]
  | reading =>
    have hgrammar : t.registry.prepareGrammar t.files id =
        t'.registry.prepareGrammar t'.files id := by
      unfold Registry.prepareGrammar
      rw [hrules, show t.registry.runtime = _ from hruntime, show t.files = _ from hfiles]
      rfl
    rw [next, next, hgrammar]
  | linking grammar =>
    have hparser : t.registry.prepareParser t.files id =
        t'.registry.prepareParser t'.files id := by
      unfold Registry.prepareParser
      rw [show t.registry.builtins = _ from hbuiltins, show t.registry.runtime = _ from hruntime,
        show t.files = _ from hfiles]
      rfl
    rw [next, next, hparser]
  | _ => rfl

/-- What becomes of a lane depends on the lane only. -/
theorem lane_move_congr (h : t.lane id = t'.lane id) (m : Move) :
    (t.move m).lane id = (t'.move m).lane id := by
  cases hconcerns : m.concerns id with
  | false => rw [lane_move_of_not_concerns hconcerns, lane_move_of_not_concerns hconcerns, h]
  | true =>
    obtain ⟨hruntime, hbuiltins, henabled, hfiles, hprogress, hloads⟩ := Lane.ext_iff.1 h
    -- A move of the language itself adds the same load, or has the same effect, on both sides.
    cases m with
    | call other =>
      obtain rfl : other = id := beq_iff_eq.1 hconcerns
      have hcalled : t.called other = t'.called other :=
        congrArg (fun enabled : List LanguageId =>
          if enabled.contains other then Load.admitted else .answered (.refused other)) henabled
      have hadded : (t.move (.call other)).loads other = (t'.move (.call other)).loads other := by
        rw [loads_call, loads_call, Function.update_self, Function.update_self, hcalled,
          show t.loads other = _ from hloads]
        rfl
      exact Lane.ext hruntime hbuiltins henabled hfiles hprogress hadded
    | step other k =>
      obtain rfl : other = id := beq_iff_eq.1 hconcerns
      show (t.advance other k).lane other = (t'.advance other k).lane other
      have hload : t.load? other k = t'.load? other k := congrArg (·[k]?) hloads
      cases hload' : t'.load? other k with
      | none => rw [advance_of_none hload', advance_of_none (hload.trans hload'), h]
      | some load =>
        have hframe := effect_frame other t.registry load
        have hframe' := effect_frame other t'.registry load
        rw [advance_of_some hload', advance_of_some (hload.trans hload')]
        ext1
        case runtime => exact (hframe.1.trans hruntime).trans hframe'.1.symm
        case builtins => exact (hframe.2.1.trans hbuiltins).trans hframe'.2.1.symm
        case enabled => exact (hframe.2.2.trans henabled).trans hframe'.2.2.symm
        case files => exact hfiles
        case progress => exact progress_effect_congr hprogress load
        case loads =>
          show Function.update t.loads other _ other = Function.update t'.loads other _ other
          rw [Function.update_self, Function.update_self, next_congr h,
            show t.loads other = _ from hloads]
          rfl
    | setEnabled enabled => exact Lane.ext hruntime hbuiltins rfl hfiles hprogress hloads
    | write files => exact Lane.ext hruntime hbuiltins henabled rfl hprogress hloads

/-- The loads of other languages can be left out. -/
theorem lane_run_filter (h : t.lane id = t'.lane id) (moves : List Move) :
    (t.run moves).lane id = (t'.run (moves.filter (·.concerns id))).lane id := by
  induction moves generalizing t t' with
  | nil => exact h
  | cons m rest ih =>
    cases hconcerns : m.concerns id with
    | true =>
      rw [List.filter_cons_of_pos hconcerns]
      exact ih (lane_move_congr h m)
    | false =>
      rw [List.filter_cons_of_neg (by rw [hconcerns]; decide)]
      exact ih ((lane_move_of_not_concerns hconcerns).trans h)

/-- What every step of a load keeps holds of it for good. -/
theorem exists_load?_run {motive : Load → Prop}
    (hnext : ∀ (t : Traffic) (load : Load), motive load → motive (t.next id load))
    (h : t.load? id k = some load) (hload : motive load) (moves : List Move) :
    ∃ load', (t.run moves).load? id k = some load' ∧ motive load' := by
  induction moves generalizing t load with
  | nil => exact ⟨load, h, hload⟩
  | cons m rest ih =>
    by_cases hm : m = .step id k
    · subst hm
      exact ih (advance_spec h).1 (hnext t load hload)
    · exact ih (load?_move_of_ne h hm) hload

/-- A load is there for good. -/
theorem stays_run (h : t.load? id k = some load) (moves : List Move) :
    ∃ load', (t.run moves).load? id k = some load' := by
  obtain ⟨load', hload', -⟩ := exists_load?_run (motive := fun _ => True) (fun _ _ _ => trivial) h
    trivial moves
  exact ⟨load', hload'⟩

/-- A load that has been answered stays so. -/
theorem answered_run {answer : Registry.Answer} (h : t.load? id k = some (.answered answer))
    (moves : List Move) : (t.run moves).load? id k = some (.answered answer) := by
  obtain ⟨load', hload', rfl⟩ := exists_load?_run (motive := (· = .answered answer))
    (fun t load hload => by rw [hload]; rfl) h rfl moves
  exact hload'

end Traffic

end SyntaxHighlight
