import SyntaxHighlight.Proofs.Engine.Readiness
import SyntaxHighlight.Proofs.Language.Cell

/-!
# Every load is answered

A load that has been called may wait for another, which is then at work and comes to its end in at
most four steps (`Traffic.Nears`). So if all loads of a language take a step in each of six rounds,
whatever else happens in between, each of them is answered (`Traffic.answered_of_fair`). That all
answers are the same, and that the work was done once, is put together with it in
`Traffic.gets_ready_once`.
-/

namespace SyntaxHighlight

namespace Traffic

variable {t : Traffic} {id : LanguageId} {k : Nat} {load : Load} {outcome : Outcome}

/-- The next time that a load takes a step. -/
theorem exists_run_step (h : t.load? id k = some load) {moves : List Move}
    (hmem : .step id k ∈ moves) :
    ∃ before after, moves = before ++ .step id k :: after ∧
      (t.run before).load? id k = some load := by
  obtain ⟨before, after, rfl, hnot⟩ := List.eq_append_cons_of_mem hmem
  refine ⟨before, after, rfl, ?_⟩
  clear hmem
  induction before generalizing t with
  | nil => exact h
  | cons m rest ih =>
    rw [List.mem_cons, not_or] at hnot
    exact ih (load?_move_of_ne h (Ne.symm hnot.1)) hnot.2

/-- A language has an outcome, or a load is at work on it that comes to its end in some steps. -/
def Nears (t : Traffic) (id : LanguageId) (n : Nat) : Prop :=
  (∃ outcome, t.registry.get? id = some outcome) ∨
    ∃ k load, t.load? id k = some load ∧ load.works = true ∧ load.toCome ≤ n

/-- A step of the load that is at work. -/
theorem nears_advance {n : Nat} (h : t.cell id) (hload : t.load? id k = some load)
    (hworks : load.works = true) (hle : load.toCome ≤ n + 1) : (t.advance id k).Nears id n := by
  rcases works_next hworks (progress_of_works h hload hworks) with
    ⟨outcome, rfl⟩ | ⟨hworks', hlt, -⟩
  · left
    refine ⟨outcome, Registry.get?_eq_some_iff.2 ?_⟩
    rw [registry_advance hload, Load.effect, Registry.progress_keep, if_pos rfl]
  · right
    exact ⟨k, t.next id load, (advance_spec hload).1, hworks', by omega⟩

/-- No move takes a language further from its outcome. -/
theorem Nears.move {n : Nat} (h : t.Nears id n) (ht : t.Sound) (m : Move) :
    (t.move m).Nears id n := by
  rcases h with ⟨outcome, hkept⟩ | ⟨k, load, hload, hworks, hcome⟩
  · exact .inl ⟨outcome, keeps_move ht m id outcome hkept⟩
  · by_cases hm : m = .step id k
    · subst hm
      exact nears_advance (ht.cell id) hload hworks (Nat.le_succ_of_le hcome)
    · exact .inr ⟨k, load, load?_move_of_ne hload hm, hworks, hcome⟩

theorem Nears.run {n : Nat} (h : t.Nears id n) (ht : t.Sound) (moves : List Move) :
    (t.run moves).Nears id n := by
  induction moves generalizing t with
  | nil => exact h
  | cons m rest ih => exact ih (h.move ht m) (sound_move ht m)

/-- Every load of a language that there is takes a step. -/
def Round (t : Traffic) (id : LanguageId) (moves : List Move) : Prop :=
  ∀ k < (t.loads id).length, .step id k ∈ moves

/-- With each round the outcome comes nearer. -/
theorem Nears.round {n : Nat} (h : t.Nears id (n + 1)) (ht : t.Sound) {moves : List Move}
    (hround : t.Round id moves) : (t.run moves).Nears id n := by
  rcases h with ⟨outcome, hkept⟩ | ⟨k, load, hload, hworks, hcome⟩
  · exact .inl ⟨outcome, keeps_run ht moves id outcome hkept⟩
  · -- Somewhere in the round the load at work takes its step.
    obtain ⟨before, after, rfl, hbefore⟩ := exists_run_step hload (hround k (lt_of_load? hload))
    have hsound := sound_run ht before
    rw [run_append, run_cons]
    exact Nears.run (nears_advance (hsound.cell id) hbefore hworks hcome)
      (sound_move hsound (.step id k)) after

/-- A load at work is at most four steps from the outcome. -/
theorem nears_of_works (hload : t.load? id k = some load) (hworks : load.works = true) :
    t.Nears id 4 :=
  .inr ⟨k, load, hload, hworks, load.toCome_le⟩

/-- Nobody waits in vain. -/
theorem nears_of_waiting (h : t.cell id) (hload : t.load? id k = some .waiting) :
    t.Nears id 4 := by
  unfold cell at h
  generalize hprogress : t.registry.progress.find? id = progress at h
  cases h with
  | untouched hrest => exact absurd rfl (hrest k .waiting hload).2
  | busy j worker hworker hworks hrest => exact nears_of_works hworker hworks
  | settled outcome hrest => exact .inl ⟨outcome, Registry.get?_eq_some_iff.2 hprogress⟩

/-- A load that is admitted finds an outcome, or a load that is at work, or sets to work itself. -/
theorem nears_of_admitted (hload : t.load? id k = some .admitted) :
    (t.advance id k).Nears id 4 := by
  obtain ⟨hafter, hregistry, -⟩ := advance_spec hload
  cases hkept : t.registry.get? id with
  | some outcome => exact .inl ⟨outcome, (congrArg (Registry.get? · id) hregistry).trans hkept⟩
  | none =>
    by_cases hbusy : (t.loads id).any Load.works = true
    -- The load at work is another one, and the step leaves it as it is.
    · obtain ⟨j, worker, hworker, hworks⟩ := any_works_iff.1 hbusy
      have hj : Move.step id k ≠ .step id j := by
        rintro ⟨⟩
        rw [hload] at hworker
        cases hworker
        cases hworks
      exact nears_of_works (load?_move_of_ne hworker hj) hworks
    · rw [next_admitted_of_idle hkept hbusy] at hafter
      exact nears_of_works hafter rfl

/-- A round is enough to have a load at work. -/
theorem nears_of_round (ht : t.Sound) (hload : t.load? id k = some load)
    (hopen : ∀ answer, load ≠ .answered answer) {moves : List Move} (hround : t.Round id moves) :
    (t.run moves).Nears id 4 := by
  cases load with
  | admitted =>
    obtain ⟨before, after, rfl, hbefore⟩ := exists_run_step hload (hround k (lt_of_load? hload))
    rw [run_append, run_cons]
    exact (nears_of_admitted hbefore).run (sound_move (sound_run ht before) (.step id k)) after
  | waiting => exact (nears_of_waiting (ht.cell id) hload).run ht moves
  | answered answer => exact absurd rfl (hopen answer)
  | _ => exact (nears_of_works hload rfl).run ht moves

/-- Once an outcome is kept, a round is enough to have every load answered. -/
theorem answered_of_kept (ht : t.Sound) (hkept : t.registry.get? id = some outcome)
    (hload : t.load? id k = some load) {moves : List Move} (hround : t.Round id moves) :
    ∃ answer, (t.run moves).load? id k = some (.answered answer) := by
  obtain ⟨before, after, rfl, hbefore⟩ := exists_run_step hload (hround k (lt_of_load? hload))
  have hstill := keeps_run ht before id outcome hkept
  have hcell := (sound_run ht before).cell id
  -- A load that looks for the outcome finds it, and none is at work once it is kept.
  have hnext : ∃ answer, (t.run before).next id load = .answered answer := by
    cases hworks : load.works with
    | true =>
      rw [get?_of_progress? (progress_of_works hcell hbefore hworks)] at hstill
      cases hstill
    | false =>
      cases load with
      | admitted => exact ⟨_, by rw [next, hstill]⟩
      | waiting => exact ⟨_, by rw [next, hstill]⟩
      | answered answer => exact ⟨answer, rfl⟩
      | _ => cases hworks
  obtain ⟨answer, hanswer⟩ := hnext
  have hafter := (advance_spec hbefore).1
  rw [hanswer] at hafter
  rw [run_append, run_cons]
  exact ⟨answer, answered_run hafter after⟩

/-- Rounds one after another, each from where the last one has led. -/
def Fair (t : Traffic) (id : LanguageId) : List (List Move) → Prop
  | [] => True
  | moves :: rest => t.Round id moves ∧ (t.run moves).Fair id rest

/-- As the outcome comes nearer with each round, one round more than its distance has every load
answered. -/
theorem answered_of_nears {n : Nat} {rounds : List (List Move)} (h : t.Nears id n) (ht : t.Sound)
    (hload : t.load? id k = some load) (hfair : t.Fair id rounds) (hn : n < rounds.length) :
    ∃ answer, (t.run rounds.flatten).load? id k = some (.answered answer) := by
  induction rounds generalizing t n load with
  | nil => cases hn
  | cons moves rest ih =>
    rw [List.flatten_cons, run_append]
    cases n with
    | zero =>
      -- No work is left, so the outcome is there and this round is the last that is needed.
      rcases h with ⟨outcome, hkept⟩ | ⟨j, worker, -, hworks, hcome⟩
      · obtain ⟨answer, hanswer⟩ := answered_of_kept ht hkept hload hfair.1
        exact ⟨answer, answered_run hanswer rest.flatten⟩
      · exact absurd hcome (Nat.not_le_of_lt (Load.toCome_pos hworks))
    | succ n =>
      obtain ⟨load', hload'⟩ := stays_run hload moves
      exact ih (h.round ht hfair.1) (sound_run ht moves) hload' hfair.2 (Nat.lt_of_succ_lt_succ hn)

/-- **Six rounds** answer every load: one to have a load at work, four for its steps, and one for
the others to see the outcome. -/
theorem answered_of_fair {rounds : List (List Move)} (ht : t.Sound)
    (hload : t.load? id k = some load) (hfair : t.Fair id rounds) (hsix : 6 ≤ rounds.length) :
    ∃ answer, (t.run rounds.flatten).load? id k = some (.answered answer) := by
  cases rounds with
  | nil => cases hsix
  | cons moves rest =>
    rw [List.flatten_cons, run_append]
    by_cases hopen : ∀ answer, load ≠ .answered answer
    · obtain ⟨load', hload'⟩ := stays_run hload moves
      rw [List.length_cons] at hsix
      exact answered_of_nears (nears_of_round ht hload hopen hfair.1) (sound_run ht moves) hload'
        hfair.2 (by omega)
    · obtain ⟨answer, hanswer⟩ := not_forall_not.1 hopen
      rw [hanswer] at hload
      exact ⟨answer, answered_run (answered_run hload moves) rest.flatten⟩

theorem length_loads_advance (t : Traffic) (id : LanguageId) (k : Nat) (other : LanguageId) :
    ((t.advance id k).loads other).length = (t.loads other).length := by
  cases hload : t.load? id k with
  | none => rw [advance_of_none hload]
  | some load =>
    rw [loads_advance hload, Function.update_apply]
    split
    · next hother => rw [hother, List.length_set]
    · rfl

theorem length_loads_steps (t : Traffic) (id : LanguageId) (ks : List Nat) :
    ((t.run (ks.map (.step id))).loads id).length = (t.loads id).length := by
  induction ks generalizing t with
  | nil => rfl
  | cons k rest ih => exact (ih _).trans (length_loads_advance t id k id)

/-- There are always rounds to come: all loads take turns. -/
theorem fair_turns (t : Traffic) (id : LanguageId) (n : Nat) :
    t.Fair id (List.replicate n ((List.range (t.loads id).length).map (.step id))) := by
  induction n generalizing t with
  | zero => trivial
  | succ n ih =>
    refine ⟨fun k hk => List.mem_map.2 ⟨k, List.mem_range.2 hk, rfl⟩, ?_⟩
    have hrest := ih (t.run ((List.range (t.loads id).length).map (.step id)))
    rw [length_loads_steps] at hrest
    exact hrest

/-! ### The answers -/

/-- A step answers with an outcome only. -/
theorem next_eq_answered {answer : Registry.Answer} (h : t.next id load = .answered answer) :
    load = .answered answer ∨ ∃ outcome, answer = .kept id outcome := by
  -- A load is refused when it is called or never.
  cases load with
  | admitted =>
    rw [next] at h
    split at h
    · next outcome _ => exact .inr ⟨outcome, (Load.answered.inj h).symm⟩
    · split at h <;> cases h
  | waiting =>
    rw [next] at h
    split at h
    · next outcome _ => exact .inr ⟨outcome, (Load.answered.inj h).symm⟩
    · cases h
  | chosen => cases h
  | reading =>
    rw [next] at h
    split at h <;> cases h
  | linking grammar => cases h
  | closing outcome => exact .inr ⟨outcome, (Load.answered.inj h).symm⟩
  | answered old => exact .inl h

/-- A load of a language that was enabled is never refused. -/
theorem not_refused_run (h : t.load? id k = some .admitted) {moves : List Move}
    {answer : Registry.Answer} (hanswer : (t.run moves).load? id k = some (.answered answer)) :
    ∃ outcome, answer = .kept id outcome := by
  have hnext : ∀ (t : Traffic) (load : Load),
      (∀ answer, load = .answered answer → ∃ outcome, answer = .kept id outcome) →
      ∀ answer, t.next id load = .answered answer → ∃ outcome, answer = .kept id outcome := by
    intro t load hold answer hanswer
    rcases next_eq_answered hanswer with hsame | hkept
    · exact hold answer hsame
    · exact hkept
  obtain ⟨load, hload, hkept⟩ := exists_load?_run (motive := fun load =>
    ∀ answer, load = .answered answer → ∃ outcome, answer = .kept id outcome) hnext h nofun moves
  exact hkept answer (Option.some.inj (hload.symm.trans hanswer))

/-- **Every language is made ready once, and all its loads share the outcome.** However loads, their
steps, settings and changes of files come one after another:

* the work on a language is begun at most once, and the number of starts is the number of languages
  that it was begun on;
* an outcome that is kept stays the same;
* a load of a language that is enabled when it is called is answered with the outcome that is kept,
  and it is answered, at the latest after six rounds in which all loads of the language take a step;
* a load of a language that is not enabled when it is called is refused, and leaves the registry as
  it is;
* the loads of a language and its outcome are what they would be without the loads of all other
  languages;
* a load that comes while no other is at work, and that nothing comes between, is `Registry.load`.
-/
theorem gets_ready_once (runtime : String) (builtins : NameMap Builtin)
    (enabled : List LanguageId) (files : FileTree) (moves : List Move) {start t : Traffic}
    (hstart : start = create runtime builtins enabled files) (ht : t = start.run moves)
    (id : LanguageId) {k : Nat} (hk : k = (t.loads id).length) :
    (t.begun.Nodup ∧ t.registry.starts = t.begun.length) ∧
    (∀ outcome more, t.registry.get? id = some outcome →
      (t.run more).registry.get? id = some outcome) ∧
    (t.registry.isEnabled id = true →
      (∀ more answer, (t.run (.call id :: more)).load? id k = some (.answered answer) →
        ∃ outcome, answer = .kept id outcome ∧
          (t.run (.call id :: more)).registry.get? id = some outcome) ∧
      ∀ rounds, (t.move (.call id)).Fair id rounds → 6 ≤ rounds.length →
        ∃ answer, (t.run (.call id :: rounds.flatten)).load? id k = some (.answered answer)) ∧
    (t.registry.isEnabled id = false →
      ((t.move (.call id)).registry = t.registry ∧ (t.move (.call id)).begun = t.begun) ∧
      ∃ answer, answer.outcome = .error (.disabled id) ∧
        ∀ more, (t.run (.call id :: more)).load? id k = some (.answered answer)) ∧
    (t.loads id = (start.run (moves.filter (·.concerns id))).loads id ∧
      t.registry.get? id = (start.run (moves.filter (·.concerns id))).registry.get? id) ∧
    (¬ (t.loads id).any Load.works = true →
      (t.run (.call id :: List.replicate 5 (.step id k))).load? id k =
          some (.answered (t.registry.load t.files id).1) ∧
        (t.run (.call id :: List.replicate 5 (.step id k))).registry =
          (t.registry.load t.files id).2) := by
  -- All parts come from what holds behind any moves.
  have hsound : t.Sound := by
    rw [ht, hstart]
    exact sound_run (sound_create runtime builtins enabled files) moves
  have hcalled := load?_called t id
  rw [← hk] at hcalled
  refine ⟨⟨hsound.log.nodup, hsound.log.starts⟩, ?_, ?_, ?_, ?_, ?_⟩
  · intro outcome more hkept
    exact keeps_run hsound more id outcome hkept
  · intro henabled
    rw [called, if_pos henabled] at hcalled
    constructor
    · intro more answer hanswer
      obtain ⟨outcome, rfl⟩ := not_refused_run hcalled hanswer
      have hsound' := sound_run hsound (.call id :: more)
      exact ⟨outcome, rfl, get?_of_answered (hsound'.cell id) hanswer⟩
    · intro rounds hfair hsix
      exact answered_of_fair (sound_move hsound (.call id)) hcalled hfair hsix
  · intro hdisabled
    rw [called, hdisabled] at hcalled
    exact ⟨⟨rfl, rfl⟩, .refused id, rfl, answered_run hcalled⟩
  · have hlane : t.lane id = (start.run (moves.filter (·.concerns id))).lane id := by
      rw [ht]
      exact lane_run_filter rfl moves
    exact ⟨congrArg Lane.loads hlane, get?_congr (congrArg Lane.progress hlane)⟩
  · intro hfree
    exact steps_of_call hsound hfree hk

end Traffic

namespace Sample

/-- A load has begun, and another one waits for it. -/
def overlapping : List Traffic.Move :=
  [.call "digits", .step "digits" 0, .step "digits" 0, .call "digits", .step "digits" 1]

end Sample

/-- A third load is called, and all three take turns. -/
theorem Traffic.gets_ready_once_overlapping :
    ∃ t more, t = (create "" Sample.stocked.builtins ["digits"] (.empty "/")).run
        Sample.overlapping ∧
      t.begun = ["digits"] ∧ t.load? "digits" 0 = some .reading ∧
      t.load? "digits" 1 = some .waiting ∧
      ∃ outcome, (t.run (.call "digits" :: more)).registry.get? "digits" = some outcome ∧
        (t.run (.call "digits" :: more)).load? "digits" 2 =
          some (.answered (.kept "digits" outcome)) := by
  obtain ⟨-, -, hcalled, -⟩ := gets_ready_once "" Sample.stocked.builtins ["digits"] (.empty "/")
    Sample.overlapping rfl rfl "digits" (k := 2) rfl
  obtain ⟨hkept, hanswered⟩ := hcalled (by decide)
  obtain ⟨answer, hanswer⟩ := hanswered _ (fair_turns _ "digits" 6) (by decide)
  obtain ⟨outcome, rfl, hget⟩ := hkept _ answer hanswer
  exact ⟨_, _, rfl, rfl, rfl, rfl, outcome, hget, hanswer⟩

end SyntaxHighlight
