import Mathlib.Data.List.Nodup
import SyntaxHighlight.Proofs.Language.Traffic

/-!
# One load at work

`Cell` says how the loads of a language and its progress in the registry fit together: at most one
load is at work, and only while no outcome is kept. Every move keeps this (`Traffic.cell_move`), so
work is begun once (`Traffic.Logs`), no outcome is ever replaced (`Traffic.keeps_run`), and a load
that nothing comes between does the same as `Registry.load` (`Traffic.steps_of_call`).
-/

namespace SyntaxHighlight

namespace Load

/-- What a load may be that is not at work: what it has answered, if so, is a refusal or the
outcome that is kept. -/
def Rests (id : LanguageId) (kept : Option Outcome) : Load → Prop
  | admitted | waiting => True
  | chosen | reading | linking _ | closing _ => False
  | answered answer => answer = .refused id ∨ ∃ outcome, kept = some outcome ∧
      answer = .kept id outcome

theorem Rests.not_works {id : LanguageId} {kept : Option Outcome} {load : Load}
    (h : load.Rests id kept) : ¬ load.works = true := by
  cases load with
  | admitted | waiting | answered => exact nofun
  | chosen | reading | linking | closing => cases h

/-- An outcome that comes to be kept is not at odds with any load. -/
theorem Rests.of_none {id : LanguageId} {load : Load} (h : load.Rests id none)
    (kept : Option Outcome) : load.Rests id kept := by
  cases load with
  | answered answer =>
    rcases h with h | ⟨outcome, hnone, -⟩
    · exact .inl h
    · cases hnone
  | _ => exact h

end Load

/-- How the loads of a language and its progress fit together: nothing has been done yet, or exactly
one load is at work, or an outcome is kept. Only in the first case no load waits. -/
inductive Cell (id : LanguageId) (loads : Nat → Option Load) : Option Progress → Prop
  | untouched (hrest : ∀ k load, loads k = some load → load.Rests id none ∧ load ≠ .waiting) :
    Cell id loads none
  | busy (k : Nat) (load : Load) (hload : loads k = some load) (hworks : load.works = true)
    (hrest : ∀ j other, j ≠ k → loads j = some other → other.Rests id none) :
    Cell id loads load.progress?
  | settled (outcome : Outcome)
    (hrest : ∀ k load, loads k = some load → load.Rests id (some outcome)) :
    Cell id loads (some (.finished outcome))

namespace Traffic

variable {t : Traffic} {id : LanguageId} {k : Nat} {load : Load} {outcome : Outcome}

def cell (t : Traffic) (id : LanguageId) : Prop :=
  Cell id (t.load? id) (t.registry.progress.find? id)

/-- What holds of a load and of all others holds once it is put among them. -/
theorem forall_update {loads : Nat → Option Load} {motive : Nat → Load → Prop}
    (hload : motive k load) (h : ∀ j other, j ≠ k → loads j = some other → motive j other)
    (j : Nat) (other : Load) (hother : Function.update loads k (some load) j = some other) :
    motive j other := by
  by_cases hj : j = k
  · rw [hj, Function.update_self] at hother
    rw [hj, ← Option.some.inj hother]
    exact hload
  · rw [Function.update_of_ne hj] at hother
    exact h j other hj hother

/-- A load that rests does not disturb the one at work. -/
theorem busy_update {loads : Nat → Option Load} {j : Nat} {worker : Load}
    (hworker : loads j = some worker) (hworks : worker.works = true)
    (hrest : ∀ i other, i ≠ j → loads i = some other → other.Rests id none) (hj : j ≠ k)
    (hload : load.Rests id none) :
    Cell id (Function.update loads k (some load)) worker.progress? := by
  refine .busy j worker ?_ hworks fun i other hi hother => ?_
  · rw [Function.update_of_ne hj, hworker]
  · exact forall_update (motive := fun i other => i ≠ j → other.Rests id none) (fun _ => hload)
      (fun i other _ hother hi => hrest i other hi hother) i other hother hi

/-- A load that is not at work leaves the registry alone. -/
theorem effect_of_rests {kept : Option Outcome} (h : load.Rests id kept) (r : Registry) :
    load.effect id r = r := by
  cases load with
  | admitted | waiting | answered => rfl
  | chosen | reading | linking | closing => cases h

/-- While another load is at work, a load that rests can only wait. -/
theorem rests_next_of_busy (hnone : t.registry.get? id = none)
    (hbusy : (t.loads id).any Load.works = true) (h : load.Rests id none) :
    (t.next id load).Rests id none := by
  cases load with
  | admitted =>
    rw [next_admitted_of_busy hnone hbusy]
    trivial
  | waiting =>
    rw [next, hnone]
    trivial
  | answered answer => exact h
  | _ => cases h

/-- Once an outcome is kept, a load that rests is answered with it. -/
theorem rests_next_of_kept (hkept : t.registry.get? id = some outcome)
    (h : load.Rests id (some outcome)) : (t.next id load).Rests id (some outcome) := by
  cases load with
  | admitted =>
    rw [next, hkept]
    exact .inr ⟨outcome, rfl, rfl⟩
  | waiting =>
    rw [next, hkept]
    exact .inr ⟨outcome, rfl, rfl⟩
  | answered answer => exact h
  | _ => cases h

/-- A load at work stays at work until it has an outcome, and the registry keeps step with it. -/
theorem works_next (hworks : load.works = true)
    (hprogress : t.registry.progress.find? id = load.progress?) :
    (∃ outcome, load = .closing outcome) ∨
      (t.next id load).works = true ∧ (t.next id load).toCome < load.toCome ∧
        (load.effect id t.registry).progress.find? id = (t.next id load).progress? := by
  -- Only the load at work is here, and the constructors are its steps.
  cases load with
  | chosen =>
    have hrunning : (t.registry.start id).progress.find? id = some .running := by
      rw [Registry.progress_start, if_pos rfl, hprogress]
      rfl
    exact .inr ⟨rfl, Nat.lt_succ_self 3, hrunning⟩
  | reading =>
    right
    rw [next]
    split
    · exact ⟨rfl, Nat.lt_succ_self 2, hprogress⟩
    · exact ⟨rfl, by simp [Load.toCome], hprogress⟩
  | linking grammar => exact .inr ⟨rfl, Nat.lt_succ_self 1, hprogress⟩
  | closing outcome => exact .inl ⟨outcome, rfl⟩
  | _ => cases hworks

/-- No outcome is kept while a load is at work. -/
theorem get?_of_progress? {r : Registry} (h : r.progress.find? id = load.progress?) :
    r.get? id = none := by
  rw [Registry.get?, h]
  cases load <;> rfl

/-- A step of any load of a language leaves the loads and the progress of the language fitting. -/
theorem cell_advance (h : t.cell id) (hload : t.load? id k = some load) :
    (t.advance id k).cell id := by
  unfold cell at h ⊢
  rw [load?_advance hload, registry_advance hload]
  generalize hprogress : t.registry.progress.find? id = progress at h
  cases h with
  | untouched hrest =>
    -- Nothing has been done: the load is the first to be let in, or was refused.
    have hidle : ¬ (t.loads id).any Load.works = true := by
      rw [any_works_iff]
      rintro ⟨j, other, hother, hworks⟩
      exact (hrest j other hother).1.not_works hworks
    obtain ⟨hrests, hne⟩ := hrest k load hload
    rw [effect_of_rests hrests, hprogress]
    cases load with
    | admitted =>
      have hnone : t.registry.get? id = none := by rw [Registry.get?, hprogress]
      rw [next_admitted_of_idle hnone hidle]
      refine .busy k .chosen (Function.update_self ..) rfl fun j other hj hother => ?_
      rw [Function.update_of_ne hj] at hother
      exact (hrest j other hother).1
    | answered answer =>
      exact .untouched (forall_update ⟨hrests, hne⟩ fun j other _ => hrest j other)
    | waiting => exact absurd rfl hne
    | _ => cases hrests
  | busy j worker hworker hworks hrest =>
    -- Either the load at work takes the step, or one that can only wait for it.
    by_cases hk : k = j
    · subst hk
      obtain rfl : load = worker := Option.some.inj (hload.symm.trans hworker)
      -- Its last step keeps an outcome, and with every other one it stays at work.
      rcases works_next hworks hprogress with ⟨outcome, rfl⟩ | ⟨hworks', -, hprogress'⟩
      · rw [Load.effect, Registry.progress_keep, if_pos rfl]
        exact .settled outcome (forall_update (.inr ⟨outcome, rfl, rfl⟩)
          fun i other hi hother => (hrest i other hi hother).of_none _)
      · rw [hprogress']
        refine .busy k _ (Function.update_self ..) hworks' fun i other hi hother => ?_
        rw [Function.update_of_ne hi] at hother
        exact hrest i other hi hother
    · have hrests := hrest k load hk hload
      have hnone : t.registry.get? id = none := get?_of_progress? hprogress
      have hbusy : (t.loads id).any Load.works = true :=
        any_works_iff.2 ⟨j, worker, hworker, hworks⟩
      rw [effect_of_rests hrests, hprogress]
      exact busy_update hworker hworks hrest (Ne.symm hk) (rests_next_of_busy hnone hbusy hrests)
  | settled outcome hrest =>
    have hrests := hrest k load hload
    -- With an outcome kept, the load answers with it or has answered.
    have hkept := Registry.get?_eq_some_iff.2 hprogress
    rw [effect_of_rests hrests, hprogress]
    exact .settled outcome
      (forall_update (rests_next_of_kept hkept hrests) fun j other _ => hrest j other)

/-- A load that is called comes in where it does not disturb the one at work. -/
theorem cell_call (h : t.cell id) : (t.move (.call id)).cell id := by
  have hcalled : ∀ kept, (t.called id).Rests id kept ∧ t.called id ≠ .waiting := by
    intro kept
    unfold called
    split
    · exact ⟨trivial, nofun⟩
    · exact ⟨.inl rfl, nofun⟩
  show Cell id ((t.move (.call id)).load? id) (t.registry.progress.find? id)
  unfold cell at h
  rw [load?_call]
  generalize t.registry.progress.find? id = progress at h
  -- The load that is called rests in each of the three cases.
  cases h with
  | untouched hrest =>
    exact .untouched (forall_update (hcalled none) fun j other _ => hrest j other)
  | busy j worker hworker hworks hrest =>
    have hj : j ≠ (t.loads id).length := Nat.ne_of_lt (lt_of_load? hworker)
    exact busy_update hworker hworks hrest hj (hcalled none).1
  | settled outcome hrest =>
    exact .settled outcome (forall_update (hcalled _).1 fun j other _ => hrest j other)

/-- Whatever happens next, the loads of a language fit its progress. -/
theorem cell_move (h : t.cell id) (m : Move) : (t.move m).cell id := by
  -- What does not concern the language leaves its lane, and so the cell.
  cases hconcerns : m.concerns id with
  | false =>
    obtain ⟨-, -, -, -, hprogress, hloads⟩ :=
      Lane.ext_iff.1 (lane_move_of_not_concerns (t := t) hconcerns)
    have hload : (t.move m).load? id = t.load? id :=
      congrArg (fun (loads : List Load) (k : Nat) => loads[k]?) hloads
    rw [cell, hload, show (t.move m).registry.progress.find? id = _ from hprogress]
    exact h
  | true =>
    cases m with
    | call other =>
      obtain rfl : other = id := beq_iff_eq.1 hconcerns
      exact cell_call h
    | step other k =>
      obtain rfl : other = id := beq_iff_eq.1 hconcerns
      show (t.advance other k).cell other
      cases hload : t.load? other k with
      | none => rwa [advance_of_none hload]
      | some load => exact cell_advance h hload
    | setEnabled enabled => exact h
    | write files => exact h

/-- While a load is at work, the language has come as far as the load. -/
theorem progress_of_works (h : t.cell id) (hload : t.load? id k = some load)
    (hworks : load.works = true) : t.registry.progress.find? id = load.progress? := by
  unfold cell at h
  generalize t.registry.progress.find? id = progress at h
  cases h with
  | untouched hrest => exact absurd hworks (hrest k load hload).1.not_works
  | busy j worker hworker _ hrest =>
    by_cases hk : k = j
    · rw [hk, hworker] at hload
      rw [Option.some.inj hload]
    · exact absurd hworks (hrest k load hk hload).not_works
  | settled outcome hrest => exact absurd hworks (hrest k load hload).not_works

/-- The work on every language that has come to something was begun, and once. -/
structure Logs (r : Registry) (begun : List LanguageId) : Prop where
  nodup : begun.Nodup
  starts : r.starts = begun.length
  mem : ∀ id, id ∈ begun ↔ (r.progress.find? id).isSome = true

/-- Work is begun by the step that starts it, and by no other. -/
theorem logs_effect {r : Registry} {begun : List LanguageId} (h : Logs r begun)
    (hprogress : load.works = true → r.progress.find? id = load.progress?) :
    Logs (load.effect id r) (begun ++ load.begins id) := by
  cases load with
  | chosen =>
    -- The step that chooses a load starts the work, which was not begun before.
    have hnone : r.progress.find? id = none := hprogress rfl
    have hnew : id ∉ begun := by
      rw [h.mem, hnone]
      exact nofun
    show Logs (r.start id) (begun ++ [id])
    constructor
    case nodup =>
      rw [← List.concat_eq_append]
      exact h.nodup.concat hnew
    case starts =>
      rw [Registry.start_of_none hnone, List.length_append, ← h.starts]
      rfl
    case mem =>
      intro other
      rw [List.mem_append, List.mem_singleton, Registry.progress_start, h.mem]
      split
      · next hother => simp [hother]
      · next hother => simp [hother]
  | closing outcome =>
    -- The outcome is that of work begun before.
    have hrunning : r.progress.find? id = some .running := hprogress rfl
    show Logs (r.keep id outcome) (begun ++ [])
    rw [List.append_nil]
    refine ⟨h.nodup, h.starts, fun other => ?_⟩
    rw [Registry.progress_keep, h.mem]
    split
    · next hother => simp [hother, hrunning]
    · rfl
  | _ =>
    show Logs r (begun ++ [])
    rw [List.append_nil]
    exact h

/-- The loads of every language fit its progress, and the work on it is logged. -/
structure Sound (t : Traffic) : Prop where
  cell : ∀ id, t.cell id
  log : Logs t.registry t.begun

/-- Before any load is called, nothing has been done. -/
theorem sound_create (runtime : String) (builtins : NameMap Builtin) (enabled : List LanguageId)
    (files : FileTree) : (create runtime builtins enabled files).Sound where
  cell _ := .untouched fun _ _ h => by cases h
  log := ⟨List.nodup_nil, rfl, fun id => by simp [create]⟩

/-- Every move keeps the loads of all languages fitting. -/
theorem sound_move (h : t.Sound) (m : Move) : (t.move m).Sound := by
  refine ⟨fun id => cell_move (h.cell id) m, ?_⟩
  cases m with
  | step id k =>
    show Logs (t.advance id k).registry (t.advance id k).begun
    cases hload : t.load? id k with
    | none =>
      rw [advance_of_none hload]
      exact h.log
    | some load =>
      rw [advance_of_some hload]
      exact logs_effect h.log (progress_of_works (h.cell id) hload)
  | setEnabled enabled => exact ⟨h.log.nodup, h.log.starts, h.log.mem⟩
  | _ => exact h.log

theorem sound_run (h : t.Sound) (moves : List Move) : (t.run moves).Sound := by
  induction moves generalizing t with
  | nil => exact h
  | cons m rest ih => exact ih (sound_move h m)

/-- No move changes an outcome that is kept. -/
theorem keeps_move (h : t.Sound) (m : Move) : t.registry.Keeps (t.move m).registry := by
  cases m with
  | step id k =>
    show t.registry.Keeps (t.advance id k).registry
    cases hload : t.load? id k with
    | none =>
      rw [advance_of_none hload]
      exact fun _ _ hkept => hkept
    | some load =>
      rw [registry_advance hload]
      -- An outcome is kept by the step that closes a load, and the load was at work until then.
      cases load with
      | chosen => exact Registry.keeps_start t.registry id
      | closing outcome =>
        have hprogress := progress_of_works (h.cell id) hload rfl
        exact Registry.keeps_insert rfl (get?_of_progress? hprogress)
      | _ => exact fun _ _ hkept => hkept
  | _ => exact fun _ _ hkept => hkept

/-- No moves take back an outcome. -/
theorem keeps_run (h : t.Sound) (moves : List Move) : t.registry.Keeps (t.run moves).registry := by
  induction moves generalizing t with
  | nil => exact fun _ _ hkept => hkept
  | cons m rest ih =>
    exact fun id outcome hkept => ih (sound_move h m) id outcome (keeps_move h m id outcome hkept)

/-- What a load is answered with, if it is not refused, is the outcome that is kept. -/
theorem get?_of_answered (h : t.cell id)
    (hload : t.load? id k = some (.answered (.kept id outcome))) :
    t.registry.get? id = some outcome := by
  unfold cell at h
  generalize hprogress : t.registry.progress.find? id = progress at h
  have hrests : ∀ {kept}, (Load.answered (.kept id outcome)).Rests id kept →
      kept = some outcome := by
    rintro kept (hrefused | ⟨outcome', hkept, hsame⟩)
    · cases hrefused
    · rw [hkept, (Registry.Answer.kept.inj hsame).2]
  -- An answer with an outcome is that of a load at rest, so an outcome is kept.
  cases h with
  | untouched hrest => cases hrests (hrest k _ hload).1
  | busy j worker hworker hworks hrest =>
    by_cases hk : k = j
    · rw [hk, hworker] at hload
      rw [Option.some.inj hload] at hworks
      cases hworks
    · cases hrests (hrest k _ hk hload)
  | settled kept hrest =>
    obtain rfl := Option.some.inj (hrests (hrest k _ hload))
    exact Registry.get?_eq_some_iff.2 hprogress

/-! ### A load by itself -/

theorem run_steps_succ (t : Traffic) (id : LanguageId) (k n : Nat) :
    t.run (List.replicate (n + 1) (.step id k)) =
      (t.advance id k).run (List.replicate n (.step id k)) := rfl

/-- The steps of a load that is over do nothing. -/
theorem registry_steps_of_answered {answer : Registry.Answer}
    (h : t.load? id k = some (.answered answer)) (n : Nat) :
    (t.run (List.replicate n (.step id k))).registry = t.registry := by
  induction n generalizing t with
  | zero => rfl
  | succ n ih =>
    obtain ⟨hload, hregistry, -⟩ := advance_spec h
    rw [run_steps_succ]
    exact (ih hload).trans hregistry

/-- A load that nothing comes between comes to the outcome of the files as they are. -/
theorem steps_of_reading (h : t.load? id k = some .reading) :
    (t.run (List.replicate 3 (.step id k))).load? id k =
        some (.answered (.kept id (t.registry.prepare t.files id))) ∧
      (t.run (List.replicate 3 (.step id k))).registry =
        t.registry.keep id (t.registry.prepare t.files id) := by
  obtain ⟨hload, hregistry, hfiles⟩ := advance_spec h
  rw [Registry.prepare_eq_bind]
  show (((t.advance id k).advance id k).advance id k).load? id k = _ ∧
    (((t.advance id k).advance id k).advance id k).registry = _
  -- Without a grammar the parser is not looked for, and the load closes one step earlier.
  cases hgrammar : t.registry.prepareGrammar t.files id with
  | error error =>
    rw [next, hgrammar] at hload
    obtain ⟨hload', hregistry', -⟩ := advance_spec hload
    obtain ⟨hload'', hregistry'', -⟩ := advance_spec hload'
    refine ⟨hload'', ?_⟩
    rw [hregistry'', hregistry', hregistry]
    rfl
  | ok grammar =>
    rw [next, hgrammar] at hload
    obtain ⟨hload', hregistry', -⟩ := advance_spec hload
    obtain ⟨hload'', hregistry'', -⟩ := advance_spec hload'
    have hparser : (t.advance id k).registry.prepareParser (t.advance id k).files id =
        t.registry.prepareParser t.files id := by
      rw [hregistry, hfiles]
      rfl
    rw [hload'', hregistry'', hregistry', hregistry, next, hparser]
    exact ⟨rfl, rfl⟩

/-- A load that nothing comes between is `Registry.load`. -/
theorem steps_of_call (ht : t.Sound) (hfree : ¬ (t.loads id).any Load.works = true)
    (hk : k = (t.loads id).length) :
    (t.run (.call id :: List.replicate 5 (.step id k))).load? id k =
        some (.answered (t.registry.load t.files id).1) ∧
      (t.run (.call id :: List.replicate 5 (.step id k))).registry =
        (t.registry.load t.files id).2 := by
  have hcalled := load?_called t id
  rw [← hk] at hcalled
  rw [run_cons]
  cases henabled : t.registry.isEnabled id with
  | false =>
    rw [called, henabled] at hcalled
    rw [Registry.load, henabled]
    exact ⟨answered_run hcalled _, registry_steps_of_answered hcalled 5⟩
  | true =>
    rw [called, if_pos henabled] at hcalled
    obtain ⟨hload, hregistry, hfiles⟩ := advance_spec hcalled
    have hget : (t.move (.call id)).registry.get? id = t.registry.get? id := rfl
    have hcell := ht.cell id
    unfold cell at hcell
    generalize hprogress : t.registry.progress.find? id = progress at hcell
    -- As no load is at work, this one is chosen, or answers with what is kept.
    cases hcell with
    | untouched hrest =>
      have hnone : t.registry.get? id = none := by rw [Registry.get?, hprogress]
      have hidle : ¬ ((t.move (.call id)).loads id).any Load.works = true := by
        rw [loads_call, Function.update_self, called, if_pos henabled, List.any_append]
        simpa [Load.works] using hfree
      rw [next_admitted_of_idle (hget.trans hnone) hidle] at hload
      obtain ⟨hreading, hstarted, hfiles'⟩ := advance_spec hload
      obtain ⟨hanswered, hkept⟩ := steps_of_reading hreading
      rw [hstarted, hfiles', hfiles, hregistry] at hanswered hkept
      rw [Registry.load_of_none henabled hprogress, run_steps_succ, run_steps_succ]
      exact ⟨hanswered, hkept⟩
    | busy j worker hworker hworks hrest =>
      exact absurd (any_works_iff.2 ⟨j, worker, hworker, hworks⟩) hfree
    | settled outcome hrest =>
      have hkept : t.registry.get? id = some outcome := Registry.get?_eq_some_iff.2 hprogress
      rw [next, hget, hkept] at hload
      rw [Registry.load_of_kept henabled hkept, run_steps_succ]
      exact ⟨answered_run hload _, (registry_steps_of_answered hload 4).trans hregistry⟩

end Traffic

end SyntaxHighlight
