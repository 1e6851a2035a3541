import Mathlib.Data.List.Induction
import SyntaxHighlight.Timer

/-!
# Timers are told by their histories

What a timer answers depends on everything that was done to it before, and of that on little: on
the latest time at which it was armed, unless it was cancelled or taken since, and on the delay that
was in force then. `Timer.Pending` reads this off a history; that it is the deadline of the timer is
kept by every move (`Timer.Told.move`) and so holds after all of them (`Timer.told_history`).

The stages of a schedule share no more than the change of both delays. What happens to a stage, with
whatever is done to the other in between, is what happens to a timer of its own
(`Schedule.own_history`), so `Schedule.fires_by_history` tells all answers from the moves.
-/

namespace SyntaxHighlight

/-- A move that was made, and the answer to it if it is a question. -/
structure Happening (α : Type) where
  move : α
  answer : Option Bool
deriving DecidableEq

/-- What happens when moves are made one after the other. -/
def happenings {σ α : Type} (act : σ → α → Option Bool × σ) (s : σ) :
    List α → List (Happening α)
  | [] => []
  | m :: rest => ⟨m, (act s m).1⟩ :: happenings act (act s m).2 rest

def stateAfter {σ α : Type} (act : σ → α → Option Bool × σ) (s : σ) (moves : List α) : σ :=
  moves.foldl (fun s m => (act s m).2) s

section

variable {σ α : Type} (act : σ → α → Option Bool × σ)

/-- What happens at a last move is told by the state in front of it. -/
theorem happenings_concat (s : σ) (moves : List α) (m : α) :
    happenings act s (moves ++ [m]) =
      happenings act s moves ++ [⟨m, (act (stateAfter act s moves) m).1⟩] := by
  induction moves generalizing s with
  | nil => rfl
  | cons first rest ih =>
    rw [List.cons_append, happenings, ih, happenings, List.cons_append]
    rfl

theorem stateAfter_concat (s : σ) (moves : List α) (m : α) :
    stateAfter act s (moves ++ [m]) = (act (stateAfter act s moves) m).2 := by
  rw [stateAfter, List.foldl_append]
  rfl

/-- What has happened up to a moment is what happens with the moves up to it. -/
theorem exists_of_happenings_eq {s : σ} {moves : List α} {past later : List (Happening α)}
    {h : Happening α} (heq : happenings act s moves = past ++ h :: later) :
    ∃ front, past = happenings act s front ∧
      h.answer = (act (stateAfter act s front) h.move).1 := by
  -- On what has happened, with the moves in step.
  induction past generalizing s moves with
  | nil =>
    cases moves with
    | nil => cases heq
    | cons m rest =>
      cases heq
      exact ⟨[], rfl, rfl⟩
  | cons first past ih =>
    cases moves with
    | nil => cases heq
    | cons m rest =>
      obtain ⟨hfirst, hrest⟩ := List.cons.inj heq
      obtain ⟨front, hpast, hanswer⟩ := ih hrest
      refine ⟨m :: front, ?_, hanswer⟩
      rw [← hfirst, hpast, happenings]

/-- Every move that is made happens, in order. -/
theorem map_move_happenings (s : σ) (moves : List α) :
    (happenings act s moves).map (·.move) = moves := by
  induction moves generalizing s with
  | nil => rfl
  | cons m rest ih => rw [happenings, List.map_cons, ih]

end

namespace Timer

inductive Move where
  | arm (now : Nat)
  /-- Ask whether the deadline has come, and drop it if so. -/
  | take (now : Nat)
  /-- Ask whether the deadline has come. -/
  | ask (now : Nat)
  | cancel
  | withDelay (delay : Nat)
deriving DecidableEq

def act (t : Timer) : Move → Option Bool × Timer
  | .arm now => (none, t.arm now)
  | .take now => (some (t.expire now).1, (t.expire now).2)
  | .ask now => (some (t.isDue now), t)
  | .cancel => (none, t.cancel)
  | .withDelay delay => (none, t.withDelay delay)

def history (t : Timer) (moves : List Move) : List (Happening Move) := happenings act t moves

def after (t : Timer) (moves : List Move) : Timer := stateAfter act t moves

/-! ### What a history tells -/

def arms (h : Happening Move) : Bool :=
  match h.move with
  | .arm _ => true
  | _ => false

/-- The timer was taken, as its deadline had come. -/
def fires (h : Happening Move) : Bool :=
  match h.move with
  | .take _ => h.answer == some true
  | _ => false

/-- The deadline was dropped: the timer was cancelled, or taken. -/
def clears (h : Happening Move) : Bool := fires h || h.move == .cancel

/-- The delay in force behind what has happened, given the one at the start. -/
def delayAfter (delay : Nat) (past : List (Happening Move)) : Nat :=
  past.foldl (fun delay h =>
    match h.move with
    | .withDelay changed => changed
    | _ => delay) delay

/-- A deadline is pending if it is one delay behind the latest arming since the timer was last
cancelled and last taken. The delay is the one that was in force at that time. -/
def Pending (delay : Nat) (past : List (Happening Move)) (deadline : Nat) : Prop :=
  ∃ earlier now since, past = earlier ++ ⟨.arm now, none⟩ :: since ∧
    (∀ h ∈ since, arms h = false ∧ clears h = false) ∧
    deadline = now + delayAfter delay earlier

variable {delay deadline : Nat} {past : List (Happening Move)}

/-- Only a change of the delay changes the delay in force. -/
theorem delayAfter_concat (h : Happening Move) :
    delayAfter delay (past ++ [h]) =
      match h.move with
      | .withDelay changed => changed
      | _ => delayAfter delay past := by
  rw [delayAfter, List.foldl_append]
  rfl

/-- Nothing is pending at the start. -/
theorem not_pending_nil : ¬ Pending delay [] deadline := by
  rintro ⟨earlier, now, since, hpast, -, -⟩
  cases earlier <;> cases hpast

/-- An arming decides what is pending behind it. -/
theorem pending_concat_arm {now : Nat} :
    Pending delay (past ++ [⟨.arm now, none⟩]) deadline ↔
      deadline = now + delayAfter delay past := by
  constructor
  · rintro ⟨earlier, armed, since, hpast, hquiet, hdeadline⟩
    rcases List.eq_nil_or_concat since with rfl | ⟨since, last, rfl⟩
    · obtain ⟨rfl, hlast⟩ := List.append_inj' hpast rfl
      cases hlast
      exact hdeadline
    · -- Another arming would come later, and it is the last that counts.
      rw [List.concat_eq_append, ← List.cons_append, ← List.append_assoc] at hpast
      obtain ⟨-, hlast⟩ := List.append_inj' hpast rfl
      cases hlast
      exact absurd (hquiet ⟨.arm now, none⟩ (by simp)).1 (by simp [arms])
  · intro hdeadline
    exact ⟨past, now, [], rfl, nofun, hdeadline⟩

/-- What is no arming leaves pending what was, unless it clears the timer. -/
theorem pending_concat {h : Happening Move} (hquiet : arms h = false) :
    Pending delay (past ++ [h]) deadline ↔ clears h = false ∧ Pending delay past deadline := by
  constructor
  · rintro ⟨earlier, now, since, hpast, hsince, hdeadline⟩
    -- The last happening is the arming itself, or stands behind it and leaves it pending.
    rcases List.eq_nil_or_concat since with rfl | ⟨since, last, rfl⟩
    · obtain ⟨-, hlast⟩ := List.append_inj' hpast rfl
      cases hlast
      cases hquiet
    · rw [List.concat_eq_append, ← List.cons_append, ← List.append_assoc] at hpast
      obtain ⟨hcut, hlast⟩ := List.append_inj' hpast rfl
      cases hlast
      refine ⟨(hsince h (by simp)).2, earlier, now, since, hcut, ?_, hdeadline⟩
      exact fun h' hh' => hsince h' (by simp [hh'])
  · rintro ⟨hclears, earlier, now, since, rfl, hsince, hdeadline⟩
    refine ⟨earlier, now, since ++ [h], by simp, ?_, hdeadline⟩
    intro h' hh'
    rcases List.mem_append.1 hh' with hh' | hh'
    · exact hsince h' hh'
    · obtain rfl := List.mem_singleton.1 hh'
      exact ⟨hquiet, hclears⟩

/-! ### What every move keeps -/

/-- A timer is told by a history: its delay is the one in force, and its deadline is pending. -/
structure Told (delay : Nat) (past : List (Happening Move)) (t : Timer) : Prop where
  inForce : t.delay = delayAfter delay past
  pending : ∀ d, t.deadline = some d ↔ Pending delay past d

/-- A timer that was never moved has no deadline. -/
theorem told_nil (delay : Nat) : Told delay [] ⟨delay, none⟩ where
  inForce := rfl
  pending _ := ⟨nofun, fun h => absurd h not_pending_nil⟩

variable {t : Timer}

/-- A timer is due exactly if a deadline that has come is pending. -/
theorem Told.isDue_iff (h : Told delay past t) {now : Nat} :
    t.isDue now = true ↔ ∃ d ≤ now, Pending delay past d := by
  rw [Timer.isDue_iff]
  simp only [h.pending]
  exact exists_congr fun d => and_comm

/-- Every move keeps a timer told by its history. -/
theorem Told.move (h : Told delay past t) (m : Move) :
    Told delay (past ++ [⟨m, (t.act m).1⟩]) (t.act m).2 := by
  constructor
  case inForce =>
    rw [delayAfter_concat]
    -- Only a change of the delay counts for the delay.
    cases m with
    | arm now => exact h.inForce
    | take now =>
      refine Eq.trans ?_ h.inForce
      show (t.expire now).2.delay = t.delay
      rw [expire]
      split <;> rfl
    | ask now => exact h.inForce
    | cancel => exact h.inForce
    | withDelay changed => rfl
  case pending =>
    intro d
    -- An arming is the latest one; whatever clears drops the deadline; nothing else has to do with
    -- it.
    cases m with
    | arm now =>
      refine Iff.trans ?_ pending_concat_arm.symm
      rw [← h.inForce]
      exact (Option.some_inj.trans eq_comm)
    | take now =>
      rw [pending_concat rfl, ← h.pending]
      cases hdue : t.isDue now with
      | true => simp [act, expire_of_isDue hdue, clears, fires]
      | false => simp [act, expire_of_not_isDue hdue, clears, fires]
    | ask now =>
      rw [pending_concat rfl, ← h.pending]
      simp [act, clears, fires]
    | cancel =>
      rw [pending_concat rfl]
      simp [act, clears]
    | withDelay changed =>
      rw [pending_concat rfl, ← h.pending]
      simp [act, clears, fires]

/-- A timer that starts without a deadline is told by its history. -/
theorem told_history (delay : Nat) (moves : List Move) :
    Told delay (history ⟨delay, none⟩ moves) (after ⟨delay, none⟩ moves) := by
  induction moves using List.reverseRecOn with
  | nil => exact told_nil delay
  | append_singleton moves m ih =>
    rw [history, happenings_concat, after, stateAfter_concat]
    exact ih.move m

/-! ### How often a timer fires -/

/-- Each arming pays for one firing: it is spent then, and pending until then. -/
theorem fires_act_le (t : Timer) (m : Move) :
    [(⟨m, (t.act m).1⟩ : Happening Move)].countP fires + (t.act m).2.isArmed.toNat ≤
      t.isArmed.toNat + [(⟨m, (t.act m).1⟩ : Happening Move)].countP arms := by
  cases m with
  | arm now => simp [act, fires, arms, isArmed]
  | take now =>
    cases hdue : t.isDue now with
    | true =>
      have harmed := isArmed_of_isDue hdue
      have hspent : t.cancel.isArmed = false := rfl
      simp [act, expire_of_isDue hdue, fires, harmed, hspent]
    | false => simp [act, expire_of_not_isDue hdue, fires]
  | ask now => simp [act, fires]
  | cancel => simp [act, fires, isArmed]
  | withDelay delay => simp [act, fires, isArmed]

/-- A timer fires at most as often as it is armed. -/
theorem countP_fires_le (delay : Nat) (moves : List Move) :
    (history ⟨delay, none⟩ moves).countP fires + (after ⟨delay, none⟩ moves).isArmed.toNat ≤
      (history ⟨delay, none⟩ moves).countP arms := by
  induction moves using List.reverseRecOn with
  | nil => exact Nat.le_refl 0
  | append_singleton moves m ih =>
    have hstep := fires_act_le (after ⟨delay, none⟩ moves) m
    have hafter : after ⟨delay, none⟩ (moves ++ [m]) = ((after ⟨delay, none⟩ moves).act m).2 :=
      stateAfter_concat act _ moves m
    have hhistory : history ⟨delay, none⟩ (moves ++ [m]) = history ⟨delay, none⟩ moves ++
        [⟨m, ((after ⟨delay, none⟩ moves).act m).1⟩] := happenings_concat act _ moves m
    rw [hafter, hhistory, List.countP_append, List.countP_append]
    omega

/-- The answers in the history of a timer are told by what happened before, and it fires at most as
often as it is armed. -/
structure FiresBy (delay : Nat) (history : List (Happening Move)) : Prop where
  take : ∀ past now answer later, history = past ++ ⟨.take now, answer⟩ :: later →
    ∃ due, answer = some due ∧ (due = true ↔ ∃ d ≤ now, Pending delay past d)
  ask : ∀ past now answer later, history = past ++ ⟨.ask now, answer⟩ :: later →
    ∃ due, answer = some due ∧ (due = true ↔ ∃ d ≤ now, Pending delay past d)
  fewer : history.countP fires ≤ history.countP arms

/-- Timers answer as their histories tell. -/
theorem firesBy_history (delay : Nat) (moves : List Move) :
    FiresBy delay (history ⟨delay, none⟩ moves) := by
  constructor
  case take =>
    intro past now answer later hhistory
    -- The answer is that of the timer behind the moves in front, which is told by its history.
    obtain ⟨front, rfl, hanswer⟩ := exists_of_happenings_eq act hhistory
    have hdue : answer = some (((after ⟨delay, none⟩ front).expire now).1) := hanswer
    have htaken : ((after ⟨delay, none⟩ front).expire now).1 =
        (after ⟨delay, none⟩ front).isDue now := by
      rw [expire]
      split
      · next h => exact h.symm
      · next h => exact (Bool.eq_false_iff.2 h).symm
    exact ⟨_, hdue.trans (congrArg some htaken), (told_history delay front).isDue_iff⟩
  case ask =>
    intro past now answer later hhistory
    obtain ⟨front, rfl, hanswer⟩ := exists_of_happenings_eq act hhistory
    exact ⟨_, hanswer, (told_history delay front).isDue_iff⟩
  case fewer => exact Nat.le_trans (Nat.le_add_right _ _) (countP_fires_le delay moves)

end Timer

/-- There are two stages. -/
theorem Stage.forall_iff {motive : Stage → Prop} :
    (∀ stage, motive stage) ↔ motive .rebuild ∧ motive .refresh :=
  ⟨fun h => ⟨h _, h _⟩, fun h stage => by cases stage; exacts [h.1, h.2]⟩

theorem Stage.exists_iff {motive : Stage → Prop} :
    (∃ stage, motive stage) ↔ motive .rebuild ∨ motive .refresh := by
  constructor
  · rintro ⟨stage, h⟩
    cases stage with
    | rebuild => exact .inl h
    | refresh => exact .inr h
  · rintro (h | h) <;> exact ⟨_, h⟩

namespace Schedule

inductive Move where
  /-- A move of one stage. -/
  | one (stage : Stage) (move : Timer.Move)
  /-- A change of the delay of both stages. -/
  | both (delay : Nat)
deriving DecidableEq

def act (s : Schedule) : Move → Option Bool × Schedule
  | .one stage (.arm now) => (none, s.arm stage now)
  | .one stage (.take now) => (some (s.expire stage now).1, (s.expire stage now).2)
  | .one stage (.ask now) => (some ((s.get stage).isDue now), s)
  | .one stage .cancel => (none, s.cancel stage)
  | .one stage (.withDelay delay) => (none, s.set stage ((s.get stage).withDelay delay))
  | .both delay => (none, s.withDelay delay)

def history (s : Schedule) (moves : List Move) : List (Happening Move) := happenings act s moves

def after (s : Schedule) (moves : List Move) : Schedule := stateAfter act s moves

/-- What a move is for a stage, if it concerns it. -/
def Move.own? (stage : Stage) : Move → Option Timer.Move
  | .one moved move => if moved = stage then some move else none
  | .both delay => some (.withDelay delay)

def own (stage : Stage) (history : List (Happening Move)) : List (Happening Timer.Move) :=
  history.filterMap fun h => (h.move.own? stage).map (⟨·, h.answer⟩)

/-! ### Each stage by itself -/

/-- A move of a stage is a move of its timer, and leaves the other one alone. -/
theorem act_one (s : Schedule) (stage : Stage) (m : Timer.Move) :
    (s.act (.one stage m)).1 = ((s.get stage).act m).1 ∧
    ∀ other, (s.act (.one stage m)).2.get other =
      if other = stage then ((s.get stage).act m).2 else s.get other := by
  cases m with
  | arm now => exact ⟨rfl, fun other => s.get_arm stage other now⟩
  | take now => exact ⟨rfl, fun other => s.get_expire stage other now⟩
  | ask now =>
    refine ⟨rfl, fun other => ?_⟩
    split
    · next h => exact congrArg s.get h
    · rfl
  | cancel => exact ⟨rfl, fun other => s.get_cancel stage other⟩
  | withDelay delay => exact ⟨rfl, fun other => s.get_set stage other _⟩

/-- What a move is for a stage, its timer answers and does. -/
theorem act_of_own {s : Schedule} {m : Move} {stage : Stage} {own : Timer.Move}
    (h : m.own? stage = some own) :
    (s.act m).1 = ((s.get stage).act own).1 ∧
      (s.act m).2.get stage = ((s.get stage).act own).2 := by
  cases m with
  | one moved move =>
    rw [Move.own?] at h
    split at h
    · next hmoved =>
      subst hmoved
      cases h
      obtain ⟨hanswer, hget⟩ := s.act_one moved own
      exact ⟨hanswer, (hget moved).trans (if_pos rfl)⟩
    · cases h
  | both delay =>
    cases h
    exact ⟨rfl, s.get_withDelay delay stage⟩

/-- A move of the other stage leaves a stage alone. -/
theorem get_act_of_other {s : Schedule} {m : Move} {stage : Stage} (h : m.own? stage = none) :
    (s.act m).2.get stage = s.get stage := by
  cases m with
  | one moved move =>
    rw [Move.own?] at h
    split at h
    · cases h
    · next hmoved => rw [(s.act_one moved move).2, if_neg (Ne.symm hmoved)]
  | both delay => cases h

/-- What happens to a stage is what happens to a timer of its own. -/
theorem own_history (s : Schedule) (stage : Stage) (moves : List Move) :
    own stage (s.history moves) = (s.get stage).history (moves.filterMap (·.own? stage)) := by
  induction moves generalizing s with
  | nil => rfl
  | cons m rest ih =>
    have hrest := ih (s.act m).2
    -- A move that does not concern the stage leaves its timer; any other is a move of the timer.
    cases hown : m.own? stage with
    | none =>
      rw [get_act_of_other hown] at hrest
      rw [List.filterMap_cons_none hown, ← hrest, history, happenings, own,
        List.filterMap_cons_none (by rw [hown]; rfl)]
      rfl
    | some move =>
      obtain ⟨hanswer, hget⟩ := act_of_own (s := s) hown
      rw [hget] at hrest
      rw [List.filterMap_cons_some hown, Timer.history, happenings, ← Timer.history, ← hrest,
        history, happenings, own, List.filterMap_cons_some (by rw [hown]; rfl), hanswer]
      rfl

/-- What becomes of a stage is what becomes of a timer of its own. -/
theorem get_after (s : Schedule) (stage : Stage) (moves : List Move) :
    (s.after moves).get stage = (s.get stage).after (moves.filterMap (·.own? stage)) := by
  induction moves generalizing s with
  | nil => rfl
  | cons m rest ih =>
    have hrest : (s.after (m :: rest)).get stage =
        ((s.act m).2.get stage).after (rest.filterMap (·.own? stage)) := ih (s.act m).2
    rw [hrest]
    cases hown : m.own? stage with
    | none => rw [List.filterMap_cons_none hown, get_act_of_other hown]
    | some move =>
      rw [List.filterMap_cons_some hown, (act_of_own hown).2]
      rfl

/-! ### The next deadline -/

/-- The next deadline is the least one of the stages. -/
theorem deadline?_eq_some_iff {s : Schedule} {deadline : Nat} :
    s.deadline? = some deadline ↔
      (∃ stage, (s.get stage).deadline = some deadline) ∧
        ∀ stage d, (s.get stage).deadline = some d → deadline ≤ d := by
  rw [Stage.exists_iff, Stage.forall_iff]
  unfold deadline? get
  cases s.rebuild.deadline <;> cases s.refresh.deadline <;> grind

/-- There is no next deadline if no stage is armed. -/
theorem deadline?_eq_none_iff_isArmed {s : Schedule} :
    s.deadline? = none ↔ ∀ stage, (s.get stage).isArmed = false := by
  rw [deadline?_eq_none_iff, Stage.forall_iff]
  simp [Timer.isArmed, get]

/-- At the next deadline some stage can be taken. -/
theorem expire_of_deadline? {s : Schedule} {now : Nat} (h : s.deadline? = some now) :
    ∃ stage, (s.expire stage now).1 = true := by
  rw [Stage.exists_iff]
  rcases isDue_of_deadline? h with hdue | hdue
  · exact .inl (congrArg Prod.fst (Timer.expire_of_isDue hdue))
  · exact .inr (congrArg Prod.fst (Timer.expire_of_isDue hdue))

/-- **A timer fires by its history, and so does each stage of a schedule.** Let moves of any kind be
made at any times, of a timer and of a schedule that start with one delay and without deadlines.

* The timer answers that its deadline has come exactly if it was armed since it was last cancelled
  and last taken, and one delay has passed since the latest arming: the delay in force then. It
  fires at most as often as it is armed.
* What happens to a stage of the schedule, and what becomes of it, is what happens to a timer of its
  own with the moves that concern the stage; so its deadline is what its own history leaves pending.
* The next deadline of the schedule is the least that is pending, there is none if no stage is
  armed, and at that time some stage can be taken. -/
theorem fires_by_history (delay : Nat) (moves : List Timer.Move) (steps : List Move)
    {s : Schedule} (hs : s = (ofDelay delay).after steps) :
    Timer.FiresBy delay (Timer.history ⟨delay, none⟩ moves) ∧
    (Timer.history ⟨delay, none⟩ moves).map (·.move) = moves ∧
    (∀ stage, own stage ((ofDelay delay).history steps) =
        Timer.history ⟨delay, none⟩ (steps.filterMap (·.own? stage)) ∧
      s.get stage = Timer.after ⟨delay, none⟩ (steps.filterMap (·.own? stage)) ∧
      ∀ d, (s.get stage).deadline = some d ↔
        Timer.Pending delay (own stage ((ofDelay delay).history steps)) d) ∧
    (∀ d, s.deadline? = some d ↔ (∃ stage, (s.get stage).deadline = some d) ∧
      ∀ stage d', (s.get stage).deadline = some d' → d ≤ d') ∧
    (s.deadline? = none ↔ ∀ stage, (s.get stage).isArmed = false) ∧
    (∀ now, s.deadline? = some now → ∃ stage, (s.expire stage now).1 = true) := by
  subst hs
  have hget (stage : Stage) : (ofDelay delay).get stage = ⟨delay, none⟩ := by cases stage <;> rfl
  refine ⟨Timer.firesBy_history delay moves, map_move_happenings _ _ moves, fun stage => ?_,
    fun d => deadline?_eq_some_iff, deadline?_eq_none_iff_isArmed, fun now => expire_of_deadline?⟩
  have hhistory := (ofDelay delay).own_history stage steps
  have hafter := (ofDelay delay).get_after stage steps
  rw [hget] at hhistory hafter
  refine ⟨hhistory, hafter, ?_⟩
  rw [hhistory, hafter]
  exact (Timer.told_history delay _).pending

/-- A timer is armed twice, and its delay is cut before it fires; it still waits for the longer one.
In a schedule the same change comes between the arming of both stages. -/
theorem fires_by_history_recut :
    (¬ ∃ d ≤ 29, Timer.Pending 20 [⟨.arm 0, none⟩, ⟨.arm 10, none⟩, ⟨.withDelay 5, none⟩] d) ∧
    (∃ d ≤ 30, Timer.Pending 20
      [⟨.arm 0, none⟩, ⟨.arm 10, none⟩, ⟨.withDelay 5, none⟩, ⟨.take 29, some false⟩] d) ∧
    ∃ s, s = (ofDelay 20).after [.one .rebuild (.arm 10), .both 5, .one .refresh (.arm 30)] ∧
      s.deadline? = some 30 ∧ (∃ stage, (s.get stage).deadline = some 30) ∧
      ∃ stage, (s.expire stage 30).1 = true := by
  obtain ⟨hfires, -, -, hleast, -, htaken⟩ := fires_by_history 20
    [.arm 0, .arm 10, .withDelay 5, .take 29, .take 30]
    [.one .rebuild (.arm 10), .both 5, .one .refresh (.arm 30)] rfl
  refine ⟨?_, ?_, _, rfl, rfl, ((hleast 30).1 rfl).1, htaken 30 rfl⟩
  · obtain ⟨due, hdue, hiff⟩ := hfires.take
      [⟨.arm 0, none⟩, ⟨.arm 10, none⟩, ⟨.withDelay 5, none⟩] 29 (some false)
      [⟨.take 30, some true⟩] rfl
    obtain rfl := Option.some.inj hdue
    exact mt hiff.2 Bool.false_ne_true
  · obtain ⟨due, hdue, hiff⟩ := hfires.take
      [⟨.arm 0, none⟩, ⟨.arm 10, none⟩, ⟨.withDelay 5, none⟩, ⟨.take 29, some false⟩] 30 (some true)
      [] rfl
    obtain rfl := Option.some.inj hdue
    exact hiff.1 rfl

end Schedule

end SyntaxHighlight
