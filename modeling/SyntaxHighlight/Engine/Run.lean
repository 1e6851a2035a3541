import SyntaxHighlight.Engine.Basic

/-!
# Runs

A run feeds an engine with events at their times. Between two events every stage fires at its
deadline, and a language that an event asks for is loaded before the next event. Firing at a
deadline takes a stage and never plans an earlier one again, so between two events only finitely
many stages fire: `Schedule.pending` falls each time.
-/

namespace SyntaxHighlight

namespace Engine

theorem schedule_rebuild_eq (e : Engine) (now : Nat) :
    (e.rebuild now).schedule.rebuild = e.schedule.rebuild := by
  unfold rebuild
  dsimp only
  split <;> rfl

theorem schedule_refresh_eq (e : Engine) : e.refresh.2.schedule = e.schedule := rfl

/-- A rebuild that is due is taken, and only a refresh may be planned by it. -/
theorem schedule_fireRebuild (e : Engine) (now : Nat) :
    (e.schedule.rebuild.isDue now = true ∧ (e.fireRebuild now).schedule.rebuild.isArmed = false) ∨
    (e.schedule.rebuild.isDue now = false ∧ e.fireRebuild now = e) := by
  unfold fireRebuild
  cases h : e.schedule.rebuild.isDue now with
  | false => right; simp [Schedule.expire, Schedule.get, Timer.expire, h]
  | true =>
    left
    simp only [Schedule.expire, Schedule.get, Timer.expire, h, if_true, true_and]
    rw [schedule_rebuild_eq]
    rfl

/-- A refresh that is due is taken. -/
theorem schedule_fireRefresh (e : Engine) (now : Nat) :
    (e.schedule.refresh.isDue now = true ∧
      (e.fireRefresh now).2.schedule = e.schedule.cancel .refresh) ∨
    (e.schedule.refresh.isDue now = false ∧ (e.fireRefresh now).2 = e) := by
  unfold fireRefresh
  cases h : e.schedule.refresh.isDue now with
  | false => right; simp [Schedule.expire, Schedule.get, Timer.expire, h]
  | true =>
    left
    simp [Schedule.expire, Schedule.get, Timer.expire, h, schedule_refresh_eq,
      Schedule.cancel]

/-- Firing at a deadline leaves less to come. -/
theorem pending_fire {e : Engine} {now : Nat} (h : e.deadline? = some now) :
    (e.fire now).2.schedule.pending < e.schedule.pending := by
  have hb : ∀ b : Bool, b.toNat ≤ 1 := fun b => by cases b <;> decide
  unfold fire
  rcases schedule_fireRebuild e now with ⟨hdue, hoff⟩ | ⟨hdue, hsame⟩
  · -- a rebuild counts twice, and leaves one refresh at most
    have hon := Timer.isArmed_of_isDue hdue
    have hle : ((e.fireRebuild now).fireRefresh now).2.schedule.pending ≤ 1 := by
      rcases schedule_fireRefresh (e.fireRebuild now) now with ⟨_, hr⟩ | ⟨_, hr⟩ <;> rw [hr]
      · simp [Schedule.pending, Schedule.cancel, Schedule.set, Schedule.get,
          Timer.cancel, Timer.isArmed] at hoff ⊢
        simp [hoff]
      · have := hb (e.fireRebuild now).schedule.refresh.isArmed
        simp [Schedule.pending, hoff, this]
    have : e.schedule.pending ≥ 2 := by simp [Schedule.pending, hon]
    omega
  · rw [hsame]
    rcases schedule_fireRefresh e now with ⟨hdue', hr⟩ | ⟨hdue', hr⟩
    · -- no rebuild is due, so the refresh was, and nothing arms it again
      have hon := Timer.isArmed_of_isDue hdue'
      rw [hr]
      simp [Schedule.pending, Schedule.cancel, Schedule.set, Schedule.get,
        Timer.cancel, hon]
      simp [Timer.isArmed]
    · rcases Schedule.isDue_of_deadline? h with h | h
      · rw [hdue] at h; cases h
      · rw [hdue'] at h; cases h

/-- Fire every stage at its deadline, up to a time. -/
def settle (e : Engine) (limit : Nat) : List Push × Engine :=
  match _h : e.deadline? with
  | none => ([], e)
  | some deadline =>
    if deadline ≤ limit then
      let (pushes, later) := settle (e.fire deadline).2 limit
      ((e.fire deadline).1 ++ pushes, later)
    else ([], e)
termination_by e.schedule.pending
decreasing_by exact pending_fire _h

/-- Once it is settled, an engine has no deadline left up to the limit. -/
theorem lt_of_deadline?_settle {e : Engine} {limit deadline : Nat}
    (h : (e.settle limit).2.deadline? = some deadline) : limit < deadline := by
  fun_induction settle e limit with
  | case1 e hnone =>
    rw [hnone] at h
    cases h
  | case2 e first hfirst hle pushes later hsettle ih => exact ih (by rwa [hsettle])
  | case3 e first hfirst hlater =>
    obtain rfl := Option.some.inj (hfirst.symm.trans h)
    omega

def loadNow (parse : Parse) (files : FileTree) (now : Nat) (e : Engine) (language : LanguageId) :
    Engine :=
  let (answer, e) := e.loadLanguage files language
  e.finishLoading parse language answer.outcome now

/-- Take in an event, and load the languages that it asks for. -/
def handleLoading (e : Engine) (parse : Parse) (files : FileTree) (now : Nat) (event : Event) :
    Engine :=
  let (languages, e) := (e.handle parse now event).takeRequests
  languages.foldl (loadNow parse files now) e

/-- Feed an engine with events at their times, which do not decrease, until the host stops. -/
def run (e : Engine) (parse : Parse) (files : FileTree) (stop : Nat) :
    List (Nat × Event) → List Push × Engine
  | [] => e.settle stop
  | (now, event) :: rest =>
    let (early, e) := e.settle now
    let (late, e) := (e.handleLoading parse files now event).run parse files stop rest
    (early ++ late, e)

end Engine

end SyntaxHighlight
