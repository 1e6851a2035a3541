import Mathlib.Logic.Function.Iterate
import SyntaxHighlight.Engine.Run
import SyntaxHighlight.Proofs.Engine.Delivery

/-!
# The stages come to an end

Firing at the earlier deadline runs a stage that is due. A rebuild may plan a refresh, but a refresh
plans nothing, so `Schedule.pending` falls from three at most. Whatever is to be done has a
deadline (`Display.Planned`), so once no deadline is left nothing is owed and every document on
screen has its highlights. `Session.settles_within_three` puts the two together.
-/

namespace SyntaxHighlight

namespace Schedule

/-- A rebuild and two refreshes, one of them planned by the rebuild, are all that can be to come. -/
theorem pending_le_three (s : Schedule) : s.pending ≤ 3 := by
  have hrebuild := Bool.toNat_le s.rebuild.isArmed
  have hrefresh := Bool.toNat_le s.refresh.isArmed
  unfold pending
  omega

end Schedule

namespace Display

variable {v : Display}

/-- Without a deadline for it, nothing is owed. -/
theorem Planned.owed_eq_empty (hv : v.Planned) (hidle : v.refreshAt = none) : v.owed = .empty := by
  apply NameSet.ext_contains
  intro doc
  rw [NameSet.contains_empty, ← Bool.not_eq_true]
  intro howed
  have hplanned := hv.refresh doc howed
  rw [hidle] at hplanned
  cases hplanned

/-- Without a deadline for it, no document on screen is without highlights. -/
theorem Planned.not_overdue (hv : v.Planned) (hidle : v.rebuildAt = none) (doc : DocumentName) :
    ¬ v.Overdue doc := by
  intro hoverdue
  have hplanned := hv.rebuild doc hoverdue
  rw [hidle] at hplanned
  cases hplanned

end Display

namespace Engine

/-- The engine after its stages were fired at the earlier deadline, if there is one. -/
def fireNext (e : Engine) : Engine :=
  match e.deadline? with
  | none => e
  | some deadline => (e.fire deadline).2

def passes (e : Engine) : Stage → Nat
  | .rebuild => e.stats.rebuildPasses
  | .refresh => e.stats.refreshPasses

theorem fireNext_of_some {e : Engine} {deadline : Nat} (h : e.deadline? = some deadline) :
    e.fireNext = (e.fire deadline).2 := by
  rw [fireNext, h]

/-! ### Each firing runs a stage -/

theorem passes_rebuild (e : Engine) (now : Nat) :
    (e.rebuild now).passes .rebuild = e.passes .rebuild + 1 := by
  unfold rebuild
  dsimp only
  split <;> rfl

/-- A rebuild that is due is one pass. -/
theorem passes_fireRebuild {e : Engine} {now : Nat} (h : e.schedule.rebuild.isDue now = true) :
    (e.fireRebuild now).passes .rebuild = e.passes .rebuild + 1 := by
  unfold fireRebuild
  rw [Schedule.expire, Schedule.get, Timer.expire_of_isDue h]
  dsimp only
  rw [if_pos rfl, passes_rebuild]
  rfl

/-- A refresh that is due is one pass. -/
theorem passes_fireRefresh {e : Engine} {now : Nat} (h : e.schedule.refresh.isDue now = true) :
    (e.fireRefresh now).2.passes .refresh = e.passes .refresh + 1 := by
  unfold fireRefresh
  rw [Schedule.expire, Schedule.get, Timer.expire_of_isDue h]
  rfl

/-- A refresh, due or not, has no part in rebuilds. -/
theorem passes_rebuild_fireRefresh (e : Engine) (now : Nat) :
    (e.fireRefresh now).2.passes .rebuild = e.passes .rebuild := by
  unfold fireRefresh
  dsimp only
  split <;> rfl

/-- At the earlier deadline a stage is due and runs. If both are due it is the rebuild, which may
put off the refresh. -/
theorem exists_passes_fire {e : Engine} {now : Nat} (h : e.deadline? = some now) :
    ∃ stage, (e.schedule.get stage).isDue now = true ∧
      (e.fire now).2.passes stage = e.passes stage + 1 := by
  unfold fire
  rcases schedule_fireRebuild e now with ⟨hdue, -⟩ | ⟨hdue, hsame⟩
  · refine ⟨.rebuild, hdue, ?_⟩
    rw [passes_rebuild_fireRefresh, passes_fireRebuild hdue]
  · rcases Schedule.isDue_of_deadline? h with hrebuild | hrefresh
    · rw [hdue] at hrebuild
      cases hrebuild
    · refine ⟨.refresh, hrefresh, ?_⟩
      rw [hsame, passes_fireRefresh hrefresh]

/-! ### Firing from deadline to deadline -/

/-- Firing at the earlier deadline keeps everything planned. -/
theorem planned_fireNext {e : Engine} (h : e.display.Planned) : e.fireNext.display.Planned := by
  unfold fireNext
  split
  · exact h
  · next deadline _ =>
    exact (h.rebuilds (rebuilds_fireRebuild e deadline)).refreshes
      (refreshes_fireRefresh (e.fireRebuild deadline) deadline)

theorem planned_iterate_fireNext {e : Engine} (h : e.display.Planned) (n : Nat) :
    (fireNext^[n] e).display.Planned := by
  induction n generalizing e with
  | zero => exact h
  | succ n ih => exact ih (planned_fireNext h)

/-- An engine comes to rest by a number of firings, each of which runs a stage that is due. -/
structure Settles (e : Engine) (firings : Nat) : Prop where
  runs : ∀ k < firings, ∃ deadline stage, (fireNext^[k] e).deadline? = some deadline ∧
    ((fireNext^[k] e).schedule.get stage).isDue deadline = true ∧
    (fireNext^[k + 1] e).passes stage = (fireNext^[k] e).passes stage + 1
  idle : (fireNext^[firings] e).deadline? = none
  paid : (fireNext^[firings] e).owed = .empty
  fresh : ∀ doc, (fireNext^[firings] e).isVisible doc = true →
    (fireNext^[firings] e).documents.contains doc = true →
    (fireNext^[firings] e).documents.isFresh doc = true

/-- Firing from deadline to deadline ends, since each firing leaves less to come. -/
theorem exists_idle (e : Engine) : ∃ n ≤ e.schedule.pending,
    (∀ k < n, ((fireNext^[k] e).deadline?).isSome = true) ∧
    (fireNext^[n] e).deadline? = none := by
  -- On what is pending: each firing at a deadline lowers it.
  induction hpending : e.schedule.pending using Nat.strongRecOn generalizing e with
  | _ pending ih =>
    cases hdeadline : e.deadline? with
    | none =>
      refine ⟨0, Nat.zero_le _, ?_, hdeadline⟩
      intro k hk
      cases hk
    | some deadline =>
      have hless : e.fireNext.schedule.pending < pending := by
        rw [← hpending, fireNext_of_some hdeadline]
        exact pending_fire hdeadline
      obtain ⟨n, hn, hbefore, hidle⟩ := ih _ hless e.fireNext rfl
      refine ⟨n + 1, by omega, ?_, hidle⟩
      intro k hk
      cases k with
      | zero => exact Option.isSome_iff_exists.2 ⟨deadline, hdeadline⟩
      | succ k => exact hbefore k (by omega)

/-- A document that is on screen and tracked has its highlights, unless a rebuild is still to make
them. -/
theorem isFresh_of_not_overdue {e : Engine} {doc : DocumentName} (h : ¬ e.display.Overdue doc)
    (hvisible : e.isVisible doc = true) (htracked : e.documents.contains doc = true) :
    e.documents.isFresh doc = true := by
  rw [Documents.contains_eq_isSome] at htracked
  obtain ⟨d, hd⟩ := Option.isSome_iff_exists.1 htracked
  obtain ⟨editor, heditor, hdoc⟩ := List.any_eq_true.1 hvisible
  have hshown : doc ∈ e.visible.map (·.doc) := List.mem_map.2 ⟨editor, heditor, by simpa using hdoc⟩
  rw [Documents.isFresh, hd, Option.any_some, Document.isDirty, Bool.not_eq_true',
    Option.isNone_eq_false_iff, Option.isSome_iff_ne_none]
  intro hdirty
  exact h ⟨hshown, d, hd, hdirty⟩

/-- If whatever is to be done has a deadline, an engine settles. -/
theorem exists_settles {e : Engine} (h : e.display.Planned) :
    ∃ n ≤ e.schedule.pending, e.Settles n := by
  obtain ⟨n, hn, hbefore, hidle⟩ := exists_idle e
  have hplanned := planned_iterate_fireNext h n
  obtain ⟨hrebuild, hrefresh⟩ := Schedule.deadline?_eq_none_iff.1 hidle
  refine ⟨n, hn, ?_, hidle, hplanned.owed_eq_empty hrefresh, ?_⟩
  · intro k hk
    obtain ⟨deadline, hdeadline⟩ := Option.isSome_iff_exists.1 (hbefore k hk)
    obtain ⟨stage, hdue, hpasses⟩ := exists_passes_fire hdeadline
    refine ⟨deadline, stage, hdeadline, hdue, ?_⟩
    rw [Function.iterate_succ_apply', fireNext_of_some hdeadline, hpasses]
  · intro doc hvisible htracked
    exact isFresh_of_not_overdue (hplanned.not_overdue hrebuild doc) hvisible htracked

end Engine

/-- **The stages always settle.** After any actions, firing at the deadlines as they come ends after
three firings at most. Each of them runs a stage that is due, and behind the last one there is no
deadline, nothing is owed, and every document on screen that is tracked has its highlights. -/
theorem Session.settles_within_three (parse : Parse) (registry : Registry) (settings : Settings)
    (actions : List Action) :
    ∃ n ≤ 3, ((create registry settings).run parse actions).engine.Settles n := by
  have hplanned := run_planned parse registry settings actions
  obtain ⟨n, hn, hsettles⟩ := Engine.exists_settles hplanned
  exact ⟨n, Nat.le_trans hn (Schedule.pending_le_three _), hsettles⟩

namespace Sample

/-- An editor comes on screen, and its document comes in before the editor is refreshed. -/
def arriving : List Action :=
  [.step (.event 0 (.opened "a" "digits" "1")), .step (.event 1 (.visibleEditors [⟨1, "a"⟩])),
    .step (.deliver 2 "digits" (.ok language))]

end Sample

/-- Two firings are not always enough. -/
example :
    (Engine.fireNext^[2] ((Session.create Sample.registry Sample.settings).run Sample.parse
      Sample.arriving).engine).deadline? = some 42 := by
  decide

end SyntaxHighlight
