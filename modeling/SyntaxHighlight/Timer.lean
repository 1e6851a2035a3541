/-!
# Debounce timers

A timer holds a delay and at most one deadline. Arming it again replaces the deadline, so a burst of
causes leads to one firing. Times are in milliseconds from a common start.

Two stages of work have a timer each: rebuilding highlights and refreshing editors.
-/

namespace SyntaxHighlight

/-- A deadline that can be set, moved and dropped. -/
structure Timer where
  delay : Nat
  deadline : Option Nat := none
deriving DecidableEq, Repr

namespace Timer

/-- Fire one delay from now, whatever was planned before. -/
def arm (t : Timer) (now : Nat) : Timer := { t with deadline := some (now + t.delay) }

def cancel (t : Timer) : Timer := { t with deadline := none }

/-- Change the delay for the next time that the timer is armed; the deadline stays. -/
def withDelay (t : Timer) (delay : Nat) : Timer := { t with delay }

def isArmed (t : Timer) : Bool := t.deadline.isSome

def isDue (t : Timer) (now : Nat) : Bool := t.deadline.any (· ≤ now)

/-- Whether the deadline has come; if so, it is dropped. -/
def expire (t : Timer) (now : Nat) : Bool × Timer :=
  if t.isDue now then (true, t.cancel) else (false, t)

/-! ### The deadline after each operation -/

@[simp] theorem deadline_arm (t : Timer) (now : Nat) :
    (t.arm now).deadline = some (now + t.delay) := rfl

@[simp] theorem deadline_cancel (t : Timer) : t.cancel.deadline = none := rfl

@[simp] theorem deadline_withDelay (t : Timer) (delay : Nat) :
    (t.withDelay delay).deadline = t.deadline := rfl

theorem isDue_iff {t : Timer} {now : Nat} :
    t.isDue now = true ↔ ∃ d, t.deadline = some d ∧ d ≤ now := by
  simp [isDue, Option.any_eq_true]

theorem isArmed_of_isDue {t : Timer} {now : Nat} (h : t.isDue now = true) : t.isArmed = true := by
  obtain ⟨d, hd, _⟩ := isDue_iff.1 h
  simp [isArmed, hd]

theorem expire_of_isDue {t : Timer} {now : Nat} (h : t.isDue now = true) :
    t.expire now = (true, t.cancel) := by
  rw [expire, if_pos h]

theorem expire_of_not_isDue {t : Timer} {now : Nat} (h : t.isDue now = false) :
    t.expire now = (false, t) := by
  rw [expire, if_neg (by simp [h])]

end Timer

/-- The two units of debounced work. -/
inductive Stage where
  /-- Highlight the visible documents whose highlights are out of date. -/
  | rebuild
  /-- Send buckets to the editors of documents that wait for it. -/
  | refresh
deriving DecidableEq, Repr

def Stage.name : Stage → String
  | .rebuild => "rebuild"
  | .refresh => "refresh"

structure Schedule where
  rebuild : Timer
  refresh : Timer
deriving DecidableEq, Repr

namespace Schedule

/-- Two timers with one delay and no deadline. -/
def ofDelay (delay : Nat) : Schedule := ⟨⟨delay, none⟩, ⟨delay, none⟩⟩

def get (s : Schedule) : Stage → Timer
  | .rebuild => s.rebuild
  | .refresh => s.refresh

def set (s : Schedule) (stage : Stage) (timer : Timer) : Schedule :=
  match stage with
  | .rebuild => { s with rebuild := timer }
  | .refresh => { s with refresh := timer }

def arm (s : Schedule) (stage : Stage) (now : Nat) : Schedule :=
  s.set stage ((s.get stage).arm now)

def cancel (s : Schedule) (stage : Stage) : Schedule := s.set stage (s.get stage).cancel

/-- Take the timer of a stage if it is due. -/
def expire (s : Schedule) (stage : Stage) (now : Nat) : Bool × Schedule :=
  let (due, timer) := (s.get stage).expire now
  (due, s.set stage timer)

def withDelay (s : Schedule) (delay : Nat) : Schedule :=
  ⟨s.rebuild.withDelay delay, s.refresh.withDelay delay⟩

/-- The earlier one of the deadlines there are. -/
def deadline? (s : Schedule) : Option Nat :=
  match s.rebuild.deadline, s.refresh.deadline with
  | some a, some b => some (min a b)
  | some a, none => some a
  | none, b => b

/-- Two for a rebuild and one for a refresh that is to come; the number falls whenever a due stage
is taken. -/
def pending (s : Schedule) : Nat :=
  2 * s.rebuild.isArmed.toNat + s.refresh.isArmed.toNat

/-- At the earlier deadline a stage is due. -/
theorem isDue_of_deadline? {s : Schedule} {now : Nat} (h : s.deadline? = some now) :
    s.rebuild.isDue now = true ∨ s.refresh.isDue now = true := by
  unfold deadline? at h
  split at h
  · next a b ha hb =>
    obtain rfl := Option.some.inj h
    rcases Nat.le_total a b with hab | hab
    · exact .inl (Timer.isDue_iff.2 ⟨a, ha, by omega⟩)
    · exact .inr (Timer.isDue_iff.2 ⟨b, hb, by omega⟩)
  · next a ha _ =>
    obtain rfl := Option.some.inj h
    exact .inl (Timer.isDue_iff.2 ⟨a, ha, Nat.le_refl _⟩)
  · exact .inr (Timer.isDue_iff.2 ⟨now, h, Nat.le_refl _⟩)

/-- There is no earlier deadline only if there is none at all. -/
theorem deadline?_eq_none_iff {s : Schedule} :
    s.deadline? = none ↔ s.rebuild.deadline = none ∧ s.refresh.deadline = none := by
  unfold deadline?
  cases s.rebuild.deadline <;> cases s.refresh.deadline <;> simp

/-! ### Each stage by itself -/

/-- Replacing the timer of one stage leaves the other alone. -/
@[simp] theorem get_set (s : Schedule) (stage other : Stage) (timer : Timer) :
    (s.set stage timer).get other = if other = stage then timer else s.get other := by
  cases stage <;> cases other <;> rfl

@[simp] theorem get_withDelay (s : Schedule) (delay : Nat) (stage : Stage) :
    (s.withDelay delay).get stage = (s.get stage).withDelay delay := by
  cases stage <;> rfl

theorem get_arm (s : Schedule) (stage other : Stage) (now : Nat) :
    (s.arm stage now).get other = if other = stage then (s.get stage).arm now else s.get other :=
  get_set s stage other _

theorem get_cancel (s : Schedule) (stage other : Stage) :
    (s.cancel stage).get other = if other = stage then (s.get stage).cancel else s.get other :=
  get_set s stage other _

theorem get_expire (s : Schedule) (stage other : Stage) (now : Nat) :
    (s.expire stage now).2.get other =
      if other = stage then ((s.get stage).expire now).2 else s.get other :=
  get_set s stage other _

end Schedule

end SyntaxHighlight
