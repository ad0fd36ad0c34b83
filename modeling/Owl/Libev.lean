import Mathlib.Logic.Function.Basic
import Mathlib.Order.Basic

/-!
The timers of libev. The library is no part of the sources, so a loop is a
parameter: `EvLoop` has what a program calls and sees of it, `Documented` what the
documentation says of the calls. Times are whole microseconds; a timer may go off
in the microsecond in which it is due.
-/

namespace Owl.Libev

structure EvLoop (Watcher World : Type) where
  /-- `ev_now`. -/
  now : World → Nat
  /-- From when on the callback may be called, for a timer that is active or pending. -/
  due : World → Watcher → Option Nat
  /-- The `after` value that a timer is configured with before it is started. -/
  delay : World → Watcher → Int
  /-- The `repeat` value, zero for a timer that goes off once. -/
  interval : World → Watcher → Nat
  evTimerStop : Watcher → World → World
  evTimerSet : Watcher → Int → Nat → World → World
  evTimerStart : Watcher → World → World
  evTimerAgain : Watcher → World → World
  /-- Time passes, and no timer goes off. -/
  passes : World → World → Prop
  /-- The timer goes off; its callback begins in the second state. -/
  invokes : Watcher → World → World → Prop

variable {Watcher World : Type} [DecidableEq Watcher]

structure Changes (ev : EvLoop Watcher World) (watcher : Watcher) (due : Option Nat) (interval : Nat)
    (before after : World) : Prop where
  now : ev.now after = ev.now before
  due : ev.due after = Function.update (ev.due before) watcher due
  interval : ev.interval after = Function.update (ev.interval before) watcher interval

/-- When a timer that has gone off is due again: not at all without an interval, else after the
interval, or earlier if the timer was late. -/
def Again (now due interval : Nat) (next : Option Nat) : Prop :=
  if interval = 0 then next = none
  else ∃ time, next = some time ∧ due ≤ time ∧ time ≤ now + interval

/-- What the documentation of libev says. -/
structure Documented (ev : EvLoop Watcher World) : Prop where
  stop (watcher : Watcher) (world : World) :
    Changes ev watcher none (ev.interval world watcher) world (ev.evTimerStop watcher world)
  set (watcher : Watcher) (after : Int) (interval : Nat) (world : World)
    (idle : ev.due world watcher = none) :
    Changes ev watcher none interval world (ev.evTimerSet watcher after interval world) ∧
      ev.delay (ev.evTimerSet watcher after interval world) watcher = after
  /-- The delay counts from the time of the loop; no timer is due earlier than that. -/
  start (watcher : Watcher) (world : World) (idle : ev.due world watcher = none) :
    Changes ev watcher (some (ev.now world + (ev.delay world watcher).toNat))
      (ev.interval world watcher) world (ev.evTimerStart watcher world)
  /-- A timer that repeats is started anew, with its interval as the delay. -/
  again (watcher : Watcher) (world : World) (repeats : ev.interval world watcher ≠ 0) :
    Changes ev watcher (some (ev.now world + ev.interval world watcher))
      (ev.interval world watcher) world (ev.evTimerAgain watcher world)
  passes {before after : World} (passes : ev.passes before after) :
    ev.now before ≤ ev.now after ∧ ev.due after = ev.due before ∧
      ev.interval after = ev.interval before
  /-- A callback is called only when its timer is due; a timer without an interval is stopped
  before, another one is configured to go off again. -/
  invokes {watcher : Watcher} {before after : World} (invokes : ev.invokes watcher before after) :
    ∃ due next, ev.due before watcher = some due ∧ due ≤ ev.now before ∧
      Again (ev.now before) due (ev.interval before watcher) next ∧
      Changes ev watcher next (ev.interval before watcher) before after

variable {ev : EvLoop Watcher World}

theorem Changes.trans {watcher : Watcher} {first second : Option Nat} {early late : Nat}
    {before middle after : World} (left : Changes ev watcher first early before middle)
    (right : Changes ev watcher second late middle after) :
    Changes ev watcher second late before after :=
  ⟨right.now.trans left.now, by rw [right.due, left.due, Function.update_idem],
    by rw [right.interval, left.interval, Function.update_idem]⟩

theorem Changes.idle {watcher : Watcher} {interval : Nat} {before after : World}
    (changes : Changes ev watcher none interval before after) : ev.due after watcher = none := by
  rw [changes.due, Function.update_self]

/-- A timer that is not active is initialised and started. -/
theorem Documented.init_start (documented : Documented ev) (watcher : Watcher) (after : Int)
    (interval : Nat) (world : World) (idle : ev.due world watcher = none) :
    Changes ev watcher (some (ev.now world + after.toNat)) interval world
      (ev.evTimerStart watcher (ev.evTimerSet watcher after interval world)) := by
  obtain ⟨set, delay⟩ := documented.set watcher after interval world idle
  have start := documented.start watcher _ set.idle
  rw [set.now, delay, set.interval, Function.update_self] at start
  exact set.trans start

/-- A timer that repeats is initialised and started with its interval as the delay. -/
theorem Documented.init_again (documented : Documented ev) (watcher : Watcher) (after : Int)
    (interval : Nat) (world : World) (idle : ev.due world watcher = none) (repeats : interval ≠ 0) :
    Changes ev watcher (some (ev.now world + interval)) interval world
      (ev.evTimerAgain watcher (ev.evTimerSet watcher after interval world)) := by
  obtain ⟨set, -⟩ := documented.set watcher after interval world idle
  have every : ev.interval (ev.evTimerSet watcher after interval world) watcher = interval := by
    rw [set.interval, Function.update_self]
  have again := documented.again watcher _ (every.symm ▸ repeats)
  rw [set.now, every] at again
  exact set.trans again

/-- A timer that may be active is stopped, configured and started. -/
theorem Documented.restart (documented : Documented ev) (watcher : Watcher) (after : Int)
    (interval : Nat) (world : World) :
    Changes ev watcher (some (ev.now world + after.toNat)) interval world
      (ev.evTimerStart watcher (ev.evTimerSet watcher after interval
        (ev.evTimerStop watcher world))) := by
  have stop := documented.stop watcher world
  have start := documented.init_start watcher after interval _ stop.idle
  rw [stop.now] at start
  exact stop.trans start

section Plain

structure Plain (Watcher : Type) where
  now : Nat
  due : Watcher → Option Nat
  delay : Watcher → Int
  interval : Watcher → Nat

/-- The timer has gone off; a repeating one that is late goes off again at once. -/
def Plain.reified (world : Plain Watcher) (watcher : Watcher) (due : Nat) : Plain Watcher :=
  { world with
    due := Function.update world.due watcher
      (if world.interval watcher = 0 then none
        else some (max (due + world.interval watcher) world.now)) }

def plain : EvLoop Watcher (Plain Watcher) where
  now := Plain.now
  due := Plain.due
  delay := Plain.delay
  interval := Plain.interval
  evTimerStop watcher world := { world with due := Function.update world.due watcher none }
  evTimerSet watcher after interval world :=
    { world with
      delay := Function.update world.delay watcher after
      interval := Function.update world.interval watcher interval }
  evTimerStart watcher world :=
    { world with
      due := Function.update world.due watcher (some (world.now + (world.delay watcher).toNat)) }
  evTimerAgain watcher world :=
    { world with
      due := Function.update world.due watcher
        (if world.interval watcher = 0 then none else some (world.now + world.interval watcher)) }
  passes before after := ∃ later, before.now ≤ later ∧ after = { before with now := later }
  invokes watcher before after := ∃ due, before.due watcher = some due ∧ due ≤ before.now ∧
    after = before.reified watcher due

theorem plain_documented : Documented (@plain Watcher _) where
  stop watcher world := ⟨rfl, rfl, (Function.update_eq_self ..).symm⟩
  set watcher after interval world idle :=
    ⟨⟨rfl, (Function.update_eq_self_iff.mpr idle.symm).symm, rfl⟩, Function.update_self ..⟩
  start watcher world idle := ⟨rfl, rfl, (Function.update_eq_self ..).symm⟩
  again watcher world repeats :=
    ⟨rfl, congrArg (Function.update world.due watcher) (if_neg (show world.interval watcher ≠ 0 from repeats)),
      (Function.update_eq_self ..).symm⟩
  passes := by
    rintro before after ⟨later, forward, rfl⟩
    exact ⟨forward, rfl, rfl⟩
  invokes := by
    rintro watcher before after ⟨due, armed, reached, rfl⟩
    refine ⟨due, _, armed, reached, ?_, rfl, rfl, (Function.update_eq_self ..).symm⟩
    show Again before.now due (before.interval watcher) (if before.interval watcher = 0 then none
      else some (max (due + before.interval watcher) before.now))
    unfold Again
    split
    · rfl
    · exact ⟨_, rfl, by omega, by omega⟩

end Plain

end Owl.Libev
