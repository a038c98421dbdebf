import KeyLease.Duration

set_option autoImplicit false

/-!
# The schedule of the background sweep

A sweeper ticks once every interval, the first time one interval after it was started. It reads the
clock for that when its task has its first turn, and the task is assumed to have it before the clock
moves on from the instant at which the sweep was asked for.

Its timer has a resolution of one millisecond: a tick comes at the first whole millisecond that is
not before its due instant. A tick that is handled more than `lateness` after its due instant moves
the schedule: the next is due one interval after the handling. Otherwise the schedule stays, and
ticks of it that are already due by then are handled in the same instant.
-/

namespace KeyLease.Memory

/-- How late a tick may be handled without moving the schedule. -/
def lateness : Duration := .ofMillis 5

/-- A running sweep. -/
structure Sweeper where
  interval : Duration
  due : Nat
  interval_pos : 0 < interval.nanos

namespace Sweeper

/-- The sweep that starts now, and whose task has its first turn now. An interval of no length makes
none. -/
def start? (interval : Duration) (now : Nat) : Option Sweeper :=
  if h : 0 < interval.nanos then some ⟨interval, now + interval.nanos, h⟩ else none

/-- The instant at which the timer of the next tick goes off. -/
def wakes (s : Sweeper) : Nat := Duration.timerMillis ⟨s.due⟩ * 1000000

/-- The sweep after the ticks that are due by `now` have been handled at that instant. -/
def handled (s : Sweeper) (now : Nat) : Sweeper :=
  if now < s.due then s
  else if s.due + lateness.nanos < now then { s with due := now + s.interval.nanos }
  else { s with due := s.due + ((now - s.due) / s.interval.nanos + 1) * s.interval.nanos }

/-- A tick comes no earlier than it is due. -/
theorem due_le_wakes (s : Sweeper) : s.due ≤ s.wakes := by
  simp only [wakes, Duration.timerMillis]
  omega

/-- After the ticks due by an instant are handled, the next is due later. -/
theorem lt_due_handled (s : Sweeper) (now : Nat) : now < (s.handled now).due := by
  have hpos := s.interval_pos
  unfold handled
  split
  · assumption
  · split
    · simp only
      omega
    · -- As many intervals are added as have passed, and one more.
      rename_i h _
      have hdiv := Nat.div_add_mod (now - s.due) s.interval.nanos
      have hmod := Nat.mod_lt (now - s.due) hpos
      have hmul := Nat.add_mul ((now - s.due) / s.interval.nanos) 1 s.interval.nanos
      have hcomm := Nat.mul_comm s.interval.nanos ((now - s.due) / s.interval.nanos)
      simp only
      omega

end Sweeper

end KeyLease.Memory
