import KeyLease.Key
import KeyLease.LeaseStore
import KeyLease.Leases
import KeyLease.Memory.Sweeper

set_option autoImplicit false

/-!
# The memory store

A store whose leases live in the program's own memory and are gone when it disconnects. The state
holds the clock that the store reads, so a run is a sequence of operations and of moves of the
clock. A sweep may run in the background while the store is connected; it frees memory and changes
no answer.
-/

namespace KeyLease.Memory

/-- The latest instant that a clock of 64-bit seconds can name. -/
def lastInstant : Nat := 0x8000000000000000 * 1000000000 - 1

/-- A memory store with its clock. -/
structure Store where
  now : Nat := 0
  clockEnd : Nat := lastInstant
  status : Status := .uninitialized
  leases : Leases := {}
  sweepInterval : Option Duration := none
  sweeper : Option Sweeper := none

namespace Store

/-- The store that a valid configuration of the memory backend describes. -/
def ofConfig (c : Config) : Except Failure Store :=
  match c.check, c.backendKind with
  | .error e, _ => .error e
  | _, .error e => .error e
  | .ok (), .ok .memory => .ok { sweepInterval := c.sweepInterval }
  | .ok (), .ok .redis => .error (.configInvalid (.notMemory c.uri))

/-! ## Operations -/

/-- The instant at which a lease acquired now expires, if the clock can name it. -/
def expiryAfter? (s : Store) (ttl : Duration) : Option Nat :=
  if s.now + ttl.nanos ≤ s.clockEnd then some (s.now + ttl.nanos) else none

/-- Creates the lease of a key unless a live one is there. -/
def tryAcquire (s : Store) (key : String) (ttl : Duration) : Answer × Store :=
  match ensureKey key, ensureTtl ttl, s.status.ensureConnected with
  | .error e, _, _ => (.error e, s)
  | _, .error e, _ => (.error e, s)
  | _, _, .error e => (.error e, s)
  | .ok (), .ok (), .ok () =>
      match s.expiryAfter? ttl with
      | none => (.error (.configInvalid (.ttlBeyondClock ttl)), s)
      | some expiry =>
          let (acquired, leases) := s.leases.acquire s.now key expiry
          (.ok acquired, { s with leases })

/-- Removes the lease of a key. -/
def release (s : Store) (key : String) : Answer × Store :=
  match ensureKey key, s.status.ensureConnected with
  | .error e, _ => (.error e, s)
  | _, .error e => (.error e, s)
  | .ok (), .ok () =>
      let (released, leases) := s.leases.release s.now key
      (.ok released, { s with leases })

/-- Whether a live lease is there; never for the empty key or while not connected. -/
def exists? (s : Store) (key : String) : Bool :=
  !key.isEmpty && s.status = .connected && s.leases.isLive s.now key

/-- Drops the expired leases, and tells how many there were. -/
def sweep (s : Store) : Nat × Store :=
  let leases := s.leases.sweep s.now
  (s.leases.size - leases.size, { s with leases })

/-- Opens a session, and starts the sweep if there is to be one. The schedule of the sweep begins at
this instant: its task is assumed to have its first turn before the clock moves. -/
def connect (s : Store) : Except Failure Unit × Store :=
  let (result, status) := s.status.connect (.ok ())
  match result with
  | .ok () =>
      let sweeper := s.sweepInterval.bind (Sweeper.start? · s.now)
      (result, { s with status, sweeper })
  | .error _ => (result, { s with status })

/-- Closes the session: the sweep ends and all leases are dropped. -/
def disconnect (s : Store) : Except Failure Unit × Store :=
  let (result, status) := s.status.disconnect (.ok ())
  match result with
  | .ok () => (result, { s with status, sweeper := none, leases := {} })
  | .error _ => (result, { s with status })

/-- Carries out one call. -/
def perform (c : Call) (s : Store) : Answer × Store :=
  match c with
  | .tryAcquire key ttl => s.tryAcquire key ttl
  | .release key => s.release key
  | .exists key => (.ok (s.exists? key), s)
  | .check _ => ((s.status.health (.ok ())).map fun () => true, s)

/-! ## Time -/

/-- The ticks that are due at the present instant are handled. -/
def tick (s : Store) : Store :=
  match s.sweeper with
  | none => s
  | some sweeper =>
      if sweeper.due ≤ s.now then
        { (s.sweep).2 with sweeper := some (sweeper.handled s.now) }
      else s

/-- The clock moves in one step, and whatever has become due is handled late. -/
def jump (d : Duration) (s : Store) : Store := { s with now := s.now + d.nanos }.tick

/-- Time passes up to an instant, and every tick is handled when its timer goes off. -/
def sleepUntil (target : Nat) (s : Store) : Store :=
  match _running : s.sweeper with
  | none => { s with now := max s.now target }
  | some sweeper =>
      if sweeper.wakes ≤ target then
        let now := max s.now sweeper.wakes
        sleepUntil target
          { s with now, leases := s.leases.sweep now, sweeper := some (sweeper.handled now) }
      else { s with now := max s.now target }
termination_by match s.sweeper with
  | none => 0
  | some sweeper => target + 1 - sweeper.due
decreasing_by
  rw [_running]
  -- A tick is not handled before it is due, and the next is due after that.
  have h₁ := sweeper.due_le_wakes
  have h₂ := sweeper.lt_due_handled (max s.now sweeper.wakes)
  have h₃ : sweeper.wakes ≤ max s.now sweeper.wakes := Nat.le_max_right _ _
  simp only
  omega

/-- Time passes. -/
def pass (d : Duration) (s : Store) : Store := s.sleepUntil (s.now + d.nanos)

end Store

instance : LeaseStore Store where
  backend _ := "memory"
  connect := Store.connect
  disconnect := Store.disconnect
  perform := Store.perform
  pass := Store.pass

end KeyLease.Memory
