import LegacySignal.Sync.Manager
import Mathlib.Data.Int.Notation

/-!
# Persistent and polling mode

`SyncService.onStartCommand` reads `sync_interval_mins` and starts the manager.
In polling mode it also posts a block that, ten seconds later, stops the
manager and sets the alarm of the next poll with the interval read at the
start. In persistent mode it cancels the alarm. The posted blocks are never
taken back.

The commands may come from `HomeActivity`, `BootReceiver` or `SyncReceiver` at
any time, so each delivery of `onStartCommand`, each change of the setting and
each firing of a block or of the alarm is an event of its own.
-/

namespace LegacySignal

open Transition

structure SyncService where
  manager : SyncManager
  /-- Phone number and password can be read. -/
  credentials : Bool
  /-- The setting `sync_interval_mins`. -/
  intervalMins : ℤ
  /-- When the poll alarm will go off, in milliseconds. -/
  alarm : Option ℤ
  /-- The intervals captured by the stop blocks that wait for their ten seconds. -/
  delayedStops : List ℤ
  /-- An `onStartCommand` ran after the setting became 0. -/
  startedSinceZero : Bool
deriving DecidableEq, Repr

namespace SyncService

def initial (credentials : Bool) (intervalMins : ℤ) : SyncService where
  manager := SyncManager.initial
  credentials := credentials
  intervalMins := intervalMins
  alarm := none
  delayedStops := []
  startedSinceZero := false

def onStartCommand (service : SyncService) : SyncService :=
  let started := { service with
    manager := service.manager.start service.credentials
    startedSinceZero := decide (service.intervalMins = 0) }
  if service.intervalMins > 0 then
    { started with delayedStops := service.delayedStops ++ [service.intervalMins] }
  else
    { started with alarm := none }

def delayedStop (service : SyncService) (captured : ℤ) (now : ℤ) : SyncService :=
  { service with
    manager := service.manager.stop
    alarm := some (now + captured * 60 * 1000) }

/-- A choice in `showSyncSettingsDialog`, before the command it sends is delivered. -/
def setInterval (service : SyncService) (intervalMins : ℤ) : SyncService :=
  { service with
    intervalMins := intervalMins
    startedSinceZero :=
      service.startedSinceZero && decide (intervalMins = 0 ∧ service.intervalMins = 0) }

inductive Event where
  | onStartCommand
  | setInterval (intervalMins : ℤ)
  | delayedStop (index : ℕ) (now : ℤ)
  | alarm
deriving DecidableEq, Repr

def step (service : SyncService) : Event → Option SyncService
  | .onStartCommand => some service.onStartCommand
  | .setInterval intervalMins => some (service.setInterval intervalMins)
  | .delayedStop index now =>
    service.delayedStops[index]?.map fun captured =>
      delayedStop { service with delayedStops := service.delayedStops.eraseIdx index }
        captured now
  | .alarm => if service.alarm.isSome then some { service with alarm := none } else none

/-- If the setting is 0 and a command ran since, persistent mode is in force. -/
def InForce (service : SyncService) : Prop :=
  service.intervalMins = 0 → service.startedSinceZero = true →
    service.manager.isRunning = true ∧ service.alarm = none ∧ service.delayedStops = []

/--
A command for persistent mode finds no stop block waiting, and either the
credentials can be read or the manager runs already.
-/
def NoStopWaiting (service : SyncService) (event : Event) : Prop :=
  event = .onStartCommand → service.intervalMins = 0 →
    service.delayedStops = [] ∧ (service.manager.isRunning = true ∨ service.credentials = true)

theorem inForce_onStartCommand_iff (service : SyncService) :
    InForce service.onStartCommand ↔ NoStopWaiting service .onStartCommand := by
  by_cases persistent : service.intervalMins = 0
  · simp [InForce, NoStopWaiting, onStartCommand, persistent, SyncManager.start_isRunning,
      and_comm]
  · by_cases polling : service.intervalMins > 0
    · simp [InForce, NoStopWaiting, onStartCommand, persistent, polling]
    · simp [InForce, NoStopWaiting, onStartCommand, persistent, polling]

theorem inForce_setInterval {service : SyncService} (inForce : InForce service)
    (intervalMins : ℤ) : InForce (service.setInterval intervalMins) := by
  intro persistent started
  simp only [setInterval, Bool.and_eq_true, decide_eq_true_eq] at persistent started
  exact inForce started.2.2 started.1

theorem inForce_step_iff {service next : SyncService} {event : Event}
    (inForce : InForce service) (stepped : step service event = some next) :
    InForce next ↔ NoStopWaiting service event := by
  cases event with
  | onStartCommand =>
    simp only [step, Option.some.injEq] at stepped
    exact stepped ▸ inForce_onStartCommand_iff service
  | setInterval intervalMins =>
    simp only [step, Option.some.injEq] at stepped
    refine iff_of_true (stepped ▸ inForce_setInterval inForce intervalMins) ?_
    simp [NoStopWaiting]
  | delayedStop index now =>
    simp only [step, Option.map_eq_some_iff] at stepped
    rcases stepped with ⟨captured, waiting, rfl⟩
    refine iff_of_true ?_ (by simp [NoStopWaiting])
    intro persistent started
    have none := (inForce persistent started).2.2
    simp [none] at waiting
  | alarm =>
    simp only [step, Option.ite_none_right_eq_some, Option.some.injEq] at stepped
    rcases stepped with ⟨_, rfl⟩
    refine iff_of_true ?_ (by simp [NoStopWaiting])
    intro persistent started
    have before := inForce persistent started
    exact ⟨before.1, rfl, before.2.2⟩

/--
The mode in force is the last one chosen throughout a run exactly if every
command for persistent mode is delivered while no stop block is waiting.
-/
theorem inForce_always_iff {credentials : Bool} {intervalMins : ℤ} {events : List Event}
    {service : SyncService}
    (reached : run step (initial credentials intervalMins) events = some service) :
    Always step InForce (initial credentials intervalMins) events ↔
      Meets step NoStopWaiting (initial credentials intervalMins) events :=
  always_iff_meets (fun _ _ _ _ _ _ => trivial)
    (fun _ _ _ _ inForce stepped => inForce_step_iff inForce stepped)
    trivial (by simp [InForce, initial]) reached

/-- A poll every 15 minutes, then persistent mode chosen within the ten seconds. -/
def switchedRun : List Event :=
  [.onStartCommand, .setInterval 0, .onStartCommand, .delayedStop 0 0]

/-- The stop block of the polling start ends the persistent connection. -/
theorem inForce_not_always :
    ¬∀ events service, run step (initial true 15) events = some service →
      InForce service := by
  intro always
  have stopped := always switchedRun _ rfl rfl rfl
  exact absurd stopped.1 (by decide)

/-- Switching only after the stop block has run. -/
def settledRun : List Event :=
  [.onStartCommand, .delayedStop 0 0, .setInterval 0, .onStartCommand]

theorem inForce_always_iff_settled :
    Always step InForce (initial true 15) settledRun := by
  have reached : run step (initial true 15) settledRun = some _ := rfl
  rw [inForce_always_iff reached]
  simp [settledRun, Meets, NoStopWaiting, step, initial, onStartCommand, delayedStop,
    setInterval]

end SyncService

end LegacySignal
