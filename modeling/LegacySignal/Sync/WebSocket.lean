import LegacySignal.Library.Transition
import Mathlib.Data.List.Basic

/-!
# The reconnecting web socket

`SignalWebSocket` keeps one OkHttp socket alive. Every socket it opens gets a
listener of its own, and all these listeners act on the same fields:
`onClosing`, `onClosed` and `onFailure` report `DISCONNECTED` and post a
reconnect runnable, whichever socket they belong to.

The state below holds the fields of the class, the queue of the main handler
and, for each socket ever opened, what has been heard of it. OkHttp may call
the listeners of these sockets in any order, so each of the callbacks is an
event of its own, like the calls of `connect` and `disconnect` and the firing
of a posted runnable.
-/

namespace LegacySignal

open Transition

inductive ConnectionState where
  | connecting
  | connected
  | disconnected
deriving DecidableEq, Repr

/-- What the listener of one socket has been told so far. -/
structure Socket where
  opened : Bool
  ended : Bool
deriving DecidableEq, Repr

structure SignalWebSocket where
  /-- The field `webSocket`, as an index into `sockets`. -/
  webSocket : Option ℕ
  manualDisconnect : Bool
  reconnectRunnable : Option ℕ
  /-- The runnables that wait in the queue of the main handler. -/
  posted : List ℕ
  /-- The number of `Runnable` objects created so far. -/
  runnables : ℕ
  /-- Every socket ever opened, oldest first. -/
  sockets : List Socket
  /-- The last argument of `onStateChanged`. -/
  reported : Option ConnectionState
  /-- `disconnect` has been called since the newest socket was opened. -/
  disconnectCalled : Bool
deriving DecidableEq, Repr

namespace SignalWebSocket

def initial : SignalWebSocket where
  webSocket := none
  manualDisconnect := false
  reconnectRunnable := none
  posted := []
  runnables := 0
  sockets := []
  reported := none
  disconnectCalled := false

def removeCallbacks (socket : SignalWebSocket) : SignalWebSocket :=
  match socket.reconnectRunnable with
  | none => socket
  | some runnable => { socket with posted := socket.posted.filter (· ≠ runnable) }

/-- The old socket is only asked to close; its callbacks come later, as events. -/
def connect (socket : SignalWebSocket) : SignalWebSocket :=
  let cleared := removeCallbacks { socket with manualDisconnect := false }
  { cleared with
    webSocket := some cleared.sockets.length
    sockets := cleared.sockets ++ [{ opened := false, ended := false }]
    reported := some .connecting
    disconnectCalled := false }

def scheduleReconnect (socket : SignalWebSocket) : SignalWebSocket :=
  if socket.manualDisconnect then socket
  else
    let cleared := removeCallbacks socket
    { cleared with
      reconnectRunnable := some cleared.runnables
      posted := cleared.posted ++ [cleared.runnables]
      runnables := cleared.runnables + 1 }

def disconnect (socket : SignalWebSocket) : SignalWebSocket :=
  let cleared := removeCallbacks { socket with manualDisconnect := true }
  { cleared with
    webSocket := none
    reported := some .disconnected
    disconnectCalled := true }

def reconnect (socket : SignalWebSocket) : SignalWebSocket :=
  if socket.manualDisconnect then socket else connect socket

def onOpen (socket : SignalWebSocket) (index : ℕ) : SignalWebSocket :=
  { socket with
    sockets := socket.sockets.modify index fun heard => { heard with opened := true }
    reported := some .connected }

/-- What `onClosing`, `onClosed` and `onFailure` all do with the fields. -/
def onEnd (socket : SignalWebSocket) (index : ℕ) : SignalWebSocket :=
  scheduleReconnect { socket with
    sockets := socket.sockets.modify index fun heard => { heard with ended := true }
    reported := some .disconnected }

def onClosing (socket : SignalWebSocket) (index : ℕ) : SignalWebSocket := socket.onEnd index

def onClosed (socket : SignalWebSocket) (index : ℕ) : SignalWebSocket := socket.onEnd index

def onFailure (socket : SignalWebSocket) (index : ℕ) : SignalWebSocket := socket.onEnd index

inductive Event where
  | connect
  | disconnect
  | fire (runnable : ℕ)
  | onOpen (index : ℕ)
  | onClosing (index : ℕ)
  | onClosed (index : ℕ)
  | onFailure (index : ℕ)
deriving DecidableEq, Repr

def Event.endOf : Event → Option ℕ
  | .onClosing index | .onClosed index | .onFailure index => some index
  | _ => none

def step (socket : SignalWebSocket) : Event → Option SignalWebSocket
  | .connect => some socket.connect
  | .disconnect => some socket.disconnect
  | .fire runnable =>
    if runnable ∈ socket.posted then
      some (reconnect { socket with posted := socket.posted.erase runnable })
    else none
  | .onOpen index => if index < socket.sockets.length then some (socket.onOpen index) else none
  | .onClosing index =>
    if index < socket.sockets.length then some (socket.onClosing index) else none
  | .onClosed index =>
    if index < socket.sockets.length then some (socket.onClosed index) else none
  | .onFailure index =>
    if index < socket.sockets.length then some (socket.onFailure index) else none

/-- The newest socket is open, has had no close or failure, and was not given up. -/
def Healthy (socket : SignalWebSocket) : Prop :=
  (∃ newest, socket.sockets.getLast? = some newest ∧ newest.opened ∧ ¬newest.ended) ∧
    ¬socket.disconnectCalled

/-- No reconnect is pending and the reported state is not `DISCONNECTED`. -/
def LeftAlone (socket : SignalWebSocket) : Prop :=
  socket.posted = [] ∧ socket.reported ≠ some .disconnected

/--
The event is not the close or failure of a superseded socket. Once the newest
socket has itself ended, or after `disconnect`, such a callback is harmless.
-/
def NotSuperseded (socket : SignalWebSocket) (event : Event) : Prop :=
  ∀ index, event.endOf = some index →
    index + 1 = socket.sockets.length ∨ socket.manualDisconnect ∨
      ∃ newest, socket.sockets.getLast? = some newest ∧ newest.ended

/-- The invariant behind `leftAlone_of_notSuperseded`. -/
structure Quiet (socket : SignalWebSocket) : Prop where
  posted_current : ∀ runnable ∈ socket.posted, socket.reconnectRunnable = some runnable
  manual_iff : socket.manualDisconnect = socket.disconnectCalled
  alone : ∀ newest, socket.sockets.getLast? = some newest → ¬newest.ended →
    ¬socket.disconnectCalled → socket.LeftAlone

theorem quiet_initial : Quiet initial where
  posted_current := by simp [initial]
  manual_iff := rfl
  alone := by simp [initial]

variable {socket : SignalWebSocket} {sockets : List Socket} {index : ℕ}

/-- At most the runnable in `reconnectRunnable` is ever queued, so removing it empties the queue. -/
theorem removeCallbacks_posted
    (current : ∀ runnable ∈ socket.posted, socket.reconnectRunnable = some runnable) :
    socket.removeCallbacks.posted = [] := by
  unfold removeCallbacks
  split
  · rename_i absent
    rw [List.eq_nil_iff_forall_not_mem]
    intro runnable queued
    simpa [absent] using current runnable queued
  · rename_i runnable present
    rw [List.eq_nil_iff_forall_not_mem]
    intro other queued
    simp only [ne_eq, decide_not, List.mem_filter, Bool.not_eq_eq_eq_not, Bool.not_true,
      decide_eq_false_iff_not] at queued
    have same := current other queued.1
    rw [present, Option.some.injEq] at same
    exact queued.2 same.symm

@[simp]
theorem removeCallbacks_sockets (socket : SignalWebSocket) :
    socket.removeCallbacks.sockets = socket.sockets := by
  unfold removeCallbacks
  split <;> rfl

@[simp]
theorem removeCallbacks_manualDisconnect (socket : SignalWebSocket) :
    socket.removeCallbacks.manualDisconnect = socket.manualDisconnect := by
  unfold removeCallbacks
  split <;> rfl

@[simp]
theorem removeCallbacks_disconnectCalled (socket : SignalWebSocket) :
    socket.removeCallbacks.disconnectCalled = socket.disconnectCalled := by
  unfold removeCallbacks
  split <;> rfl

theorem quiet_connect (quiet : Quiet socket) :
    Quiet socket.connect := by
  have emptied : (removeCallbacks { socket with manualDisconnect := false }).posted = [] :=
    removeCallbacks_posted quiet.posted_current
  refine ⟨?_, ?_, ?_⟩
  · simp [connect, emptied]
  · simp [connect]
  · intro newest _ _ _
    exact ⟨emptied, by simp [connect]⟩

theorem quiet_disconnect (quiet : Quiet socket) :
    Quiet socket.disconnect := by
  have emptied : (removeCallbacks { socket with manualDisconnect := true }).posted = [] :=
    removeCallbacks_posted quiet.posted_current
  refine ⟨?_, ?_, ?_⟩
  · simp [disconnect, emptied]
  · simp [disconnect]
  · simp [disconnect]

theorem quiet_reconnect (runnable : ℕ) (quiet : Quiet socket) :
    Quiet (reconnect { socket with posted := socket.posted.erase runnable }) := by
  have shrunk : Quiet { socket with posted := socket.posted.erase runnable } := by
    refine ⟨?_, quiet.manual_iff, ?_⟩
    · intro other queued
      exact quiet.posted_current other (List.mem_of_mem_erase queued)
    · intro newest isNewest running kept
      have before := quiet.alone newest isNewest running kept
      exact ⟨by simp [before.1], before.2⟩
  unfold reconnect
  split
  · exact shrunk
  · exact quiet_connect shrunk

theorem getLast?_modify_of_lt (change : Socket → Socket) (older : index + 1 < sockets.length) :
    (sockets.modify index change).getLast? = sockets.getLast? := by
  rw [List.getLast?_eq_getElem?, List.getLast?_eq_getElem?, List.length_modify,
    List.getElem?_modify]
  have differs : index ≠ sockets.length - 1 := by omega
  simp [differs]

theorem getLast?_modify_last (change : Socket → Socket) (last : index + 1 = sockets.length) :
    (sockets.modify index change).getLast? = sockets.getLast?.map change := by
  rw [List.getLast?_eq_getElem?, List.getLast?_eq_getElem?, List.length_modify,
    List.getElem?_modify]
  have same : index = sockets.length - 1 := by omega
  simp [same]

theorem quiet_onOpen (known : index < socket.sockets.length) (quiet : Quiet socket) :
    Quiet (socket.onOpen index) := by
  refine ⟨quiet.posted_current, quiet.manual_iff, ?_⟩
  intro newest isNewest running kept
  simp only [onOpen] at isNewest kept
  refine ⟨?_, by simp [onOpen]⟩
  rcases Nat.lt_or_eq_of_le (Nat.succ_le_of_lt known) with older | last
  · rw [getLast?_modify_of_lt _ older] at isNewest
    exact (quiet.alone newest isNewest running kept).1
  · rw [getLast?_modify_last _ last, Option.map_eq_some_iff] at isNewest
    rcases isNewest with ⟨before, isBefore, rfl⟩
    exact (quiet.alone before isBefore running kept).1

theorem ended_of_onEnd (known : index < socket.sockets.length)
    (own : index + 1 = socket.sockets.length ∨
      ∃ newest, socket.sockets.getLast? = some newest ∧ newest.ended) {newest : Socket}
    (isNewest : (socket.sockets.modify index fun heard => { heard with ended := true }).getLast? =
      some newest) : newest.ended := by
  rcases Nat.lt_or_eq_of_le (Nat.succ_le_of_lt known) with older | last
  · rw [getLast?_modify_of_lt _ older] at isNewest
    rcases own with same | ⟨before, isBefore, ended⟩
    · omega
    · rw [isNewest, Option.some.injEq] at isBefore
      exact isBefore ▸ ended
  · rw [getLast?_modify_last _ last, Option.map_eq_some_iff] at isNewest
    rcases isNewest with ⟨before, _, rfl⟩
    rfl

theorem quiet_scheduleReconnect
    (current : ∀ runnable ∈ socket.posted, socket.reconnectRunnable = some runnable)
    (manual_iff : socket.manualDisconnect = socket.disconnectCalled)
    (ended : ¬socket.manualDisconnect →
      ∀ newest, socket.sockets.getLast? = some newest → newest.ended) :
    Quiet socket.scheduleReconnect := by
  unfold scheduleReconnect
  split
  · rename_i manual
    refine ⟨current, manual_iff, ?_⟩
    intro newest _ _ kept
    exact absurd (manual_iff ▸ manual) kept
  · rename_i manual
    refine ⟨?_, ?_, ?_⟩
    · simp [removeCallbacks_posted current]
    · simpa using manual_iff
    · intro newest isNewest running _
      simp only [removeCallbacks_sockets] at isNewest
      exact absurd (ended manual newest isNewest) running

theorem quiet_onEnd (known : index < socket.sockets.length)
    (own : index + 1 = socket.sockets.length ∨ socket.manualDisconnect ∨
      ∃ newest, socket.sockets.getLast? = some newest ∧ newest.ended) (quiet : Quiet socket) :
    Quiet (socket.onEnd index) := by
  refine quiet_scheduleReconnect ?_ ?_ ?_
  · exact quiet.posted_current
  · exact quiet.manual_iff
  intro manual newest isNewest
  have own' : index + 1 = socket.sockets.length ∨
      ∃ newest, socket.sockets.getLast? = some newest ∧ newest.ended := by
    rcases own with last | given | ended
    · exact Or.inl last
    · exact absurd given manual
    · exact Or.inr ended
  exact ended_of_onEnd known own' isNewest

theorem quiet_step {socket next : SignalWebSocket} {event : Event} (quiet : Quiet socket)
    (own : NotSuperseded socket event) (stepped : step socket event = some next) :
    Quiet next := by
  cases event with
  | connect =>
    simp only [step, Option.some.injEq] at stepped
    exact stepped ▸ quiet_connect quiet
  | disconnect =>
    simp only [step, Option.some.injEq] at stepped
    exact stepped ▸ quiet_disconnect quiet
  | fire runnable =>
    simp only [step, Option.ite_none_right_eq_some, Option.some.injEq] at stepped
    exact stepped.2 ▸ quiet_reconnect runnable quiet
  | onOpen index =>
    simp only [step, Option.ite_none_right_eq_some, Option.some.injEq] at stepped
    exact stepped.2 ▸ quiet_onOpen stepped.1 quiet
  | onClosing index =>
    simp only [step, onClosing, Option.ite_none_right_eq_some, Option.some.injEq] at stepped
    exact stepped.2 ▸ quiet_onEnd stepped.1 (own index rfl) quiet
  | onClosed index =>
    simp only [step, onClosed, Option.ite_none_right_eq_some, Option.some.injEq] at stepped
    exact stepped.2 ▸ quiet_onEnd stepped.1 (own index rfl) quiet
  | onFailure index =>
    simp only [step, onFailure, Option.ite_none_right_eq_some, Option.some.injEq] at stepped
    exact stepped.2 ▸ quiet_onEnd stepped.1 (own index rfl) quiet

/--
A healthy connection is left alone in every run in which no close or failure of
a superseded socket is delivered while a newer socket is in use.
-/
theorem leftAlone_of_notSuperseded {events : List Event} {socket : SignalWebSocket}
    (own : Meets step NotSuperseded initial events)
    (reached : run step initial events = some socket)
    (healthy : Healthy socket) : LeftAlone socket := by
  have quiet : Quiet socket := run_invariant_of_meets
    (fun _ _ _ holds allowed stepped => quiet_step holds allowed stepped)
    quiet_initial own reached
  rcases healthy with ⟨⟨newest, isNewest, _, running⟩, kept⟩
  exact quiet.alone newest isNewest running kept

/-- A connection that the server closes and that is opened again before its `onClosed` comes. -/
def supersededRun : List Event :=
  [.connect, .onOpen 0, .onClosing 0, .fire 0, .onOpen 1, .onClosed 0]

/-- The late `onClosed` of the first socket disturbs the second one. -/
theorem healthy_not_leftAlone :
    ¬∀ events socket, run step initial events = some socket →
      Healthy socket → LeftAlone socket := by
  intro always
  have disturbed := always supersededRun _ rfl ⟨⟨_, rfl, rfl, by decide⟩, by decide⟩
  exact absurd disturbed.1 (by decide)

/-- A connection that fails and is opened again by the runnable. -/
def recoveredRun : List Event :=
  [.connect, .onOpen 0, .onFailure 0, .fire 0, .onOpen 1]

theorem leftAlone_of_notSuperseded_recovered :
    ∃ socket, run step initial recoveredRun = some socket ∧
      Healthy socket ∧ LeftAlone socket := by
  have own : Meets step NotSuperseded initial recoveredRun := by
    simp [recoveredRun, Meets, NotSuperseded, Event.endOf, step, initial, connect,
      removeCallbacks, onOpen, onFailure, onEnd, scheduleReconnect]
  obtain ⟨socket, reached, healthy⟩ : ∃ socket,
      run step initial recoveredRun = some socket ∧ Healthy socket :=
    ⟨_, rfl, ⟨⟨_, rfl, rfl, by decide⟩, by decide⟩⟩
  exact ⟨socket, reached, healthy, leftAlone_of_notSuperseded own reached healthy⟩

/-- The socket is closed on purpose, and nothing was opened or posted since. -/
structure Closed (start socket : SignalWebSocket) : Prop where
  manual : socket.manualDisconnect
  webSocket : socket.webSocket = none
  sockets : socket.sockets.length = start.sockets.length
  posted : socket.posted ⊆ start.posted

theorem Closed.step {start next : SignalWebSocket} {event : Event} (closed : Closed start socket)
    (other : event ≠ .connect) (stepped : step socket event = some next) : Closed start next := by
  obtain ⟨manual, webSocket, sockets, posted⟩ := closed
  cases event with
  | connect => exact absurd rfl other
  | disconnect =>
    cases stepped
    refine ⟨by simp [disconnect], rfl, by simp [disconnect, sockets], ?_⟩
    refine List.Subset.trans ?_ posted
    simp only [disconnect, removeCallbacks]
    split
    · exact List.Subset.refl _
    · exact List.filter_subset_self _
  | fire runnable =>
    simp only [SignalWebSocket.step, Option.ite_none_right_eq_some, Option.some.injEq] at stepped
    simp only [← stepped.2, reconnect, manual, if_true]
    exact ⟨rfl, webSocket, sockets, List.Subset.trans List.erase_subset posted⟩
  | _ =>
    simp only [SignalWebSocket.step, onOpen, onClosing, onClosed, onFailure, onEnd,
      scheduleReconnect, manual, if_true, Option.ite_none_right_eq_some,
      Option.some.injEq] at stepped
    cases stepped.2
    exact ⟨rfl, webSocket, by simpa using sockets, posted⟩

/-- Between `disconnect` and the next `connect` no socket is opened and no runnable is posted,
whatever the listeners are told and whichever runnables fire. -/
theorem disconnect_keeps_closed (start : SignalWebSocket) {events : List Event}
    {socket : SignalWebSocket}
    (noConnect : Meets step (fun _ event => event ≠ .connect) start.disconnect events)
    (reached : run step start.disconnect events = some socket) :
    Closed start.disconnect socket :=
  run_invariant_of_meets (fun _ _ _ => Closed.step)
    ⟨by simp [disconnect], rfl, rfl, List.Subset.refl _⟩ noConnect reached

/-- The callbacks of the second socket and of the first, which had failed before. -/
def lateCallbacks : List Event :=
  [.onOpen 1, .onClosing 1, .onClosed 1, .onFailure 0, .disconnect]

theorem disconnect_keeps_closed_failing :
    ∃ socket, run step ((initial.connect.onFailure 0).connect.disconnect) lateCallbacks =
      some socket ∧ socket.sockets.length = 2 ∧ socket.posted ⊆ [] :=
  have closed := @disconnect_keeps_closed (initial.connect.onFailure 0).connect lateCallbacks _
    (by decide) rfl
  ⟨_, rfl, closed.sockets, closed.posted⟩

end SignalWebSocket

end LegacySignal
