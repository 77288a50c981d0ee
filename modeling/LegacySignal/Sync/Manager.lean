import LegacySignal.Sync.WebSocket

/-!
# The background sync manager

`BackgroundSyncManager` owns the client whose socket receives envelopes. A
start after a stop builds a new client; the client before it keeps its object
and its socket, which may go on delivering for a while, so all clients ever
built are kept in the state.
-/

namespace LegacySignal

/-- A `SignalClient`: whether `onMessageReceived` is set, and its socket. -/
structure SignalClient where
  onMessageReceived : Bool
  webSocket : SignalWebSocket
deriving DecidableEq, Repr

structure SyncManager where
  isRunning : Bool
  /-- The field `client`, as an index into `clients`. -/
  client : Option ℕ
  clients : List SignalClient
  connectionState : ConnectionState
deriving DecidableEq, Repr

namespace SyncManager

def initial : SyncManager where
  isRunning := false
  client := none
  clients := []
  connectionState := .disconnected

/-- `client.connect()`, whose socket reports `CONNECTING` to the manager. -/
def connectClient (manager : SyncManager) (index : ℕ) : SyncManager :=
  { manager with
    clients := manager.clients.modify index fun client =>
      { client with webSocket := client.webSocket.connect }
    connectionState := .connecting }

/-- `BackgroundSyncManager.start`; `credentials` says whether both can be read. -/
def start (manager : SyncManager) (credentials : Bool) : SyncManager :=
  if credentials then
    match manager.isRunning, manager.client with
    | true, some index =>
      if manager.connectionState = .disconnected then manager.connectClient index else manager
    | _, _ =>
      let index := manager.clients.length
      let built : SyncManager := { manager with
        client := some index
        clients := manager.clients ++
          [{ onMessageReceived := true, webSocket := SignalWebSocket.initial }] }
      { built.connectClient index with isRunning := true }
  else manager

/-- A change of the object in the field `client`. -/
def onClient (manager : SyncManager) (change : SignalClient → SignalClient) : SyncManager :=
  match manager.client with
  | none => manager
  | some index => { manager with clients := manager.clients.modify index change }

/-- The first half of `stop`: the callback is cleared while the socket is open. -/
def clearCallback (manager : SyncManager) : SyncManager :=
  manager.onClient fun client => { client with onMessageReceived := false }

/-- The second half of `stop`. -/
def disconnect (manager : SyncManager) : SyncManager :=
  { manager.onClient fun client => { client with webSocket := client.webSocket.disconnect } with
    isRunning := false
    connectionState := .disconnected }

def stop (manager : SyncManager) : SyncManager :=
  if manager.isRunning then manager.clearCallback.disconnect else manager

theorem start_isRunning (manager : SyncManager) (credentials : Bool) :
    (manager.start credentials).isRunning = (manager.isRunning || credentials) := by
  unfold start
  cases credentials with
  | false => simp
  | true =>
    simp only [if_true, Bool.or_true]
    split
    · rename_i running _
      split
      · simpa [connectClient] using running
      · exact running
    · rfl

@[simp]
theorem stop_isRunning (manager : SyncManager) : manager.stop.isRunning = false := by
  unfold stop
  split
  · rfl
  · rename_i stopped
    simpa using stopped

/-- A client without its callback has no socket, but while `stop` is between its two halves. -/
def Guarded (stopping : Bool) (manager : SyncManager) : Prop :=
  ∀ index client, manager.clients[index]? = some client → client.onMessageReceived = false →
    if manager.isRunning = true ∧ manager.client = some index then stopping = true
    else client.webSocket.webSocket = none

variable {manager : SyncManager} {clients : List SignalClient} {index current : ℕ}
  {client : SignalClient} {change : SignalClient → SignalClient}

theorem of_modify (found : (clients.modify current change)[index]? = some client) :
    ∃ before, clients[index]? = some before ∧
      client = if current = index then change before else before := by
  rw [List.getElem?_modify] at found
  obtain ⟨before, isBefore, rfl⟩ := Option.map_eq_some_iff.mp found
  exact ⟨before, isBefore, rfl⟩

theorem guarded_start (guarded : manager.Guarded false) (credentials : Bool) :
    (manager.start credentials).Guarded false := by
  unfold start
  split
  · split
    · rename_i current running isCurrent
      split
      · intro index client found cleared
        obtain ⟨before, isBefore, rfl⟩ := of_modify found
        by_cases same : current = index
        · -- The client that is connected again has its callback.
          subst same
          have := guarded current before isBefore (by simpa using cleared)
          simp [running, isCurrent] at this
        · simp only [same, if_false] at cleared ⊢
          exact guarded index before isBefore cleared
      · exact guarded
    · rename_i other
      intro index client found cleared
      obtain ⟨before, isBefore, rfl⟩ := of_modify found
      rw [List.getElem?_append] at isBefore
      split at isBefore
      · rename_i old
        have apart := Nat.ne_of_gt old
        simp only [apart, if_false] at cleared ⊢
        have := guarded index before isBefore cleared
        rw [if_neg fun both => other index both.1 both.2] at this
        simpa [connectClient, apart] using this
      · rw [List.mem_singleton.mp (List.mem_of_getElem? isBefore)] at cleared
        split at cleared <;> cases cleared
  · exact guarded

theorem guarded_clearCallback (guarded : manager.Guarded false)
    (running : manager.isRunning = true) : manager.clearCallback.Guarded true := by
  intro index client found cleared
  unfold clearCallback onClient at found ⊢
  split
  · rename_i missing
    simp only [missing] at found
    have := guarded index client found cleared
    simpa [missing] using this
  · rename_i current isCurrent
    simp only [isCurrent] at found
    obtain ⟨before, isBefore, rfl⟩ := of_modify found
    by_cases same : current = index
    · simp [running, same, isCurrent]
    · simp only [same, if_false] at cleared ⊢
      have := guarded index before isBefore cleared
      simpa [isCurrent, same] using this

theorem guarded_disconnect (guarded : manager.Guarded true) :
    manager.disconnect.Guarded false := by
  intro index client found cleared
  simp only [disconnect, onClient, Bool.false_eq_true, false_and, if_false] at found ⊢
  split at found
  · rename_i missing
    have := guarded index client found cleared
    simpa [missing] using this
  · rename_i current isCurrent
    obtain ⟨before, isBefore, rfl⟩ := of_modify found
    by_cases same : current = index
    · simp [same, SignalWebSocket.disconnect]
    · simp only [same, if_false] at cleared ⊢
      have := guarded index before isBefore cleared
      simpa [isCurrent, same] using this

end SyncManager

end LegacySignal
