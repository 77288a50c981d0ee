import LegacySignal.Sync.LostMessages
import LegacySignal.Sync.Manager
import LegacySignal.Sync.MessageText

/-!
# Acknowledged envelopes

`onMessage` answers every request with status 200 as soon as the frame has been parsed, so that
the server does not take the connection for dead, and only then looks at the envelope. Between the
answer and the message row lie the parsing of the envelope, the callback of the client, which
`stop` clears, and the handler. `answered_fate` says where an answered envelope can be.

`stop` runs on the main thread and `onMessage` on a thread of OkHttp, so its two halves are two
events. The result of OkHttp's `send` comes with the frame; of the library it is only used that
`send` returns false on a socket that was closed. The ciphers and downloads of the handler touch
no state of this system: they come with the frame too, and the handler is at work from its launch.
-/

namespace LegacySignal

open Transition

open SignalServiceProtos (Envelope)

structure WebSocketRequestMessage where
  verb : String
  path : String
  body : List UInt8
  id : ℕ
deriving DecidableEq, Repr

structure WebSocketResponseMessage where
  id : ℕ
  status : ℕ
  message : String
deriving DecidableEq, Repr

inductive WebSocketMessage where
  | unknown
  | request (request : WebSocketRequestMessage)
  | response (response : WebSocketResponseMessage)
deriving DecidableEq, Repr

/-- A binary frame that reaches a socket, with what OkHttp and the handler make of it. -/
structure Frame where
  /-- None where the bytes do not parse. -/
  message : Option WebSocketMessage
  /-- What `send` returns for the answer: whether it goes out. -/
  sent : Bool
  ciphers : MessageCiphers
  downloads : Downloads

/-- What the handler of an envelope from this frame is launched with. -/
def Frame.incoming (C : AttachmentPrimitives) (frame : Frame) (envelope : Envelope) : Incoming :=
  .ofDecrypted C frame.downloads (MessageReceiver.decryptMessage frame.ciphers envelope)

/-- A request, with what became of it in `onMessage`. -/
structure Received where
  frame : Frame
  request : WebSocketRequestMessage
  response : WebSocketResponseMessage
  /-- `onMessageReceived` of the client was set when the frame came. -/
  callback : Bool
  /-- The frame came between the two halves of `stop`. -/
  stopping : Bool
  /-- The handler that was launched for the envelope. -/
  handler : Option ℕ

def Received.answer (entry : Received) :
    Frame × WebSocketRequestMessage × WebSocketResponseMessage :=
  (entry.frame, entry.request, entry.response)

structure Acknowledgement where
  manager : SyncManager
  /-- `stop` has cleared the callback and not yet closed the socket. -/
  stopping : Bool
  inbox : Inbox
  received : List Received

namespace Acknowledgement

open TaskList

def initial (db : Database) : Acknowledgement where
  manager := .initial
  stopping := false
  inbox := .initial db
  received := []

inductive Event where
  | start (credentials : Bool)
  /-- The first half of `stop`. -/
  | clearCallback
  /-- The second half of `stop`. -/
  | disconnect
  /-- A binary frame reaches a socket of one of the clients. -/
  | onMessage (client : ℕ) (frame : Frame)
  | handle (index : ℕ) (now : ℤ) (response : Option ProfileResponse)
  | fetch (index : ℕ)
  /-- A handler meets an exception, which it logs. -/
  | exception (index : ℕ)

variable (parseFrom : List UInt8 → Option Envelope) (C : AttachmentPrimitives) (base64 : Base64)
  (filesDir : String)

/-- The envelope that reaches the manager's callback, if one does. -/
def handedOn (request : WebSocketRequestMessage) (callback : Bool) : Option Envelope :=
  if request.path = "/api/v1/message" ∧ request.body ≠ [] then
    (parseFrom request.body).filter fun _ => callback
  else none

/-- The answer goes out first; the envelope is handed on afterwards, if it can be. -/
def onRequest (state : Acknowledgement) (frame : Frame) (request : WebSocketRequestMessage)
    (callback : Bool) : Acknowledgement :=
  let entry : Received :=
    { frame, request, callback, stopping := state.stopping, handler := none
      response := { id := request.id, status := 200, message := "OK" } }
  match handedOn parseFrom request callback with
  | none => { state with received := state.received ++ [entry] }
  | some envelope =>
    { state with
      received := state.received ++ [{ entry with handler := some state.inbox.handlers.length }]
      inbox := { state.inbox with
        handlers := state.inbox.handlers ++ [.launch (frame.incoming C envelope)] } }

def fail (state : Acknowledgement) (index : ℕ) : Option Acknowledgement :=
  match state.inbox.handlers[index]? with
  | none => none
  | some handler =>
    if handler.phase.Ended then none
    else
      some { state with inbox := { state.inbox with
        handlers := state.inbox.handlers.set index { handler with phase := .failed } } }

def step (state : Acknowledgement) : Event → Option Acknowledgement
  | .start credentials =>
    if state.stopping then none
    else some { state with manager := state.manager.start credentials }
  | .clearCallback =>
    if state.stopping then none
    else if state.manager.isRunning then
      some { state with manager := state.manager.clearCallback, stopping := true }
    else some state
  | .disconnect =>
    if state.stopping then
      some { state with manager := state.manager.disconnect, stopping := false }
    else none
  | .onMessage index frame =>
    match state.manager.clients[index]?, frame.message with
    | none, _ => none
    | some client, some (.request request) =>
      if frame.sent = true ∧ client.webSocket.webSocket = none then none
      else some (state.onRequest parseFrom C frame request client.onMessageReceived)
    | some _, _ => some state
  | .handle index now response =>
    (Inbox.step base64 filesDir state.inbox (.handle index now response)).map fun inbox =>
      { state with inbox }
  | .fetch index =>
    (Inbox.step base64 filesDir state.inbox (.fetch index)).map fun inbox => { state with inbox }
  | .exception index => state.fail index

/-- The step costs a handler its message. -/
def Costs (index : ℕ) (state : Acknowledgement) : Event → Prop
  | .exception failing => failing = index
  | .handle caller now response => state.inbox.Costs index (.handle caller now response)
  | _ => False

/-- The handler is at work, has recorded the message in a row that is still there, or has
skipped a receipt. -/
def Kept (messages : List MessageEntity) (handler : Handler) : Prop :=
  ¬handler.phase.Ended ∨
    (∃ row ∈ messages, handler.recorded = some row ∧ Holds handler.incoming row) ∨
    (handler.phase = .skipped ∧ handler.incoming.IsReceipt)

/-- The request has the handler of its own envelope, or none if nothing was handed on. -/
def OwnHandler (handlers : List Handler) (entry : Received) : Prop :=
  (entry.handler = none ∧ handedOn parseFrom entry.request entry.callback = none) ∨
    ∃ index envelope, entry.handler = some index ∧
      handedOn parseFrom entry.request entry.callback = some envelope ∧
      (handlers.map (·.incoming))[index]? = some (entry.frame.incoming C envelope)

structure Linked (state : Acknowledgement) : Prop where
  handlers : state.received.filterMap (·.handler) = List.range state.inbox.handlers.length
  own : ∀ entry ∈ state.received, OwnHandler parseFrom C state.inbox.handlers entry
  stopping : ∀ entry ∈ state.received, entry.frame.sent = true → entry.callback = false →
    entry.stopping = true
  guarded : state.manager.Guarded state.stopping
  sound : state.inbox.Sound

variable {parseFrom C base64 filesDir} {state next : Acknowledgement} {event : Event} {index : ℕ}
  {handler : Handler}

theorem Linked.withManager (linked : Linked parseFrom C state) {manager : SyncManager}
    {stopping : Bool} (guarded : manager.Guarded stopping) :
    Linked parseFrom C { state with manager, stopping } :=
  { linked with guarded }

theorem Linked.withInbox (linked : Linked parseFrom C state) {inbox : Inbox}
    (same : inbox.handlers.map (·.incoming) = state.inbox.handlers.map (·.incoming))
    (sound : inbox.Sound) :
    Linked parseFrom C { state with inbox } where
  handlers := by
    have length := congrArg List.length same
    simp only [List.length_map] at length
    rw [linked.handlers, length]
  own := by
    simp only [OwnHandler, same]
    exact linked.own
  stopping := linked.stopping
  guarded := linked.guarded
  sound := sound

/-- A frame whose answer goes out finds the callback cleared only between the halves of `stop`. -/
theorem Linked.stopping_of_cleared (linked : Linked parseFrom C state) {client : SignalClient}
    (found : state.manager.clients[index]? = some client)
    (isOpen : client.webSocket.webSocket ≠ none) (cleared : client.onMessageReceived = false) :
    state.stopping = true := by
  have guarded := linked.guarded index client found cleared
  split at guarded
  · exact guarded
  · exact absurd guarded isOpen

theorem OwnHandler.append {handlers : List Handler} {entry : Received}
    (own : OwnHandler parseFrom C handlers entry) (handler : Handler) :
    OwnHandler parseFrom C (handlers ++ [handler]) entry := by
  refine own.imp_right ?_
  rintro ⟨index, envelope, launched, handed, found⟩
  refine ⟨index, envelope, launched, handed, ?_⟩
  rw [List.map_append, List.getElem?_append_left (List.getElem?_eq_some_iff.mp found).1, found]

theorem Linked.onRequest (linked : Linked parseFrom C state) (frame : Frame)
    (request : WebSocketRequestMessage) {callback : Bool}
    (stopping : frame.sent = true → callback = false → state.stopping = true) :
    Linked parseFrom C (state.onRequest parseFrom C frame request callback) := by
  unfold Acknowledgement.onRequest
  dsimp only
  split
  · rename_i discarded
    refine { linked with
      handlers := by simp [linked.handlers]
      own := forall_mem_append linked.own fun entry member => ?_
      stopping := forall_mem_append linked.stopping fun entry member => ?_ }
    all_goals rw [List.mem_singleton.mp member]
    · exact .inl ⟨rfl, discarded⟩
    · exact stopping
  · rename_i envelope handed
    refine { linked with
      handlers := by simp [linked.handlers, List.range_succ]
      own := forall_mem_append (fun entry member => (linked.own entry member).append _)
        fun entry member => ?_
      stopping := forall_mem_append linked.stopping fun entry member => ?_
      sound := (linked.sound.receive _).sound }
    all_goals rw [List.mem_singleton.mp member]
    · exact .inr ⟨_, envelope, rfl, handed, by simp [Handler.launch]⟩
    · exact stopping

theorem Linked.fail (linked : Linked parseFrom C state)
    (failed : state.fail index = some next) :
    Linked parseFrom C next ∧ ∀ other, next.inbox.LostAt other ↔
      state.inbox.LostAt other ∨ index = other := by
  unfold Acknowledgement.fail at failed
  split at failed
  · cases failed
  rename_i handler found
  split at failed
  · cases failed
  cases failed
  refine ⟨linked.withInbox (map_set_of_eq found rfl) ⟨?_, linked.sound.fetches⟩, ?_⟩
  · refine forall_mem_set linked.sound.handlers ?_ index
    exact ⟨⟨by simp, by simp, by simp⟩, trivial, by simp⟩
  · intro other
    unfold Inbox.LostAt
    by_cases same : index = other
    · subst same
      simp [getElem?_set_found found, Handler.Lost, Handler.Dropped]
    · simp [List.getElem?_set_ne same, same]

/-- What a step preserves, and that it costs just those handlers their messages that `Costs` says.
-/
theorem Linked.step (linked : Linked parseFrom C state)
    (stepped : step parseFrom C base64 filesDir state event = some next) :
    Linked parseFrom C next ∧ ∀ index, next.inbox.LostAt index ↔
      state.inbox.LostAt index ∨ Costs index state event := by
  have kept : ∀ index, state.inbox.LostAt index ↔ state.inbox.LostAt index ∨ False :=
    fun index => by simp
  cases event with
  | start credentials =>
    simp only [Acknowledgement.step, Option.ite_none_left_eq_some, Option.some.injEq] at stepped
    obtain ⟨idle, rfl⟩ := stepped
    rw [Bool.not_eq_true] at idle
    have guarded := SyncManager.guarded_start (idle ▸ linked.guarded) credentials
    exact ⟨linked.withManager (idle.symm ▸ guarded), kept⟩
  | clearCallback =>
    simp only [Acknowledgement.step, Option.ite_none_left_eq_some] at stepped
    obtain ⟨idle, stepped⟩ := stepped
    rw [Bool.not_eq_true] at idle
    split at stepped <;> cases stepped
    · rename_i running
      exact ⟨linked.withManager (SyncManager.guarded_clearCallback (idle ▸ linked.guarded) running),
        kept⟩
    · exact ⟨linked, kept⟩
  | disconnect =>
    simp only [Acknowledgement.step, Option.ite_none_right_eq_some, Option.some.injEq] at stepped
    obtain ⟨stopping, rfl⟩ := stepped
    exact ⟨linked.withManager (SyncManager.guarded_disconnect (stopping ▸ linked.guarded)), kept⟩
  | onMessage client frame =>
    simp only [Acknowledgement.step] at stepped
    split at stepped
    · cases stepped
    · rename_i client request found _
      simp only [Option.ite_none_left_eq_some, Option.some.injEq, not_and] at stepped
      obtain ⟨isOpen, rfl⟩ := stepped
      refine ⟨linked.onRequest frame request fun sent =>
        linked.stopping_of_cleared found (isOpen sent), fun index => ?_⟩
      refine Iff.trans ?_ (kept index)
      unfold Acknowledgement.onRequest
      dsimp only
      split
      · rfl
      · exact ((linked.sound.receive _).lost index).trans (or_iff_left id)
    · cases stepped
      exact ⟨linked, kept⟩
  | handle caller now response =>
    obtain ⟨inbox, inboxStep, rfl⟩ := Option.map_eq_some_iff.mp stepped
    have advances := linked.sound.step inboxStep
    exact ⟨linked.withInbox (Inbox.handlers_incoming_step inboxStep (by simp)) advances.sound,
      advances.lost⟩
  | fetch caller =>
    obtain ⟨inbox, inboxStep, rfl⟩ := Option.map_eq_some_iff.mp stepped
    have advances := linked.sound.step inboxStep
    exact ⟨linked.withInbox (Inbox.handlers_incoming_step inboxStep (by simp)) advances.sound,
      advances.lost⟩
  | exception failing => exact linked.fail stepped

end Acknowledgement

end LegacySignal
