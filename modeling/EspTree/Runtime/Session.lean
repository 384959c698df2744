import EspTree.Lib.System
import EspTree.Runtime.Handshake

/-!
# Sessions of the runtime API

`BridgeApiProtoWsTransport` serves one client at a time.  Several threads share its fields under a mutex: the
server of the platform, which opens a session (`run_socket_session`), a task for each socket
(`run_socket_task`, `read_loop`, `handle_binary`), and the threads that send what has happened (`emit_*`, the
results of configurations): the main loop and any other.

An event here is what a thread does between two uses of the mutex, so that any order of events is an
interleaving of the threads.  In particular a frame is sent in two events, as in `send_frame`: the thread reads
`active_fd` (`Server.address`), and later the frame goes out on the socket that it has read (`Server.put`),
whatever has become of the session in between.  Only where a task reads a field that no other thread changes
meanwhile is that read joined to what the task does next; `session_kept` in `EspTree.Runtime.SessionRuns` says
that nothing can come between.

What the requests do is left out (`EspTree.Host` has the chunks of a file); `Server.log` records which are
served and what is sent to whom.  The session follows a protocol of its own (`Phase`), which
`EspTree.Runtime.SessionRuns` shows.
-/

namespace EspTree

open Wire

namespace Runtime

/-! ## State -/

/-- Where the task of a socket is. -/
inductive Stage
  /-- There is no task for the socket. -/
  | idle
  /-- `run_socket_session` has taken the session. -/
  | starting
  /-- Before `send_auth_challenge`. -/
  | challenge
  /-- Before `is_active_fd`. -/
  | loop
  /-- Before `read_frame`. -/
  | reading
  /-- Before `close_client`. -/
  | rejected
  /-- `verify_auth_response` has returned true. -/
  | accepting (requestId : Bytes) (response : ParsedAuthResponse)
  /-- `authenticated` is set. -/
  | accepted (requestId : Bytes)
  /-- A request is being served. -/
  | serving
  /-- Before `finish_session`. -/
  | ending

/-- Why something is sent. -/
inductive Kind
  | challenge
  | control
  | refusal
  | authOk
  | answer
  | event
  | configResult
  /-- The close frame that `close_client` sends once it has cleared the session. -/
  | farewell
  deriving DecidableEq

/-- A thread that sends: the task of a socket, or another one. -/
inductive Thread
  | task (fd : ℕ)
  | other (n : ℕ)
  deriving DecidableEq

/-- How far a thread is with a frame. -/
inductive Sending
  | idle
  /-- `has_authenticated_client` has returned true to an `emit_*`. -/
  | checked
  /-- `close_client` has cleared the session. -/
  | closing
  /-- `send_frame` has read `active_fd`. -/
  | addressed (fd : ℕ) (kind : Kind) (opcode : UInt8) (payload : Bytes)
  deriving DecidableEq

/-- What has happened. -/
inductive Entry
  | opened (fd : ℕ) (serverNonce : Octets 16)
  | verified (fd : ℕ) (response : ParsedAuthResponse)
  | served (fd : ℕ) (request : ParsedEnvelope)
  /-- `finish_session` has ended the session. -/
  | finished (fd : ℕ)
  /-- `close_client` has ended it. -/
  | dropped (fd : ℕ)
  | checked (t : Thread) (authenticated : Bool)
  | addressed (t : Thread) (fd : ℕ) (kind : Kind) (opcode : UInt8) (payload : Bytes)
  | sent (t : Thread) (fd : ℕ) (kind : Kind) (opcode : UInt8) (payload : Bytes)
  /-- `send_frame` has returned false. -/
  | unsent (t : Thread)

/-- The fields of `Impl` that a session depends on, where the threads are, and what has happened, the latest
first. -/
structure Server where
  connected : Bool := false
  authenticated : Bool := false
  activeFd : Option ℕ := none
  serverNonce : Octets 16 := Octets.zero 16
  stage : ℕ → Stage := fun _ => .idle
  sending : Thread → Sending := fun _ => .idle
  log : List Entry := []

/-- What happens, and what a thread is given then. -/
inductive Event
  | request (fd : ℕ) (serverNonce : Octets 16)
  | started (fd : ℕ)
  | startFailed (fd : ℕ)
  | challenge (fd : ℕ)
  | poll (fd : ℕ)
  /-- `select` has found nothing. -/
  | timeout (fd : ℕ)
  /-- `select` or `read_frame` has failed. -/
  | lost (fd : ℕ)
  | frame (fd : ℕ) (opcode : UInt8) (payload : Bytes)
  | close (fd : ℕ)
  | farewell (fd : ℕ)
  | accept (fd : ℕ)
  | welcome (fd : ℕ) (authOk : Bytes)
  | reply (fd : ℕ) (answer : Bytes)
  | served (fd : ℕ)
  | finish (fd : ℕ)
  | check (t : Thread)
  | emit (t : Thread) (payload : Bytes)
  | configResult (t : Thread) (payload : Bytes)
  /-- The frame of a thread goes out, or `send_exact` fails. -/
  | put (t : Thread) (delivered : Bool)

/-- The socket that an event is about, if it is not about a frame of any thread. -/
def Event.fd? : Event → Option ℕ
  | .request fd _ | .started fd | .startFailed fd | .challenge fd | .poll fd | .timeout fd | .lost fd
  | .frame fd _ _ | .close fd | .farewell fd | .accept fd | .welcome fd _ | .reply fd _ | .served fd
  | .finish fd => some fd
  | .check _ | .emit _ _ | .configResult _ _ | .put _ _ => none

/-! ## Envelopes -/

def errorEnvelope (requestId code message : Bytes) : Bytes :=
  envelope requestId 99 [.string 1 code, .string 2 message]

def authFailedEnvelope (requestId code message : Bytes) : Bytes :=
  envelope requestId 13 [.string 1 code, .string 2 message]

/-- `parse_envelope` and the test of the version in `handle_binary`. -/
def acceptEnvelope (payload : Bytes) : Option ParsedEnvelope :=
  match parseEnvelope payload (whole payload) with
  | .ok (true, env) => if env.apiVersion ≠ 0 ∧ env.apiVersion ≠ Host.apiVersion then none else some env
  | _ => none

/-- `parse_auth_response` on the message of an envelope. -/
def responseOf (payload : Bytes) (env : ParsedEnvelope) : Option ParsedAuthResponse :=
  match env.msgData with
  | none => none
  | some w =>
    match parseAuthResponse payload w with
    | .ok (true, response) => some response
    | _ => none

/-- `CONFIG_COMMAND_REQUEST`. -/
def configCommandField : ℕ := 19

/-- How many results of configurations are still to be sent: each request is answered once. -/
def owedResults : List Entry → ℕ
  | [] => 0
  | .served _ env :: log => if env.msgField = configCommandField then owedResults log + 1 else owedResults log
  | .addressed _ _ .configResult _ _ :: log => owedResults log - 1
  | _ :: log => owedResults log

namespace Server

variable (hmac : Bytes → Bytes → Octets 32) (apiKey bridgeMac : Bytes) (s : Server) (fd : ℕ)

/-! ## The functions -/

def hasAuthenticatedClient : Bool := s.connected && s.authenticated && s.activeFd.isSome

def isActiveFd : Bool := s.connected && s.activeFd == some fd

def setStage (stage : Stage) : Server := { s with stage := Function.update s.stage fd stage }

def note (entry : Entry) : Server := { s with log := entry :: s.log }

def setSending (t : Thread) (sending : Sending) : Server := { s with sending := Function.update s.sending t sending }

/-- `send_frame`, up to where it has read `active_fd`. -/
def address (t : Thread) (kind : Kind) (opcode : UInt8) (payload : Bytes) : Server :=
  match if s.connected then s.activeFd else none with
  | none => (s.setSending t .idle).note (.unsent t)
  | some fd => (s.setSending t (.addressed fd kind opcode payload)).note (.addressed t fd kind opcode payload)

/-- The rest of `send_frame`. -/
def put (t : Thread) (delivered : Bool) : Server :=
  match s.sending t with
  | .addressed fd kind opcode payload =>
    (s.setSending t .idle).note
      (if delivered ∧ (sendFrame opcode payload).isSome then .sent t fd kind opcode payload else .unsent t)
  | _ => s

def sendBinary (t : Thread) (kind : Kind) (payload : Bytes) : Server := s.address t kind 0x2 payload

/-- `close_client` on the task of a socket, up to where it has cleared the session. -/
def closeClient : Server :=
  match s.activeFd with
  | none => { s with connected := false, authenticated := false }
  | some active =>
    ({ s with connected := false, authenticated := false, activeFd := none }.setSending (.task fd) .closing).note
      (.dropped active)

def finishSession : Server :=
  if s.activeFd ≠ some fd then s
  else { s with connected := false, authenticated := false, activeFd := none }.note (.finished fd)

/-- `run_socket_session`, up to the answer to the client.  The task that it creates has sent nothing yet. -/
def runSocketSession (serverNonce : Octets 16) : Server :=
  if apiKey = [] then s
  else if s.connected then s
  else
    (({ s with connected := true, authenticated := false, activeFd := some fd, serverNonce }.setStage fd
      .starting).setSending (.task fd) .idle).note (.opened fd serverNonce)

/-- `handle_binary`, up to what it does under the mutex afterwards. -/
def handleBinary (payload : Bytes) : Server :=
  match acceptEnvelope payload with
  | none =>
    (s.sendBinary (.task fd) .refusal (errorEnvelope [] (ascii "invalid_envelope")
      (ascii "Invalid protobuf envelope"))).setStage fd .loop
  | some env =>
    if ¬ s.hasAuthenticatedClient then
      if env.msgField ≠ authResponseField then
        (s.sendBinary (.task fd) .refusal (authFailedEnvelope env.requestId (ascii "auth_required")
          (ascii "Authenticate before sending runtime requests"))).setStage fd .rejected
      else
        match (responseOf payload env).filter (verifyAuthResponse hmac apiKey s.serverNonce) with
        | none =>
          (s.sendBinary (.task fd) .refusal (authFailedEnvelope env.requestId (ascii "auth_failed")
            (ascii "Authentication failed"))).setStage fd .rejected
        | some response => s.setStage fd (.accepting env.requestId response)
    else (s.note (.served fd env)).setStage fd .serving

/-- The body of `read_loop` on a frame. -/
def readLoop (opcode : UInt8) (payload : Bytes) : Server :=
  if opcode = 0x8 then (s.address (.task fd) .control 0x8 payload).setStage fd .ending
  else if opcode = 0x9 then (s.address (.task fd) .control 0xA payload).setStage fd .loop
  else if opcode = 0x1 then
    (s.sendBinary (.task fd) .refusal (errorEnvelope [] (ascii "text_frames_unsupported")
      (ascii "Runtime API accepts binary protobuf frames only"))).setStage fd .ending
  else if opcode ≠ 0x2 then s.setStage fd .ending
  else s.handleBinary hmac apiKey fd payload

/-- The next step of `handle_binary` after `verify_auth_response`. -/
def accept : Server :=
  match s.stage fd with
  | .accepting requestId response =>
    ({ s with authenticated := true }.note (.verified fd response)).setStage fd (.accepted requestId)
  | _ => s

/-- What a thread does. -/
def step : Event → Server
  | .request fd serverNonce => s.runSocketSession apiKey fd serverNonce
  | .started fd => s.setStage fd .challenge
  | .startFailed fd => (s.finishSession fd).setStage fd .idle
  | .challenge fd =>
    (s.sendBinary (.task fd) .challenge (authChallenge s.serverNonce bridgeMac)).setStage fd .loop
  | .poll fd => s.setStage fd (if s.isActiveFd fd then .reading else .ending)
  | .timeout fd => s.setStage fd .loop
  | .lost fd => s.setStage fd .ending
  | .frame fd opcode payload => s.readLoop hmac apiKey fd opcode payload
  | .close fd => (s.closeClient fd).setStage fd .loop
  | .farewell fd => s.address (.task fd) .farewell 0x8 []
  | .accept fd => s.accept fd
  | .welcome fd authOk => (s.sendBinary (.task fd) .authOk authOk).setStage fd .loop
  | .reply fd answer => s.sendBinary (.task fd) .answer answer
  | .served fd => s.setStage fd .loop
  | .finish fd => (s.finishSession fd).setStage fd .idle
  | .check t =>
    (s.setSending t (if s.hasAuthenticatedClient then .checked else .idle)).note (.checked t s.hasAuthenticatedClient)
  | .emit t payload => s.sendBinary t .event payload
  | .configResult t payload => s.sendBinary t .configResult payload
  | .put t delivered => s.put t delivered

/-- The thread has no frame under way; a check that was not followed by a frame is no hindrance. -/
def Free (t : Thread) : Prop := s.sending t = .idle ∨ s.sending t = .checked

/-- The thread is where it does that: a socket that is open is not handed out again, and a result of a
configuration is that of a request. -/
def Can : Event → Prop
  | .request fd _ => s.stage fd = .idle
  | .started fd | .startFailed fd => s.stage fd = .starting
  | .challenge fd => s.stage fd = .challenge ∧ s.Free (.task fd)
  | .poll fd => s.stage fd = .loop ∧ s.Free (.task fd)
  | .timeout fd | .lost fd | .frame fd _ _ => s.stage fd = .reading ∧ s.Free (.task fd)
  | .close fd => s.stage fd = .rejected ∧ s.Free (.task fd)
  | .farewell fd => s.sending (.task fd) = .closing
  | .accept fd => ∃ requestId response, s.stage fd = .accepting requestId response
  | .welcome fd _ => (∃ requestId, s.stage fd = .accepted requestId) ∧ s.Free (.task fd)
  | .reply fd _ | .served fd => s.stage fd = .serving ∧ s.Free (.task fd)
  | .finish fd => s.stage fd = .ending ∧ s.Free (.task fd)
  | .check t => s.Free t
  | .emit t _ => s.sending t = .checked
  | .configResult t _ => 0 < owedResults s.log ∧ s.Free t
  | .put t _ => ∃ fd kind opcode payload, s.sending t = .addressed fd kind opcode payload

/-- The states of every interleaving. -/
abbrev Reachable : Server → Prop :=
  Transition.Reachable (· = {}) Can (step hmac apiKey bridgeMac)

end Server

end Runtime

end EspTree
