import EspTree.Runtime.SessionLog

/-!
# Hosts at the runtime API

The runs of a host, event by event: it opens a session, answers the challenge, is verified or turned away, and
leaves.  Each piece is described from any state in which it can start, so that the pieces make up longer runs,
such as the three sessions of `Replay`.

The results are about every interleaving:

* `log_legal`: what happens is a sequence of sessions, and little is left over from one to the next;
* `accepted_once`: no answer to a challenge counts twice;
* `handshake_completes`: a host with the right key gets in, and the session is free again after any other.
-/

namespace EspTree

open Wire

namespace Runtime

/-! ## A host gets in -/

section

variable (hmac : Bytes → Bytes → Octets 32) {apiKey bridgeMac : Bytes} {s : Server} (fd : ℕ)
  (serverNonce : Octets 16)

/-- A client comes, and the bridge waits for its first frame. -/
def opening : List Event :=
  [.request fd serverNonce, .started fd, .challenge fd, .put (.task fd) true, .poll fd]

/-- The bridge at the end of it. -/
def Server.opened (s : Server) (bridgeMac : Bytes) (fd : ℕ) (serverNonce : Octets 16) : Server where
  connected := true
  authenticated := false
  activeFd := some fd
  serverNonce
  stage := Function.update s.stage fd .reading
  sending := Function.update s.sending (.task fd) .idle
  log := .sent (.task fd) fd .challenge 0x2 (authChallenge serverNonce bridgeMac) ::
    .addressed (.task fd) fd .challenge 0x2 (authChallenge serverNonce bridgeMac) :: .opened fd serverNonce :: s.log

theorem stage_setStage (s : Server) (fd : ℕ) (stage : Stage) : (s.setStage fd stage).stage fd = stage := by
  change Function.update s.stage fd stage fd = stage
  rw [Function.update_self]

theorem sending_setSending (s : Server) (t : Thread) (sending : Sending) :
    (s.setSending t sending).sending t = sending := by
  change Function.update s.sending t sending t = sending
  rw [Function.update_self]

/-- What becomes of a frame on a socket that takes it. -/
def outcome (t : Thread) (fd : ℕ) (kind : Kind) (opcode : UInt8) (payload : Bytes) : Entry :=
  if (sendFrame opcode payload).isSome then .sent t fd kind opcode payload else .unsent t

theorem outcome_cases (t : Thread) (fd : ℕ) (kind : Kind) (opcode : UInt8) (payload : Bytes) :
    outcome t fd kind opcode payload = .sent t fd kind opcode payload ∨
      outcome t fd kind opcode payload = .unsent t := by
  unfold outcome
  split_ifs
  · exact .inl rfl
  · exact .inr rfl

/-- The state when a thread has read `active_fd` and its frame has gone out. -/
def Server.delivered (s : Server) (t : Thread) (fd : ℕ) (kind : Kind) (opcode : UInt8) (payload : Bytes) : Server :=
  { s with
    sending := Function.update s.sending t .idle
    log := outcome t fd kind opcode payload :: .addressed t fd kind opcode payload :: s.log }

variable {fd} in
theorem address_eq {t : Thread} {kind : Kind} {opcode : UInt8} {payload : Bytes} (hconnected : s.connected = true)
    (hfd : s.activeFd = some fd) :
    s.address t kind opcode payload =
      (s.setSending t (.addressed fd kind opcode payload)).note (.addressed t fd kind opcode payload) := by
  unfold Server.address
  rw [hconnected, if_pos rfl, hfd]

/-- `send_frame` from the read of `active_fd` until the frame is out. -/
theorem put_address {t : Thread} {kind : Kind} {opcode : UInt8} {payload : Bytes} (hconnected : s.connected = true)
    (hfd : s.activeFd = some fd) :
    (s.address t kind opcode payload).put t true = s.delivered t fd kind opcode payload := by
  rw [address_eq hconnected hfd]
  unfold Server.put
  have hsending : ((s.setSending t (.addressed fd kind opcode payload)).note
      (.addressed t fd kind opcode payload)).sending t = .addressed fd kind opcode payload :=
    sending_setSending s t _
  rw [hsending]
  unfold Server.delivered Server.note Server.setSending outcome
  simp only [Function.update_idem, true_and]

theorem put_setStage (s : Server) (fd : ℕ) (stage : Stage) (t : Thread) (delivered : Bool) :
    (s.setStage fd stage).put t delivered = (s.put t delivered).setStage fd stage := by
  unfold Server.put Server.setStage
  dsimp only
  cases s.sending t <;> rfl

/-- The same for a task that goes on to another stage. -/
theorem put_address_setStage {t : Thread} {kind : Kind} {opcode : UInt8} {payload : Bytes}
    (hconnected : s.connected = true) (hfd : s.activeFd = some fd) (stage : Stage) :
    ((s.address t kind opcode payload).setStage fd stage).put t true =
      (s.delivered t fd kind opcode payload).setStage fd stage := by
  rw [put_setStage, put_address fd hconnected hfd]

theorem can_put_address {t : Thread} {kind : Kind} {opcode : UInt8} {payload : Bytes}
    (hconnected : s.connected = true) (hfd : s.activeFd = some fd) (stage : Stage) :
    ((s.address t kind opcode payload).setStage fd stage).Can (.put t true) := by
  rw [address_eq hconnected hfd]
  exact ⟨fd, kind, opcode, payload, sending_setSending s t _⟩

theorem sendFrame_isSome (opcode : Fin 16) {payload : Bytes} (h : payload.length < 2 ^ 16) :
    (sendFrame (UInt8.ofNat opcode) payload).isSome = true := by
  rw [sendFrame_eq, if_pos h]
  rfl

theorem runSocketSession_eq (hkey : apiKey ≠ []) (hfree : s.connected = false) :
    s.runSocketSession apiKey fd serverNonce =
      (({ s with connected := true, authenticated := false, activeFd := some fd, serverNonce }.setStage fd
        .starting).setSending (.task fd) .idle).note (.opened fd serverNonce) := by
  unfold Server.runSocketSession
  rw [if_neg hkey, if_neg (Bool.eq_false_iff.mp hfree)]

variable (apiKey bridgeMac) in
theorem runFrom_opening (hkey : apiKey ≠ []) (hfree : s.connected = false) (hidle : s.stage fd = .idle)
    (hbridge : bridgeMac.length ≤ 1000) :
    Transition.Admits Server.Can (Server.step hmac apiKey bridgeMac) s (opening fd serverNonce) ∧
      Transition.runFrom (Server.step hmac apiKey bridgeMac) s (opening fd serverNonce) =
        s.opened bridgeMac fd serverNonce := by
  have hfits : (sendFrame 0x2 (authChallenge serverNonce bridgeMac)).isSome = true :=
    sendFrame_isSome 2 (length_authChallenge_lt hbridge)
  have hstarted := runSocketSession_eq fd serverNonce hkey hfree
  generalize ht : (s.runSocketSession apiKey fd serverNonce).setStage fd .challenge = t
  have hconnected : t.connected = true := by rw [← ht, hstarted]; rfl
  have hfd : t.activeFd = some fd := by rw [← ht, hstarted]; rfl
  have hnonce : t.serverNonce = serverNonce := by rw [← ht, hstarted]; rfl
  have hchallenge : t.step hmac apiKey bridgeMac (.challenge fd) =
      (t.address (.task fd) .challenge 0x2 (authChallenge serverNonce bridgeMac)).setStage fd .loop := by
    rw [← hnonce]
    rfl
  have hput : (t.step hmac apiKey bridgeMac (.challenge fd)).step hmac apiKey bridgeMac (.put (.task fd) true) =
      (t.delivered (.task fd) fd .challenge 0x2 (authChallenge serverNonce bridgeMac)).setStage fd .loop := by
    rw [hchallenge]
    exact put_address_setStage fd hconnected hfd .loop
  have hpoll : ((t.delivered (.task fd) fd .challenge 0x2 (authChallenge serverNonce bridgeMac)).setStage fd
      .loop).step hmac apiKey bridgeMac (.poll fd) = s.opened bridgeMac fd serverNonce := by
    have hactive : Server.isActiveFd ((t.delivered (.task fd) fd .challenge 0x2
        (authChallenge serverNonce bridgeMac)).setStage fd .loop) fd = true := by
      change (t.connected && t.activeFd == some fd) = true
      rw [hconnected, hfd, beq_self_eq_true]
      rfl
    change Server.setStage _ fd (if _ then _ else _) = _
    rw [hactive, if_pos rfl, ← ht, hstarted]
    unfold Server.opened Server.delivered Server.setStage Server.setSending Server.note outcome
    simp only [Function.update_idem, hfits, if_true]
  constructor
  · refine ⟨hidle, ?_, ⟨stage_setStage _ fd .challenge, .inl ?_⟩, ?_, ⟨?_, .inl ?_⟩, trivial⟩
    · change (s.runSocketSession apiKey fd serverNonce).stage fd = .starting
      rw [hstarted]
      exact stage_setStage _ fd .starting
    · change (s.runSocketSession apiKey fd serverNonce).sending (.task fd) = .idle
      rw [hstarted]
      exact sending_setSending _ _ _
    · change (((s.runSocketSession apiKey fd serverNonce).setStage fd .challenge).step hmac apiKey bridgeMac
        (.challenge fd)).Can _
      rw [ht, hchallenge]
      exact can_put_address fd hconnected hfd .loop
    · change ((((s.runSocketSession apiKey fd serverNonce).setStage fd .challenge).step hmac apiKey bridgeMac
        (.challenge fd)).step hmac apiKey bridgeMac (.put (.task fd) true)).stage fd = .loop
      rw [ht, hput]
      exact stage_setStage _ fd .loop
    · change ((((s.runSocketSession apiKey fd serverNonce).setStage fd .challenge).step hmac apiKey bridgeMac
        (.challenge fd)).step hmac apiKey bridgeMac (.put (.task fd) true)).sending (.task fd) = .idle
      rw [ht, hput]
      exact sending_setSending t (.task fd) .idle
  · change ((((s.runSocketSession apiKey fd serverNonce).setStage fd .challenge).step hmac apiKey bridgeMac
      (.challenge fd)).step hmac apiKey bridgeMac (.put (.task fd) true)).step hmac apiKey bridgeMac (.poll fd) = _
    rw [ht, hput, hpoll]

/-! ### The first frame of the host -/

section

variable (hostKey : Bytes) {name requestId : Bytes} (clientNonce hostNonce : Octets 16)

/-- The refusal of an answer that is not accepted. -/
def refusal (requestId : Bytes) : Bytes :=
  authFailedEnvelope requestId (ascii "auth_failed") (ascii "Authentication failed")

variable (apiKey bridgeMac) in
/-- An answer that was made for a challenge with `hostNonce` comes in while nobody is verified. -/
theorem step_frame_hostResponse (hname : name.length ≤ 1000) (hid : requestId.length ≤ 1000)
    (hnobody : s.hasAuthenticatedClient = false) :
    s.step hmac apiKey bridgeMac
        (.frame fd 0x2 ((hostResponse hmac hostKey name clientNonce hostNonce).envelope requestId)) =
      if verifyAuthResponse hmac apiKey s.serverNonce (read (hostResponse hmac hostKey name clientNonce hostNonce)) then
        s.setStage fd (.accepting requestId (read (hostResponse hmac hostKey name clientNonce hostNonce)))
      else (s.address (.task fd) .refusal 0x2 (refusal requestId)).setStage fd .rejected := by
  obtain ⟨w, henv, hresponse⟩ := parse_hostResponse (Nat.lt_of_le_of_lt hname (by decide))
    (Nat.lt_of_le_of_lt hid (by decide))
    (rfl : _ = (hostResponse hmac hostKey name clientNonce hostNonce).envelope requestId)
  have haccept : acceptEnvelope ((hostResponse hmac hostKey name clientNonce hostNonce).envelope requestId) =
      some ⟨requestId, Host.apiVersion, authResponseField, some w⟩ := by
    unfold acceptEnvelope
    rw [henv]
    rfl
  have hread : responseOf ((hostResponse hmac hostKey name clientNonce hostNonce).envelope requestId)
      ⟨requestId, Host.apiVersion, authResponseField, some w⟩ =
      some (read (hostResponse hmac hostKey name clientNonce hostNonce)) := by
    unfold responseOf
    dsimp only
    rw [hresponse]
  change s.handleBinary hmac apiKey fd _ = _
  unfold Server.handleBinary
  rw [haccept]
  dsimp only
  rw [hnobody, if_pos Bool.false_ne_true, if_neg (not_not_intro rfl), hread, Option.filter_some]
  cases verifyAuthResponse hmac apiKey s.serverNonce (read (hostResponse hmac hostKey name clientNonce hostNonce)) <;>
    rfl

/-- The bridge when it has verified an answer. -/
def Server.verified (s : Server) (fd : ℕ) (requestId : Bytes) (response : ParsedAuthResponse) : Server :=
  { s with
    authenticated := true
    stage := Function.update s.stage fd (.accepted requestId)
    log := .verified fd response :: s.log }

variable (apiKey bridgeMac) in
theorem runFrom_verified (hname : name.length ≤ 1000) (hid : requestId.length ≤ 1000)
    (hnobody : s.hasAuthenticatedClient = false) (hreading : s.stage fd = .reading) (hready : s.Free (.task fd))
    (haccepted : verifyAuthResponse hmac apiKey s.serverNonce
      (read (hostResponse hmac hostKey name clientNonce hostNonce)) = true) :
    let response := hostResponse hmac hostKey name clientNonce hostNonce
    let events := [.frame fd 0x2 (response.envelope requestId), .accept fd]
    Transition.Admits Server.Can (Server.step hmac apiKey bridgeMac) s events ∧
      Transition.runFrom (Server.step hmac apiKey bridgeMac) s events = s.verified fd requestId (read response) := by
  have hframe := step_frame_hostResponse hmac apiKey bridgeMac fd hostKey clientNonce hostNonce hname hid hnobody
  rw [if_pos haccepted] at hframe
  dsimp only [Transition.Admits, Transition.runFrom]
  rw [hframe]
  refine ⟨⟨⟨hreading, hready⟩, ⟨_, _, stage_setStage _ _ _⟩, trivial⟩, ?_⟩
  change Server.accept _ fd = _
  unfold Server.accept
  rw [stage_setStage]
  dsimp only
  unfold Server.verified Server.setStage Server.note
  simp only [Function.update_idem]

/-- The bridge when it has turned a client away. -/
def Server.turnedAway (s : Server) (fd : ℕ) (requestId : Bytes) : Server :=
  { s with
    connected := false
    authenticated := false
    activeFd := none
    stage := Function.update s.stage fd .idle
    sending := Function.update s.sending (.task fd) .idle
    log := .unsent (.task fd) :: .dropped fd :: outcome (.task fd) fd .refusal 0x2 (refusal requestId) ::
      .addressed (.task fd) fd .refusal 0x2 (refusal requestId) :: s.log }

/-- What the bridge does about an answer that it does not accept. -/
def turningAway (fd : ℕ) (answer : Bytes) : List Event :=
  [.frame fd 0x2 answer, .put (.task fd) true, .close fd, .farewell fd, .poll fd, .finish fd]

variable (apiKey bridgeMac) in
theorem runFrom_turnedAway (hname : name.length ≤ 1000) (hid : requestId.length ≤ 1000)
    (hconnected : s.connected = true) (hfd : s.activeFd = some fd) (hauth : s.authenticated = false)
    (hreading : s.stage fd = .reading) (hready : s.Free (.task fd))
    (hrefused : verifyAuthResponse hmac apiKey s.serverNonce
      (read (hostResponse hmac hostKey name clientNonce hostNonce)) = false) :
    let answer := (hostResponse hmac hostKey name clientNonce hostNonce).envelope requestId
    Transition.Admits Server.Can (Server.step hmac apiKey bridgeMac) s (turningAway fd answer) ∧
      Transition.runFrom (Server.step hmac apiKey bridgeMac) s (turningAway fd answer) =
        s.turnedAway fd requestId := by
  have hnobody : s.hasAuthenticatedClient = false := by
    unfold Server.hasAuthenticatedClient
    rw [hauth, Bool.and_false, Bool.false_and]
  have hframe := step_frame_hostResponse hmac apiKey bridgeMac fd hostKey clientNonce hostNonce hname hid hnobody
  rw [if_neg (Bool.eq_false_iff.mp hrefused)] at hframe
  have hput : Server.step hmac apiKey bridgeMac ((s.address (.task fd) .refusal 0x2 (refusal requestId)).setStage fd
      .rejected) (.put (.task fd) true) =
      (s.delivered (.task fd) fd .refusal 0x2 (refusal requestId)).setStage fd .rejected :=
    put_address_setStage fd hconnected hfd .rejected
  generalize ht : (s.delivered (.task fd) fd .refusal 0x2 (refusal requestId)).setStage fd .rejected = t at hput
  have hclose : t.step hmac apiKey bridgeMac (.close fd) =
      ((({ t with connected := false, authenticated := false, activeFd := none }.setSending (.task fd)
        .closing).note (.dropped fd))).setStage fd .loop := by
    have hactive : t.activeFd = some fd := by rw [← ht]; exact hfd
    change (t.closeClient fd).setStage fd .loop = _
    unfold Server.closeClient
    rw [hactive]
  generalize hu : ((({ t with connected := false, authenticated := false, activeFd := none }.setSending (.task fd)
        .closing).note (.dropped fd))).setStage fd .loop = u at hclose
  have hfarewell : u.step hmac apiKey bridgeMac (.farewell fd) = (u.setSending (.task fd) .idle).note
      (.unsent (.task fd)) := by
    rw [← hu]
    rfl
  have hpoll : ((u.setSending (.task fd) .idle).note (.unsent (.task fd))).step hmac apiKey bridgeMac (.poll fd) =
      ((u.setSending (.task fd) .idle).note (.unsent (.task fd))).setStage fd .ending := by
    rw [← hu]
    rfl
  have hfinish : Server.step hmac apiKey bridgeMac (((u.setSending (.task fd) .idle).note
      (.unsent (.task fd))).setStage fd .ending) (.finish fd) = s.turnedAway fd requestId := by
    change (Server.finishSession _ fd).setStage fd .idle = _
    unfold Server.finishSession
    rw [if_pos (by rw [← hu]; exact (Option.some_ne_none fd).symm), ← hu, ← ht]
    unfold Server.turnedAway Server.delivered Server.setStage Server.setSending Server.note
    simp only [Function.update_idem]
  dsimp only [Transition.Admits, Transition.runFrom, turningAway]
  rw [hframe, hput, hclose, hfarewell, hpoll, hfinish]
  refine ⟨⟨⟨hreading, hready⟩, can_put_address fd hconnected hfd .rejected, ⟨?_, .inl ?_⟩, ?_, ⟨?_, .inl ?_⟩,
    ⟨stage_setStage _ _ _, .inl ?_⟩, trivial⟩, rfl⟩
  · rw [← ht]
    exact stage_setStage _ _ _
  · rw [← ht]
    exact sending_setSending s (.task fd) .idle
  · rw [← hu]
    exact sending_setSending _ _ _
  · rw [← hu]
    exact stage_setStage _ _ _
  · exact sending_setSending u (.task fd) .idle
  · exact sending_setSending u (.task fd) .idle

end

/-! ### A client that leaves -/

/-- The bridge when a client that was verified has left. -/
def Server.left (s : Server) (fd : ℕ) (authOk : Bytes) : Server :=
  { s with
    connected := false
    authenticated := false
    activeFd := none
    stage := Function.update s.stage fd .idle
    sending := Function.update s.sending (.task fd) .idle
    log := .finished fd :: outcome (.task fd) fd .authOk 0x2 authOk ::
      .addressed (.task fd) fd .authOk 0x2 authOk :: s.log }

/-- The client is told that it is accepted, and is gone before its first request. -/
def leaving (fd : ℕ) (authOk : Bytes) : List Event :=
  [.welcome fd authOk, .put (.task fd) true, .poll fd, .lost fd, .finish fd]

variable (apiKey bridgeMac) in
theorem runFrom_leaving (authOk requestId : Bytes) (hconnected : s.connected = true) (hfd : s.activeFd = some fd)
    (hstage : s.stage fd = .accepted requestId) (hready : s.Free (.task fd)) :
    Transition.Admits Server.Can (Server.step hmac apiKey bridgeMac) s (leaving fd authOk) ∧
      Transition.runFrom (Server.step hmac apiKey bridgeMac) s (leaving fd authOk) = s.left fd authOk := by
  have hput : Server.step hmac apiKey bridgeMac (s.step hmac apiKey bridgeMac (.welcome fd authOk))
      (.put (.task fd) true) = (s.delivered (.task fd) fd .authOk 0x2 authOk).setStage fd .loop :=
    put_address_setStage fd hconnected hfd .loop
  generalize ht : (s.delivered (.task fd) fd .authOk 0x2 authOk).setStage fd .loop = t at hput
  have hactive : t.activeFd = some fd := by rw [← ht]; exact hfd
  have hidle : t.sending (.task fd) = .idle := by rw [← ht]; exact sending_setSending s (.task fd) .idle
  have hpoll : t.step hmac apiKey bridgeMac (.poll fd) = t.setStage fd .reading := by
    have hown : t.isActiveFd fd = true := by
      have hstands : t.connected = true := by rw [← ht]; exact hconnected
      unfold Server.isActiveFd
      rw [hstands, hactive, beq_self_eq_true]
      rfl
    change t.setStage fd (if _ then _ else _) = _
    rw [hown, if_pos rfl]
  have hfinish : Server.step hmac apiKey bridgeMac (Server.step hmac apiKey bridgeMac (t.setStage fd .reading)
      (.lost fd)) (.finish fd) = s.left fd authOk := by
    change (Server.finishSession ((t.setStage fd .reading).setStage fd .ending) fd).setStage fd .idle = _
    unfold Server.finishSession
    rw [if_neg (not_not_intro (show Server.activeFd ((t.setStage fd .reading).setStage fd .ending) = some fd from
      hactive)), ← ht]
    unfold Server.left Server.delivered Server.setStage Server.note
    simp only [Function.update_idem]
  dsimp only [Transition.Admits, Transition.runFrom, leaving]
  rw [hput, hpoll, hfinish]
  refine ⟨⟨⟨⟨requestId, hstage⟩, hready⟩, can_put_address fd hconnected hfd .loop, ⟨?_, .inl hidle⟩,
    ⟨stage_setStage _ _ _, .inl hidle⟩, ⟨stage_setStage _ _ _, .inl hidle⟩, trivial⟩, rfl⟩
  rw [← ht]
  exact stage_setStage _ _ _

end
/-! ## Three sessions -/

namespace Replay

/-- A function that tells inputs with different server nonces apart: it returns their digits. -/
def hmac (_ m : Bytes) : Octets 32 := Octets.fit 32 (m.drop 30)

def answer (serverNonce : Octets 16) : Host.AuthResponse := hostResponse hmac [1] [] (Octets.zero 16) serverNonce

/-- The first client is verified, and an event for it is under way. -/
def entered : Server :=
  let s := (({} : Server).opened [] 5 (Octets.zero 16)).verified 5 [] (read (answer (Octets.zero 16)))
  (s.setSending (.other 0) .checked).note (.checked (.other 0) true)

/-- It leaves before the event is addressed. -/
def first : Server := entered.left 5 []

/-- The second one gets that event, sends the answer of the first one again and is turned away. -/
def second : Server :=
  ((first.opened [] 5 (Octets.fit 16 [1])).delivered (.other 0) 5 .event 0x2 [7]).turnedAway 5 []

/-- The third one is verified with an answer of its own. -/
def third : Server := (second.opened [] 5 (Octets.fit 16 [2])).verified 5 [] (read (answer (Octets.fit 16 [2])))

theorem length_nil_le : ([] : Bytes).length ≤ 1000 := Nat.zero_le 1000

theorem verifies (serverNonce : Octets 16) :
    verifyAuthResponse hmac [1] serverNonce (read (answer serverNonce)) = true :=
  (verifyAuthResponse_hostResponse [1]).mpr rfl

theorem reachable_first : Server.Reachable hmac [1] [] first := by
  have hstart : Server.Reachable hmac [1] [] {} := .start rfl
  obtain ⟨hcan, hrun⟩ := runFrom_opening (s := {}) hmac [1] [] 5 (Octets.zero 16) (List.cons_ne_nil 1 [])
    rfl rfl length_nil_le
  have hopened := hstart.runFrom hcan
  rw [hrun] at hopened
  obtain ⟨hcan, hrun⟩ := runFrom_verified (s := ({} : Server).opened [] 5 (Octets.zero 16)) hmac [1] [] 5
    [1] (Octets.zero 16) (Octets.zero 16) length_nil_le length_nil_le rfl rfl (.inl rfl) (verifies _)
  have hverified := hopened.runFrom hcan
  rw [hrun] at hverified
  have hentered : Server.Reachable hmac [1] [] entered := .next (e := Event.check (.other 0)) hverified (Or.inl rfl)
  obtain ⟨hcan, hrun⟩ := runFrom_leaving (s := entered) hmac [1] [] 5 [] [] rfl rfl rfl
    (.inl rfl)
  have hleft := hentered.runFrom hcan
  rw [hrun] at hleft
  exact hleft

theorem reachable_second : Server.Reachable hmac [1] [] second := by
  obtain ⟨hcan, hrun⟩ := runFrom_opening (s := first) hmac [1] [] 5 (Octets.fit 16 [1])
    (List.cons_ne_nil 1 []) rfl rfl length_nil_le
  have hopened := reachable_first.runFrom hcan
  rw [hrun] at hopened
  have hemitted : Server.Reachable hmac [1] [] _ := .next (e := Event.emit (.other 0) [7]) hopened
    (show (first.opened [] 5 (Octets.fit 16 [1])).sending (.other 0) = .checked from rfl)
  have hdelivered : Server.Reachable hmac [1] [] _ := .next (e := Event.put (.other 0) true) hemitted
    ⟨5, .event, 0x2, [7], rfl⟩
  have hput : Server.step hmac [1] [] (Server.step hmac [1] [] (first.opened [] 5 (Octets.fit 16 [1]))
      (.emit (.other 0) [7])) (.put (.other 0) true) =
      (first.opened [] 5 (Octets.fit 16 [1])).delivered (.other 0) 5 .event 0x2 [7] := by
    change ((first.opened [] 5 (Octets.fit 16 [1])).address (.other 0) .event 0x2 [7]).put (.other 0) true = _
    exact put_address 5 rfl rfl
  rw [hput] at hdelivered
  have hrefused : verifyAuthResponse hmac [1] (Octets.fit 16 [1]) (read (answer (Octets.zero 16))) = false := by
    rw [Bool.eq_false_iff, Ne, verifyAuthResponse_iff]
    rintro ⟨-, -, h⟩
    exact absurd h (by decide)
  obtain ⟨hcan, hrun⟩ := runFrom_turnedAway
    (s := (first.opened [] 5 (Octets.fit 16 [1])).delivered (.other 0) 5 .event 0x2 [7]) hmac [1] [] 5
    [1] (Octets.zero 16) (Octets.zero 16) length_nil_le length_nil_le rfl rfl rfl rfl (.inl rfl) hrefused
  have hturned := hdelivered.runFrom hcan
  rw [hrun] at hturned
  exact hturned

theorem reachable_third : Server.Reachable hmac [1] [] third := by
  obtain ⟨hcan, hrun⟩ := runFrom_opening (s := second) hmac [1] [] 5 (Octets.fit 16 [2])
    (List.cons_ne_nil 1 []) rfl rfl length_nil_le
  have hopened := reachable_second.runFrom hcan
  rw [hrun] at hopened
  obtain ⟨hcan, hrun⟩ := runFrom_verified (s := second.opened [] 5 (Octets.fit 16 [2])) hmac [1] [] 5
    [1] (Octets.zero 16) (Octets.fit 16 [2]) length_nil_le length_nil_le rfl rfl (.inl rfl) (verifies _)
  have hverified := hopened.runFrom hcan
  rw [hrun] at hverified
  exact hverified

end Replay

/-! ## What happens is a sequence of sessions -/

/-- While a session is open, only what is done for its own socket changes its fields, whatever the other threads
and the clients that are turned away do. -/
theorem session_untouched {hmac : Bytes → Bytes → Octets 32} {apiKey bridgeMac : Bytes} {s : Server}
    (hs : Server.Reachable hmac apiKey bridgeMac s) {e : Event} (hcan : s.Can e) {fd : ℕ}
    (hfd : s.activeFd = some fd) (hother : e.fd? ≠ some fd) :
    Server.Same s (s.step hmac apiKey bridgeMac e) :=
  (Server.Reachable.good hs).session_kept hcan hfd hother

/-- Another client asks for a session while the third one is open. -/
theorem session_untouched_third :
    Server.Same Replay.third (Replay.third.step Replay.hmac [1] [] (.request 7 (Octets.fit 16 [3]))) :=
  session_untouched Replay.reachable_third rfl (show Replay.third.activeFd = some 5 from rfl) (by decide)

/-! ## An answer counts once -/

/-- With a nonce of its own for each session, no HMAC is accepted twice: to send again what was accepted once
does not help, unless two of the inputs that were authenticated have the same HMAC. -/
theorem accepted_once {hmac : Bytes → Bytes → Octets 32} {apiKey bridgeMac : Bytes} {s : Server}
    (hs : Server.Reachable hmac apiKey bridgeMac s) (hfresh : (serverNonces s.log).Nodup)
    (hinjective : Set.InjOn (hmac apiKey) {m | m ∈ acceptedInputs s.log}) : (acceptedHmacs s.log).Nodup := by
  obtain ⟨-, hnodup, hhmacs⟩ := (Server.Reachable.good hs).legal.spent hfresh
  rw [hhmacs, List.nodup_map_iff_inj_on hnodup]
  intro m hm m' hm' heq
  exact hinjective hm hm' (Octets.ext heq)

/-- What the three sessions of `Replay` leave in the log. -/
theorem Replay.entries_third :
    serverNonces third.log = [Octets.fit 16 [2], Octets.fit 16 [1], Octets.zero 16] ∧
      acceptedInputs third.log = [authInput clientKind (Octets.fit 16 [2]).bytes (Octets.zero 16).bytes,
        authInput clientKind (Octets.zero 16).bytes (Octets.zero 16).bytes] ∧
      (acceptedHmacs third.log).length = 2 := by
  unfold third second first Server.verified Server.opened Server.turnedAway Server.delivered Server.left
  dsimp only
  rcases outcome_cases (.task 5) 5 .authOk 0x2 [] with hok | hok <;>
    rcases outcome_cases (.other 0) 5 .event 0x2 [7] with hevent | hevent <;>
      rcases outcome_cases (.task 5) 5 .refusal 0x2 (refusal []) with hrefusal | hrefusal <;>
        rw [hok, hevent, hrefusal] <;> exact ⟨rfl, rfl, rfl⟩

/-- Three sessions, of which the second one replays the answer of the first: two answers count. -/
theorem accepted_once_replay :
    (serverNonces Replay.third.log).length = 3 ∧ (acceptedHmacs Replay.third.log).length = 2 ∧
      (acceptedHmacs Replay.third.log).Nodup := by
  obtain ⟨hnonces, hinputs, hhmacs⟩ := Replay.entries_third
  have hdiffer : Replay.hmac [1] (authInput clientKind (Octets.fit 16 [2]).bytes (Octets.zero 16).bytes) ≠
      Replay.hmac [1] (authInput clientKind (Octets.zero 16).bytes (Octets.zero 16).bytes) := by decide
  refine ⟨congrArg List.length hnonces, hhmacs, accepted_once Replay.reachable_third ?_ ?_⟩
  · rw [hnonces]
    decide
  · rw [hinputs]
    intro m hm m' hm' heq
    rcases List.mem_pair.mp hm with rfl | rfl <;> rcases List.mem_pair.mp hm' with rfl | rfl
    · rfl
    · exact absurd heq hdiffer
    · exact absurd heq.symm hdiffer
    · rfl

/-! ## The handshake -/

section

variable (hmac : Bytes → Bytes → Octets 32) {apiKey bridgeMac : Bytes} {s : Server} (fd : ℕ)
  (serverNonce : Octets 16) (hostKey : Bytes) {name requestId : Bytes} (clientNonce : Octets 16)

/-- A host that answers the challenge of the bridge gets the session if its key gives the same HMAC; if not, the
session is free again after the close. -/
theorem handshake_completes (authOk : Bytes) (hfree : s.connected = false) (hidle : s.stage fd = .idle)
    (hkey : apiKey ≠ []) (hbridge : bridgeMac.length ≤ 1000) (hname : name.length ≤ 1000)
    (hid : requestId.length ≤ 1000) :
    ∃ answer,
      Host.authenticate hmac hostKey name requestId clientNonce (authChallenge serverNonce bridgeMac) = some answer ∧
      answer.length < maxFrameBytes ∧
      if hmac hostKey (authInput clientKind serverNonce.bytes clientNonce.bytes) =
          hmac apiKey (authInput clientKind serverNonce.bytes clientNonce.bytes) then
        let events := opening fd serverNonce ++
          [.frame fd 0x2 answer, .accept fd, .welcome fd authOk, .put (.task fd) true]
        let s' := Transition.runFrom (Server.step hmac apiKey bridgeMac) s events
        Transition.Admits Server.Can (Server.step hmac apiKey bridgeMac) s events ∧
          s'.hasAuthenticatedClient = true ∧ s'.activeFd = some fd
      else
        let events := opening fd serverNonce ++ turningAway fd answer
        let s' := Transition.runFrom (Server.step hmac apiKey bridgeMac) s events
        Transition.Admits Server.Can (Server.step hmac apiKey bridgeMac) s events ∧
          s'.connected = false ∧ s'.stage fd = .idle := by
  refine ⟨_, authenticate_authChallenge (Nat.lt_of_le_of_lt hbridge (by decide)),
    length_hostResponse_lt hname hid, ?_⟩
  obtain ⟨hopens, hopened⟩ := runFrom_opening hmac apiKey bridgeMac fd serverNonce hkey hfree hidle hbridge
  have hreading : (s.opened bridgeMac fd serverNonce).stage fd = .reading := stage_setStage s fd .reading
  have hready : (s.opened bridgeMac fd serverNonce).Free (.task fd) := .inl (sending_setSending s (.task fd) .idle)
  have hverifies : verifyAuthResponse hmac apiKey serverNonce
      (read (hostResponse hmac hostKey name clientNonce serverNonce)) = true ↔ _ :=
    verifyAuthResponse_hostResponse apiKey
  split_ifs with hsame
  · obtain ⟨hcan, hrun⟩ := runFrom_verified (s := s.opened bridgeMac fd serverNonce) hmac apiKey
      bridgeMac fd hostKey clientNonce serverNonce hname hid rfl hreading hready (hverifies.mpr hsame)
    have hsplit (answer : Bytes) : opening fd serverNonce ++
        [.frame fd 0x2 answer, .accept fd, .welcome fd authOk, .put (.task fd) true] =
        opening fd serverNonce ++ ([.frame fd 0x2 answer, .accept fd] ++
          [.welcome fd authOk, .put (.task fd) true]) := rfl
    dsimp only at hcan hrun ⊢
    rw [hsplit, Transition.runFrom_append, Transition.admits_append, hopened, Transition.runFrom_append,
      Transition.admits_append, hrun]
    have hput : Server.step hmac apiKey bridgeMac (Server.step hmac apiKey bridgeMac _ (.welcome fd authOk))
        (.put (.task fd) true) = (((s.opened bridgeMac fd serverNonce).verified fd requestId
          (read (hostResponse hmac hostKey name clientNonce serverNonce))).delivered (.task fd) fd .authOk 0x2
          authOk).setStage fd .loop :=
      put_address_setStage fd rfl rfl .loop
    dsimp only [Transition.Admits, Transition.runFrom]
    rw [hput]
    refine ⟨⟨hopens, hcan, ⟨⟨requestId, ?_⟩, hready⟩, can_put_address fd rfl rfl .loop, trivial⟩, rfl, rfl⟩
    exact Function.update_self ..
  · have hrefused : verifyAuthResponse hmac apiKey serverNonce
        (read (hostResponse hmac hostKey name clientNonce serverNonce)) = false := by
      rw [Bool.eq_false_iff]
      exact fun hverified => hsame (hverifies.mp hverified)
    obtain ⟨hcan, hrun⟩ := runFrom_turnedAway (s := s.opened bridgeMac fd serverNonce) hmac apiKey
      bridgeMac fd hostKey clientNonce serverNonce hname hid rfl rfl rfl hreading hready hrefused
    dsimp only at hcan hrun ⊢
    rw [Transition.runFrom_append, Transition.admits_append, hopened, hrun]
    exact ⟨⟨hopens, hcan⟩, rfl, Function.update_self ..⟩

end

/-- The first client of a bridge, with the same key. -/
theorem handshake_completes_first :
    ∃ answer,
      Host.authenticate Replay.hmac [1] [] [] (Octets.zero 16) (authChallenge (Octets.zero 16) []) = some answer ∧
      answer.length < maxFrameBytes ∧
      let events := opening 5 (Octets.zero 16) ++
        [.frame 5 0x2 answer, .accept 5, .welcome 5 [], .put (.task 5) true]
      let s' := Transition.runFrom (Server.step Replay.hmac [1] []) {} events
      Transition.Admits Server.Can (Server.step Replay.hmac [1] []) {} events ∧
        s'.hasAuthenticatedClient = true ∧ s'.activeFd = some 5 := by
  have hnil : ([] : Bytes).length ≤ 1000 := Nat.zero_le 1000
  obtain ⟨answer, hanswer, hlength, hrun⟩ := handshake_completes (s := {}) Replay.hmac 5 (Octets.zero 16) [1]
    (Octets.zero 16) [] rfl rfl (List.cons_ne_nil 1 []) hnil hnil hnil
  rw [if_pos rfl] at hrun
  exact ⟨answer, hanswer, hlength, hrun⟩

end Runtime

end EspTree
