import EspTree.Runtime.Session

/-!
# The threads keep to the protocol of a session

Seen from outside there is one session after another: it is opened, its client is verified or not, and it is
ended (`Phase`).  `Legal` says which entries may follow which; every interleaving of the threads keeps to it.

The invariant is `Server.Good`.  It says what the fields are in each phase, what a task may rely on at each of
its stages, and how far each thread is with its frame, as one reads it off the log.  Each function has a lemma
that it keeps `Good`, and `Server.Good.step` puts them together.  `Server.Good.session_kept` adds that a session
is changed by its own task only.  What follows from a legal log is in `EspTree.Runtime.SessionLog`.
-/

namespace EspTree

open Wire

namespace Runtime

/-! ## The protocol -/

/-- The session after what has happened. -/
inductive Phase
  | closed
  | opened (fd : ℕ) (serverNonce : Octets 16)
  | verified (fd : ℕ) (serverNonce : Octets 16)

namespace Phase

def fd? : Phase → Option ℕ
  | .closed => none
  | .opened fd _ | .verified fd _ => some fd

def serverNonce? : Phase → Option (Octets 16)
  | .closed => none
  | .opened _ serverNonce | .verified _ serverNonce => some serverNonce

def isVerified : Phase → Bool
  | .closed | .opened _ _ => false
  | .verified _ _ => true

/-- The phase after one more entry. -/
def next : Phase → Entry → Phase
  | _, .opened fd serverNonce => .opened fd serverNonce
  | _, .finished _ | _, .dropped _ => .closed
  | .opened fd serverNonce, .verified _ _ => .verified fd serverNonce
  | p, _ => p

end Phase

def phase : List Entry → Phase
  | [] => .closed
  | entry :: log => (phase log).next entry

/-- How far an entry brings a thread with its frame. -/
def Entry.sending (t : Thread) : Entry → Option Sending
  | .opened fd _ => if t = .task fd then some .idle else none
  | .dropped fd => if t = .task fd then some .closing else none
  | .checked t' authenticated => if t = t' then some (if authenticated then .checked else .idle) else none
  | .addressed t' fd kind opcode payload => if t = t' then some (.addressed fd kind opcode payload) else none
  | .sent t' _ _ _ _ | .unsent t' => if t = t' then some .idle else none
  | .verified _ _ | .served _ _ | .finished _ => none

/-- How far a thread is with its frame after what has happened. -/
def sendingOf : List Entry → Thread → Sending
  | [], _ => .idle
  | entry :: log, t => (entry.sending t).getD (sendingOf log t)

/-- Which frames a thread may address to the client of the session.  Before the client is verified the task of
the session sends no more than challenges, echoes and refusals.  Other frames are of sessions before: an event
whose check has succeeded, the result of a configuration that was requested, the close frame of a client
that was turned away. -/
def Entitled (log : List Entry) (fd : ℕ) (verified : Bool) (t : Thread) : Kind → Prop
  | .challenge | .control | .refusal => t = .task fd
  | .authOk | .answer => t = .task fd ∧ verified = true
  | .event => sendingOf log t = .checked
  | .configResult => 0 < owedResults log
  | .farewell => sendingOf log t = .closing

/-- Which entry may come next. -/
def Allowed (hmac : Bytes → Bytes → Octets 32) (apiKey : Bytes) (log : List Entry) (p : Phase) : Entry → Prop
  | .opened _ _ => p = .closed
  | .verified fd response =>
    ∃ serverNonce, p = .opened fd serverNonce ∧ verifyAuthResponse hmac apiKey serverNonce response = true
  | .served fd _ => ∃ serverNonce, p = .verified fd serverNonce
  | .finished fd => p.fd? = some fd
  | .dropped fd => ∃ serverNonce, p = .opened fd serverNonce
  | .checked _ authenticated => authenticated = p.isVerified
  | .addressed t fd kind _ _ => p.fd? = some fd ∧ Entitled log fd p.isVerified t kind
  | .sent t fd kind opcode payload => sendingOf log t = .addressed fd kind opcode payload
  | .unsent _ => True

/-- Every entry may follow those before it. -/
def Legal (hmac : Bytes → Bytes → Octets 32) (apiKey : Bytes) : List Entry → Prop
  | [] => True
  | entry :: log => Allowed hmac apiKey log (phase log) entry ∧ Legal hmac apiKey log

/-! ## The invariant -/

namespace Server

variable (hmac : Bytes → Bytes → Octets 32) (apiKey : Bytes)

/-- What the fields say when a task is at a stage. -/
def Fits (s : Server) (fd : ℕ) : Stage → Prop
  | .idle => s.activeFd ≠ some fd
  | .loop | .ending => True
  | .starting | .challenge | .reading => s.activeFd = some fd
  | .rejected => s.activeFd = some fd ∧ s.authenticated = false
  | .accepting _ response =>
    s.activeFd = some fd ∧ s.authenticated = false ∧ verifyAuthResponse hmac apiKey s.serverNonce response = true
  | .accepted _ | .serving => s.activeFd = some fd ∧ s.authenticated = true

/-- The fields in a phase. -/
structure Shows (s : Server) (p : Phase) : Prop where
  activeFd : s.activeFd = p.fd?
  connected : s.connected = p.fd?.isSome
  authenticated : s.authenticated = p.isVerified
  serverNonce : ∀ serverNonce, p.serverNonce? = some serverNonce → s.serverNonce = serverNonce

/-- What holds between any two events. -/
structure Good (s : Server) : Prop where
  legal : Legal hmac apiKey s.log
  shows : s.Shows (phase s.log)
  fits : ∀ fd, s.Fits hmac apiKey fd (s.stage fd)
  sending : ∀ t, s.sending t = sendingOf s.log t

variable {hmac apiKey} {s : Server} {fd : ℕ}

/-- A session is open as long as there is an active socket. -/
theorem Good.connected (h : Good hmac apiKey s) : s.connected = s.activeFd.isSome := by
  rw [h.shows.connected, h.shows.activeFd]

/-- The phase of a session that is open. -/
theorem Good.phase_of_active (h : Good hmac apiKey s) (hfd : s.activeFd = some fd) :
    phase s.log = if s.authenticated then .verified fd s.serverNonce else .opened fd s.serverNonce := by
  obtain ⟨hactive, -, hauth, hnonce⟩ := h.shows
  rw [hfd] at hactive
  rw [hauth]
  generalize phase s.log = p at hactive hnonce
  cases p with
  | closed => cases hactive
  | opened fd' serverNonce =>
    obtain rfl := Option.some.inj hactive
    rw [hnonce serverNonce rfl]
    rfl
  | verified fd' serverNonce =>
    obtain rfl := Option.some.inj hactive
    rw [hnonce serverNonce rfl]
    rfl

/-- Without one the log says that the session is closed. -/
theorem Good.phase_of_none (h : Good hmac apiKey s) (hfd : s.activeFd = none) : phase s.log = .closed := by
  have hactive := h.shows.activeFd
  rw [hfd] at hactive
  generalize phase s.log = p at hactive
  cases p with
  | closed => rfl
  | opened | verified => cases hactive

/-- `has_authenticated_client` says whether the client is verified. -/
theorem Good.hasAuthenticatedClient (h : Good hmac apiKey s) : s.hasAuthenticatedClient = s.authenticated := by
  obtain ⟨hactive, hconnected, hauth, -⟩ := h.shows
  unfold Server.hasAuthenticatedClient
  rw [hactive, hconnected, hauth]
  cases phase s.log <;> rfl

/-! ## Entries that leave the session as it is -/

/-- An entry that is about the frame of one thread. -/
theorem update_sending (h : ∀ t, s.sending t = sendingOf s.log t) {t : Thread} {entry : Entry} {sending : Sending}
    (hentry : ∀ t', entry.sending t' = if t' = t then some sending else none) (t' : Thread) :
    Function.update s.sending t sending t' = sendingOf (entry :: s.log) t' := by
  change _ = (entry.sending t').getD _
  rw [hentry]
  split_ifs with heq
  · rw [heq, Function.update_self]
    rfl
  · rw [Function.update_of_ne heq, h]
    rfl

/-- Where another task stands does not matter for what a task may rely on. -/
theorem fits_setStage {stage : Stage} {fd' : ℕ} {stage' : Stage} :
    (s.setStage fd stage).Fits hmac apiKey fd' stage' ↔ s.Fits hmac apiKey fd' stage' := by
  cases stage' <;> exact Iff.rfl

theorem fits_note {sending : Thread → Sending} {entry : Entry} {stage : Stage} :
    ({ s with sending }.note entry).Fits hmac apiKey fd stage ↔ s.Fits hmac apiKey fd stage := by
  cases stage <;> exact Iff.rfl

/-- A task may go to a stage whose conditions hold. -/
theorem Good.setStage (h : Good hmac apiKey s) {stage : Stage} (hstage : s.Fits hmac apiKey fd stage) :
    Good hmac apiKey (s.setStage fd stage) where
  legal := h.legal
  shows := ⟨h.shows.activeFd, h.shows.connected, h.shows.authenticated, h.shows.serverNonce⟩
  fits fd' := by
    rw [fits_setStage]
    change s.Fits hmac apiKey fd' (Function.update s.stage fd stage fd')
    by_cases heq : fd' = fd
    · subst heq
      rwa [Function.update_self]
    · rw [Function.update_of_ne heq]
      exact h.fits fd'
  sending := h.sending

/-- One more entry, in the same phase. -/
theorem Good.note (h : Good hmac apiKey s) {entry : Entry} {sending : Thread → Sending}
    (hallowed : Allowed hmac apiKey s.log (phase s.log) entry) (hnext : (phase s.log).next entry = phase s.log)
    (hsending : ∀ t, sending t = sendingOf (entry :: s.log) t) :
    Good hmac apiKey ({ s with sending }.note entry) where
  legal := ⟨hallowed, h.legal⟩
  shows := by
    have hphase : phase ({ s with sending }.note entry).log = phase s.log := hnext
    rw [hphase]
    exact ⟨h.shows.activeFd, h.shows.connected, h.shows.authenticated, h.shows.serverNonce⟩
  fits fd := fits_note.mpr (h.fits fd)
  sending := hsending

/-- What `send_frame` does when it reads `active_fd`: it finds the session that is open, or none. -/
theorem address_cases (s : Server) (t : Thread) (kind : Kind) (opcode : UInt8) (payload : Bytes) :
    s.address t kind opcode payload = (s.setSending t .idle).note (.unsent t) ∨
      ∃ fd, s.activeFd = some fd ∧ s.address t kind opcode payload =
        (s.setSending t (.addressed fd kind opcode payload)).note (.addressed t fd kind opcode payload) := by
  unfold address
  cases hfd : (if s.connected then s.activeFd else none) with
  | none => exact .inl rfl
  | some fd =>
    refine .inr ⟨fd, ?_, rfl⟩
    split_ifs at hfd
    exact hfd

/-- A thread may address what it is entitled to. -/
theorem Good.address (h : Good hmac apiKey s) {t : Thread} {kind : Kind} (opcode : UInt8) (payload : Bytes)
    (hkind : ∀ fd, s.activeFd = some fd → Entitled s.log fd s.authenticated t kind) :
    Good hmac apiKey (s.address t kind opcode payload) := by
  rcases address_cases s t kind opcode payload with heq | ⟨fd, hfd, heq⟩
  · rw [heq]
    refine h.note trivial ?_ (update_sending h.sending fun _ => rfl)
    cases phase s.log <;> rfl
  · rw [heq]
    refine h.note ⟨h.shows.activeFd.symm.trans hfd, ?_⟩ ?_ (update_sending h.sending fun _ => rfl)
    · rw [← h.shows.authenticated]
      exact hkind fd hfd
    · cases phase s.log <;> rfl

theorem fits_address {t : Thread} {kind : Kind} {opcode : UInt8} {payload : Bytes} {stage : Stage} :
    (s.address t kind opcode payload).Fits hmac apiKey fd stage ↔ s.Fits hmac apiKey fd stage := by
  rcases address_cases s t kind opcode payload with heq | ⟨fd', -, heq⟩ <;> rw [heq]
  · exact fits_note
  · exact fits_note

section

variable (s : Server) (t : Thread) (kind : Kind) (opcode : UInt8) (payload : Bytes)

@[simp] theorem connected_address : (s.address t kind opcode payload).connected = s.connected := by
  rcases address_cases s t kind opcode payload with heq | ⟨fd, -, heq⟩ <;> rw [heq] <;> rfl

@[simp] theorem authenticated_address : (s.address t kind opcode payload).authenticated = s.authenticated := by
  rcases address_cases s t kind opcode payload with heq | ⟨fd, -, heq⟩ <;> rw [heq] <;> rfl

@[simp] theorem activeFd_address : (s.address t kind opcode payload).activeFd = s.activeFd := by
  rcases address_cases s t kind opcode payload with heq | ⟨fd, -, heq⟩ <;> rw [heq] <;> rfl

@[simp] theorem serverNonce_address : (s.address t kind opcode payload).serverNonce = s.serverNonce := by
  rcases address_cases s t kind opcode payload with heq | ⟨fd, -, heq⟩ <;> rw [heq] <;> rfl

end

/-- What goes out was addressed by the thread that sends it. -/
theorem Good.put (h : Good hmac apiKey s) (t : Thread) (delivered : Bool) : Good hmac apiKey (s.put t delivered) := by
  unfold Server.put
  cases hsending : s.sending t with
  | idle | checked | closing => exact h
  | addressed fd kind opcode payload =>
    dsimp only
    split_ifs
    · refine h.note ((h.sending t).symm.trans hsending) ?_ (update_sending h.sending fun _ => rfl)
      cases phase s.log <;> rfl
    · refine h.note trivial ?_ (update_sending h.sending fun _ => rfl)
      cases phase s.log <;> rfl

/-- A thread that looks whether a client is verified finds what the log says. -/
theorem Good.check (h : Good hmac apiKey s) (t : Thread) :
    Good hmac apiKey ((s.setSending t (if s.hasAuthenticatedClient then .checked else .idle)).note
      (.checked t s.hasAuthenticatedClient)) := by
  refine h.note (h.hasAuthenticatedClient.trans h.shows.authenticated) ?_ (update_sending h.sending fun _ => rfl)
  cases phase s.log <;> rfl

/-! ## Entries that change it -/

/-- A stage that needs no session. -/
theorem Good.clear (h : Good hmac apiKey s) (hfd : s.activeFd = some fd) {sending : Thread → Sending} {entry : Entry}
    {stage : Stage} (hstage : stage = .loop ∨ stage = .idle)
    (hallowed : Allowed hmac apiKey s.log (phase s.log) entry) (hnext : (phase s.log).next entry = .closed)
    (hsending : ∀ t, sending t = sendingOf (entry :: s.log) t) :
    Good hmac apiKey (({ s with connected := false, authenticated := false, activeFd := none, sending }.note
      entry).setStage fd stage) where
  legal := ⟨hallowed, h.legal⟩
  shows := by
    change Shows _ ((phase s.log).next entry)
    rw [hnext]
    exact ⟨rfl, rfl, rfl, fun _ hnone => by cases hnone⟩
  fits fd' := by
    rw [fits_setStage]
    change Fits hmac apiKey _ fd' (Function.update s.stage fd stage fd')
    by_cases heq : fd' = fd
    · subst heq
      rw [Function.update_self]
      rcases hstage with rfl | rfl
      · exact trivial
      · exact fun hnone => by cases hnone
    · rw [Function.update_of_ne heq]
      have hfits := h.fits fd'
      have hne : s.activeFd ≠ some fd' := fun hsame => heq (Option.some.inj (hsame.symm.trans hfd))
      generalize s.stage fd' = stage' at hfits
      cases stage' with
      | idle => exact fun hnone => by cases hnone
      | loop | ending => exact trivial
      | starting | challenge | reading => exact absurd hfits hne
      | rejected | accepting | accepted | serving => exact absurd hfits.1 hne
  sending := hsending

/-- A task that ends its session leaves the bridge to the next one, or to the one that has replaced
it. -/
theorem Good.finishSession (h : Good hmac apiKey s) (fd : ℕ) :
    Good hmac apiKey ((s.finishSession fd).setStage fd .idle) := by
  unfold Server.finishSession
  split_ifs with hfd
  · exact h.setStage hfd
  · have hactive := not_not.mp hfd
    refine h.clear hactive (.inr rfl) (h.shows.activeFd.symm.trans hactive) ?_ h.sending
    cases phase s.log <;> rfl

/-- A client that is turned away is sent a close frame, as the log has it. -/
theorem Good.closeClient (h : Good hmac apiKey s) (hfd : s.activeFd = some fd) (hauth : s.authenticated = false) :
    Good hmac apiKey ((s.closeClient fd).setStage fd .loop) := by
  have hphase : phase s.log = .opened fd s.serverNonce := by
    rw [h.phase_of_active hfd, hauth]
    rfl
  unfold Server.closeClient
  rw [hfd]
  refine h.clear hfd (.inl rfl) ⟨s.serverNonce, hphase⟩ ?_ (update_sending h.sending fun _ => rfl)
  rw [hphase]
  rfl

/-- A session is opened. -/
theorem Good.runSocketSession (h : Good hmac apiKey s) (serverNonce : Octets 16) :
    Good hmac apiKey (s.runSocketSession apiKey fd serverNonce) := by
  unfold Server.runSocketSession
  split_ifs with hkey hconnected
  · exact h
  · exact h
  have hnone : s.activeFd = none := by
    have hsome := h.connected
    rw [Bool.eq_false_iff.mpr hconnected] at hsome
    exact Option.isNone_iff_eq_none.mp (Option.isSome_eq_false_iff.mp hsome.symm)
  constructor
  · exact ⟨h.phase_of_none hnone, h.legal⟩
  · change Shows _ ((phase s.log).next (.opened fd serverNonce))
    have hnext : (phase s.log).next (.opened fd serverNonce) = .opened fd serverNonce := by cases phase s.log <;> rfl
    rw [hnext]
    exact ⟨rfl, rfl, rfl, fun _ hsame => Option.some.inj hsame⟩
  · intro fd'
    change Fits hmac apiKey _ fd' (Function.update s.stage fd .starting fd')
    by_cases heq : fd' = fd
    · subst heq
      rw [Function.update_self]
      exact rfl
    · rw [Function.update_of_ne heq]
      have hfits := h.fits fd'
      generalize s.stage fd' = stage' at hfits
      cases stage' with
      | idle => exact fun hsame => heq (Option.some.inj hsame).symm
      | loop | ending => exact trivial
      | starting | challenge | reading => cases hnone.symm.trans hfits
      | rejected | accepting | accepted | serving => cases hnone.symm.trans hfits.1
  · exact update_sending h.sending fun _ => rfl

/-- The client is verified. -/
theorem Good.accept (h : Good hmac apiKey s) : Good hmac apiKey (s.accept fd) := by
  unfold Server.accept
  cases hstage : s.stage fd with
  | accepting requestId response =>
    have hfits := h.fits fd
    rw [hstage] at hfits
    obtain ⟨hfd, hauth, hverified⟩ := hfits
    have hphase : phase s.log = .opened fd s.serverNonce := by
      rw [h.phase_of_active hfd, hauth]
      rfl
    constructor
    · exact ⟨⟨s.serverNonce, hphase, hverified⟩, h.legal⟩
    · change Shows _ ((phase s.log).next (.verified fd response))
      rw [hphase]
      refine ⟨hfd, ?_, rfl, fun _ hsame => Option.some.inj hsame⟩
      exact h.connected.trans (congrArg Option.isSome hfd)
    · intro fd'
      rw [fits_setStage]
      change Fits hmac apiKey _ fd' (Function.update s.stage fd _ fd')
      by_cases heq : fd' = fd
      · subst heq
        rw [Function.update_self]
        exact ⟨hfd, rfl⟩
      · rw [Function.update_of_ne heq]
        have hfits := h.fits fd'
        have hne : s.activeFd ≠ some fd' := fun hsame => heq (Option.some.inj (hsame.symm.trans hfd))
        generalize s.stage fd' = stage' at hfits
        cases stage' with
        | idle => exact hfits
        | loop | ending => exact trivial
        | starting | challenge | reading => exact hfits
        | rejected | accepting | accepted | serving => exact absurd hfits.1 hne
    · exact h.sending
  | idle | starting | challenge | loop | reading | rejected | accepted | serving | ending => exact h

/-! ## Every event -/

/-- What the task of the session addresses before its stage changes. -/
theorem Good.send (h : Good hmac apiKey s) (hfd : s.activeFd = some fd) {kind : Kind} (opcode : UInt8)
    (payload : Bytes) {stage : Stage} (hkind : Entitled s.log fd s.authenticated (.task fd) kind)
    (hstage : s.Fits hmac apiKey fd stage) :
    Good hmac apiKey ((s.address (.task fd) kind opcode payload).setStage fd stage) := by
  have haddress : Good hmac apiKey (s.address (.task fd) kind opcode payload) := by
    refine h.address opcode payload fun fd' hfd' => ?_
    obtain rfl := Option.some.inj (hfd.symm.trans hfd')
    exact hkind
  exact haddress.setStage (fits_address.mpr hstage)

/-- A message of the client is handled according to the phase: an answer to the challenge before it
is verified, and anything else after. -/
theorem Good.handleBinary (h : Good hmac apiKey s) (hfd : s.activeFd = some fd) (payload : Bytes) :
    Good hmac apiKey (s.handleBinary hmac apiKey fd payload) := by
  unfold Server.handleBinary
  cases acceptEnvelope payload with
  | none => exact h.send hfd _ _ rfl trivial
  | some env =>
    dsimp only
    rw [h.hasAuthenticatedClient]
    cases hauth : s.authenticated with
    | false =>
      have hrejected : s.Fits hmac apiKey fd .rejected := ⟨hfd, hauth⟩
      rw [if_pos Bool.false_ne_true]
      split_ifs
      · exact h.send hfd _ _ rfl hrejected
      cases hresponse : (responseOf payload env).filter (verifyAuthResponse hmac apiKey s.serverNonce) with
      | none => exact h.send hfd _ _ rfl hrejected
      | some response =>
        obtain ⟨-, hverified⟩ := Option.filter_eq_some_iff.mp hresponse
        exact h.setStage (show s.Fits hmac apiKey fd (.accepting env.requestId response) from
          ⟨hfd, hauth, hverified⟩)
    | true =>
      rw [if_neg (not_not_intro rfl)]
      have hphase : phase s.log = .verified fd s.serverNonce := by
        rw [h.phase_of_active hfd, hauth]
        rfl
      have hnote : Good hmac apiKey (s.note (.served fd env)) := by
        refine h.note ⟨s.serverNonce, hphase⟩ ?_ h.sending
        rw [hphase]
        rfl
      exact hnote.setStage (show Fits hmac apiKey _ fd .serving from ⟨hfd, hauth⟩)

/-- So is a frame of any other kind. -/
theorem Good.readLoop (h : Good hmac apiKey s) (hfd : s.activeFd = some fd) (opcode : UInt8) (payload : Bytes) :
    Good hmac apiKey (s.readLoop hmac apiKey fd opcode payload) := by
  unfold Server.readLoop
  split_ifs
  · exact h.send hfd _ _ rfl trivial
  · exact h.send hfd _ _ rfl trivial
  · exact h.send hfd _ _ rfl trivial
  · exact h.setStage trivial
  · exact h.handleBinary hfd payload

theorem good_start : Good hmac apiKey {} where
  legal := trivial
  shows := ⟨rfl, rfl, rfl, fun _ hnone => by cases hnone⟩
  fits _ := fun hnone => by cases hnone
  sending _ := rfl

/-- Every event keeps the invariant, whatever the other threads are doing. -/
theorem Good.step {bridgeMac : Bytes} (h : Good hmac apiKey s) {e : Event} (hcan : s.Can e) :
    Good hmac apiKey (s.step hmac apiKey bridgeMac e) := by
  have hfits {fd : ℕ} {stage : Stage} (hstage : s.stage fd = stage) : s.Fits hmac apiKey fd stage :=
    hstage ▸ h.fits fd
  cases e with
  | request fd serverNonce => exact h.runSocketSession serverNonce
  | started fd =>
    have hfd : s.activeFd = some fd := hfits hcan
    exact h.setStage hfd
  | startFailed fd => exact h.finishSession fd
  | challenge fd => exact h.send (hfits hcan.1) _ _ rfl trivial
  | poll fd =>
    refine h.setStage ?_
    split_ifs with hactive
    · exact beq_iff_eq.mp (Bool.and_eq_true_iff.mp hactive).2
    · exact trivial
  | timeout fd | lost fd => exact h.setStage trivial
  | frame fd opcode payload => exact h.readLoop (hfits hcan.1) opcode payload
  | close fd =>
    obtain ⟨hfd, hauth⟩ := hfits hcan.1
    exact h.closeClient hfd hauth
  | farewell fd => exact h.address _ _ fun _ _ => (h.sending _).symm.trans hcan
  | accept fd => exact h.accept
  | welcome fd authOk =>
    obtain ⟨⟨requestId, hstage⟩, -⟩ := hcan
    obtain ⟨hfd, hauth⟩ := hfits hstage
    exact h.send hfd _ _ ⟨rfl, hauth⟩ trivial
  | reply fd answer =>
    obtain ⟨hfd, hauth⟩ := hfits hcan.1
    refine h.address _ _ fun fd' hfd' => ?_
    obtain rfl := Option.some.inj (hfd.symm.trans hfd')
    exact ⟨rfl, hauth⟩
  | served fd => exact h.setStage trivial
  | finish fd => exact h.finishSession fd
  | check t => exact h.check t
  | emit t payload => exact h.address _ _ fun _ _ => (h.sending t).symm.trans hcan
  | configResult t payload => exact h.address _ _ fun _ _ => hcan.1
  | put t delivered => exact h.put t delivered

/-- The invariant holds in every state of a run. -/
theorem Reachable.good {bridgeMac : Bytes} (hs : Reachable hmac apiKey bridgeMac s) : Good hmac apiKey s :=
  hs.invariant (fun _ h => h ▸ good_start) fun _ _ h hcan => h.step hcan

/-! ## A session is its task's own -/

/-- The fields of a session are the same in two states. -/
structure Same (s s' : Server) : Prop where
  connected : s'.connected = s.connected
  authenticated : s'.authenticated = s.authenticated
  activeFd : s'.activeFd = s.activeFd
  serverNonce : s'.serverNonce = s.serverNonce

theorem Same.refl (s : Server) : Same s s := ⟨rfl, rfl, rfl, rfl⟩

/-- To address a frame does not change the session. -/
theorem same_address (t : Thread) (kind : Kind) (opcode : UInt8) (payload : Bytes) :
    Same s (s.address t kind opcode payload) :=
  ⟨connected_address s t kind opcode payload, authenticated_address s t kind opcode payload,
    activeFd_address s t kind opcode payload, serverNonce_address s t kind opcode payload⟩

theorem same_put (t : Thread) (delivered : Bool) : Same s (s.put t delivered) := by
  unfold Server.put
  cases s.sending t <;> exact ⟨rfl, rfl, rfl, rfl⟩

/-- A task that is no longer the active one ends nothing. -/
theorem same_finishSession (h : s.activeFd ≠ some fd) : Same s (s.finishSession fd) := by
  unfold Server.finishSession
  rw [if_pos h]
  exact .refl s

/-- While a session is open, only what is done for its socket changes it.  What the task of the session has read
under the mutex therefore still holds when it uses the mutex again, whatever other threads do meanwhile. -/
theorem Good.session_kept {bridgeMac : Bytes} (h : Good hmac apiKey s) {e : Event} (hcan : s.Can e)
    (hfd : s.activeFd = some fd) (hother : e.fd? ≠ some fd) : Same s (s.step hmac apiKey bridgeMac e) := by
  have hne {fd' : ℕ} (hsome : some fd' ≠ some fd) : s.activeFd ≠ some fd' :=
    fun hactive => hsome (hactive.symm.trans hfd)
  have hfits {fd' : ℕ} {stage : Stage} (hstage : s.stage fd' = stage) : s.Fits hmac apiKey fd' stage :=
    hstage ▸ h.fits fd'
  cases e with
  | request fd' serverNonce =>
    have hconnected : s.connected = true := h.connected.trans (congrArg Option.isSome hfd)
    change Same s (s.runSocketSession apiKey fd' serverNonce)
    unfold Server.runSocketSession
    rw [if_pos hconnected, ite_self]
    exact .refl s
  | started fd' | poll fd' | timeout fd' | lost fd' | served fd' => exact ⟨rfl, rfl, rfl, rfl⟩
  | startFailed fd' | finish fd' =>
    obtain ⟨hconnected, hauth, hactive, hnonce⟩ := same_finishSession (hne hother)
    exact ⟨hconnected, hauth, hactive, hnonce⟩
  | challenge fd' | frame fd' => exact absurd (hfits hcan.1) (hne hother)
  | close fd' => exact absurd (hfits hcan.1).1 (hne hother)
  | accept fd' =>
    obtain ⟨requestId, response, hstage⟩ := hcan
    exact absurd (hfits hstage).1 (hne hother)
  | welcome fd' =>
    obtain ⟨⟨requestId, hstage⟩, -⟩ := hcan
    exact absurd (hfits hstage).1 (hne hother)
  | reply fd' | farewell fd' | emit t | configResult t => exact same_address _ _ _ _
  | check t => exact ⟨rfl, rfl, rfl, rfl⟩
  | put t delivered => exact same_put t delivered

end Server

end Runtime

end EspTree
