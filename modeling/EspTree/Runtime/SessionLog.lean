import EspTree.Runtime.SessionRuns

/-!
# What a legal log says

Two facts about the sessions of the runtime API that need nothing but the order of the entries.

A thread may have a frame in hand when the session ends that the frame is for, and then the next client gets it.
`Legal.leftover` bounds what can reach a client that is not verified in this way: of each thread one event that
was checked before the session was opened, of each task one close frame, and the results that were owed.

`Legal.spent` follows the answers to the challenges.  What has been accepted was for the nonces of the sessions
so far, and for each of them at most once; a session whose client is not verified has not used its nonce.
-/

namespace EspTree

open Wire

namespace Runtime

/-! ## What is left over -/

section

variable {hmac : Bytes → Bytes → Octets 32} {apiKey : Bytes} {fd : ℕ} {serverNonce : Octets 16}

/-- The entries that open a session, verify its client or end it. -/
def Entry.turns : Entry → Bool
  | .opened _ _ | .verified _ _ | .finished _ | .dropped _ => true
  | .served _ _ | .checked _ _ | .addressed _ _ _ _ _ | .sent _ _ _ _ _ | .unsent _ => false

/-- A frame of that kind is addressed by the thread. -/
def Entry.addresses (t : Thread) (kind : Kind) : Entry → Bool
  | .addressed t' _ kind' _ _ => t' = t ∧ kind' = kind
  | _ => false

/-- A frame of that kind is addressed by some thread. -/
def Entry.carries (kind : Kind) : Entry → Bool
  | .addressed _ _ kind' _ _ => kind' = kind
  | _ => false

/-- What those threads that are not the session's own may still address to a client that is not verified: each
one event, if its check had succeeded when the session was opened; each one close frame, if it had just turned
away its own client; and the results of configurations that were owed then. -/
structure Leftover (earlier later : List Entry) : Prop where
  events : ∀ t, later.countP (Entry.addresses t .event) ≤ if sendingOf earlier t = .checked then 1 else 0
  farewells : ∀ t, later.countP (Entry.addresses t .farewell) ≤ if sendingOf earlier t = .closing then 1 else 0
  results : later.countP (Entry.carries .configResult) ≤ owedResults earlier

/-- Entries that turn nothing leave the phase as it is. -/
theorem phase_append {later earlier : List Entry} (hlater : ∀ e ∈ later, e.turns = false) :
    phase (later ++ earlier) = phase earlier := by
  induction later with
  | nil => rfl
  | cons entry later ih =>
    have hphase := ih fun e he => hlater e (List.mem_cons_of_mem entry he)
    have hentry := hlater entry List.mem_cons_self
    change (phase (later ++ earlier)).next entry = _
    rw [hphase]
    cases entry with
    | opened | verified | finished | dropped => cases hentry
    | served | checked | addressed | sent | unsent => cases phase earlier <;> rfl

/-- Until its client is verified a session stays as it was opened. -/
theorem Legal.allowed_early {entry : Entry} {later earlier : List Entry}
    (h : Legal hmac apiKey (entry :: (later ++ .opened fd serverNonce :: earlier)))
    (hlater : ∀ e ∈ later, e.turns = false) :
    Allowed hmac apiKey (later ++ .opened fd serverNonce :: earlier) (.opened fd serverNonce) entry := by
  have hphase : phase (later ++ .opened fd serverNonce :: earlier) = .opened fd serverNonce := by
    rw [phase_append hlater]
    change (phase earlier).next _ = _
    cases phase earlier <;> rfl
  rw [← hphase]
  exact h.1

/-- A frame is addressed in a session that is not verified only by a thread that was ready for it, and afterwards the
thread is ready no more; no other entry makes a thread ready. -/
theorem Allowed.addresses_le {log : List Entry} {entry : Entry}
    (h : Allowed hmac apiKey log (.opened fd serverNonce) entry) (hentry : entry.turns = false)
    {kind : Kind} {sending : Sending}
    (hkind : (kind = .event ∧ sending = .checked) ∨ (kind = .farewell ∧ sending = .closing)) (t : Thread) :
    (if Entry.addresses t kind entry = true then 1 else 0) + (if sendingOf (entry :: log) t = sending then 1 else 0) ≤
      if sendingOf log t = sending then 1 else 0 := by
  have hidle : Sending.idle ≠ sending := by rintro rfl; rcases hkind with ⟨-, h⟩ | ⟨-, h⟩ <;> cases h
  have haddressed {fd' : ℕ} {kind' : Kind} {opcode : UInt8} {payload : Bytes} :
      Sending.addressed fd' kind' opcode payload ≠ sending := by
    rintro rfl
    rcases hkind with ⟨-, h⟩ | ⟨-, h⟩ <;> cases h
  -- the frame that a thread was busy with is dealt with, and no other has been addressed
  have hdone {e : Entry} {t' : Thread} {x : Sending} (hcount : Entry.addresses t kind e = false)
      (he : e.sending t = if t = t' then some x else none) (hx : x ≠ sending) :
      (if Entry.addresses t kind e = true then 1 else 0) + (if sendingOf (e :: log) t = sending then 1 else 0) ≤
        if sendingOf log t = sending then 1 else 0 := by
    have hnext : sendingOf (e :: log) t = if t = t' then x else sendingOf log t := by
      change (e.sending t).getD _ = _
      rw [he]
      split_ifs <;> rfl
    rw [hcount, if_neg Bool.false_ne_true, Nat.zero_add]
    by_cases ht : t = t'
    · rw [hnext, if_pos ht, if_neg hx]
      exact Nat.zero_le _
    · rw [hnext, if_neg ht]
  cases entry with
  | opened | verified | finished | dropped => cases hentry
  | served fd' env =>
    obtain ⟨_, hverified⟩ := h
    cases hverified
  | checked t' authenticated =>
    obtain rfl : authenticated = false := h
    exact hdone rfl rfl hidle
  | sent | unsent => exact hdone rfl rfl hidle
  | addressed t' fd' kind' opcode payload =>
    obtain ⟨-, hentitled⟩ := h
    by_cases hsame : t' = t ∧ kind' = kind
    · obtain ⟨rfl, rfl⟩ := hsame
      have hwas : sendingOf log t' = sending := by
        rcases hkind with ⟨rfl, rfl⟩ | ⟨rfl, rfl⟩
        · exact hentitled
        · exact hentitled
      have hnow : sendingOf (.addressed t' fd' kind' opcode payload :: log) t' ≠ sending := by
        change Option.getD (if t' = t' then _ else _) _ ≠ _
        rw [if_pos rfl]
        exact haddressed
      have hcount : Entry.addresses t' kind' (.addressed t' fd' kind' opcode payload) = true :=
        decide_eq_true ⟨rfl, rfl⟩
      rw [if_pos hcount, if_neg hnow, if_pos hwas]
    · exact hdone (decide_eq_false hsame) rfl haddressed

/-- Each frame of these kinds uses up what the thread was entitled to it by, and before the client is verified
nothing entitles a thread anew. -/
theorem Legal.countP_addresses {later earlier : List Entry}
    (h : Legal hmac apiKey (later ++ .opened fd serverNonce :: earlier)) (hlater : ∀ e ∈ later, e.turns = false)
    {kind : Kind} {sending : Sending}
    (hkind : (kind = .event ∧ sending = .checked) ∨ (kind = .farewell ∧ sending = .closing)) (t : Thread) :
    later.countP (Entry.addresses t kind) +
        (if sendingOf (later ++ .opened fd serverNonce :: earlier) t = sending then 1 else 0) ≤
      if sendingOf earlier t = sending then 1 else 0 := by
  induction later with
  | nil =>
    have hidle : Sending.idle ≠ sending := by rintro rfl; rcases hkind with ⟨-, h⟩ | ⟨-, h⟩ <;> cases h
    rw [List.countP_nil, Nat.zero_add, List.nil_append]
    change (if (Option.getD (if t = .task fd then some Sending.idle else none) (sendingOf earlier t)) = sending
      then 1 else 0) ≤ _
    by_cases ht : t = .task fd
    · rw [if_pos ht, Option.getD_some, if_neg hidle]
      exact Nat.zero_le _
    · rw [if_neg ht, Option.getD_none]
  | cons entry later ih =>
    have hallowed := h.allowed_early fun e he => hlater e (List.mem_cons_of_mem entry he)
    have hstep := hallowed.addresses_le (hlater entry List.mem_cons_self) hkind t
    have hrest := ih h.2 fun e he => hlater e (List.mem_cons_of_mem entry he)
    rw [List.countP_cons, List.cons_append, Nat.add_assoc]
    exact (Nat.add_le_add_left hstep _).trans hrest

/-- Of the results that were owed when the session was opened, those that have gone out since are no
more than were owed. -/
theorem Legal.countP_carries {later earlier : List Entry}
    (h : Legal hmac apiKey (later ++ .opened fd serverNonce :: earlier)) (hlater : ∀ e ∈ later, e.turns = false) :
    later.countP (Entry.carries .configResult) + owedResults (later ++ .opened fd serverNonce :: earlier) ≤
      owedResults earlier := by
  induction later with
  | nil => exact (Nat.zero_add _).le
  | cons entry later ih =>
    have hallowed := h.allowed_early fun e he => hlater e (List.mem_cons_of_mem entry he)
    have hrest := ih h.2 fun e he => hlater e (List.mem_cons_of_mem entry he)
    have hentry := hlater entry List.mem_cons_self
    rw [List.countP_cons, List.cons_append]
    generalize hlog : later ++ .opened fd serverNonce :: earlier = log at hallowed hrest ⊢
    cases entry with
    | opened | verified | finished | dropped => cases hentry
    | served fd' env =>
      obtain ⟨_, hverified⟩ := hallowed
      cases hverified
    | checked | sent | unsent => exact hrest
    | addressed t fd' kind opcode payload =>
      obtain ⟨-, hentitled⟩ := hallowed
      change later.countP _ + (if decide _ = true then 1 else 0) + _ ≤ _
      by_cases hkind : kind = .configResult
      · subst hkind
        have howed : 0 < owedResults log := hentitled
        have hnext : owedResults (.addressed t fd' .configResult opcode payload :: log) = owedResults log - 1 := rfl
        rw [if_pos (decide_eq_true rfl), hnext]
        omega
      · have hnext : owedResults (.addressed t fd' kind opcode payload :: log) = owedResults log := by
          cases kind <;> first | rfl | exact absurd rfl hkind
        rw [decide_eq_false hkind, if_neg Bool.false_ne_true, hnext]
        exact hrest

/-- What is left over from earlier sessions is bounded: an event of each thread, a close frame of
each task, and the results that were owed. -/
theorem Legal.leftover {later earlier : List Entry}
    (h : Legal hmac apiKey (later ++ .opened fd serverNonce :: earlier)) (hlater : ∀ e ∈ later, e.turns = false) :
    Leftover earlier later where
  events t := (Nat.le_add_right _ _).trans (h.countP_addresses hlater (.inl ⟨rfl, rfl⟩) t)
  farewells t := (Nat.le_add_right _ _).trans (h.countP_addresses hlater (.inr ⟨rfl, rfl⟩) t)
  results := (Nat.le_add_right _ _).trans (h.countP_carries hlater)

end

/-! ## An answer counts once -/

/-- The nonces of the sessions. -/
def serverNonces (log : List Entry) : List (Octets 16) :=
  log.filterMap fun entry => match entry with
    | .opened _ serverNonce => some serverNonce
    | _ => none

/-- The HMACs that have been accepted. -/
def acceptedHmacs (log : List Entry) : List Bytes :=
  log.filterMap fun entry => match entry with
    | .verified _ response => some response.hmacSha256
    | _ => none

/-- What they were accepted for. -/
def acceptedInputs : List Entry → List Bytes
  | [] => []
  | .verified _ response :: log =>
    match phase log with
    | .opened _ serverNonce =>
      authInput clientKind serverNonce.bytes response.clientNonce :: acceptedInputs log
    | _ => acceptedInputs log
  | _ :: log => acceptedInputs log

section

variable {hmac : Bytes → Bytes → Octets 32} {apiKey : Bytes} {log : List Entry}

/-- The inputs for some of the nonces. -/
def For (nonces : List (Octets 16)) (m : Bytes) : Prop :=
  ∃ serverNonce ∈ nonces, ∃ clientNonce, m = authInput clientKind serverNonce.bytes clientNonce

/-- More nonces make more inputs. -/
theorem For.mono {nonces nonces' : List (Octets 16)} {m : Bytes} (h : For nonces m) (hsub : nonces ⊆ nonces') :
    For nonces' m := by
  obtain ⟨serverNonce, hmem, clientNonce, rfl⟩ := h
  exact ⟨serverNonce, hsub hmem, clientNonce, rfl⟩

/-- What has been accepted was for the nonces of the sessions, and for none of a session whose client is not
verified. -/
def Spent (log : List Entry) : Phase → Prop
  | .closed | .verified _ _ => ∀ m ∈ acceptedInputs log, For (serverNonces log) m
  | .opened _ serverNonce => ∃ rest, serverNonces log = serverNonce :: rest ∧ ∀ m ∈ acceptedInputs log, For rest m

/-- All that has been accepted was for the nonce of some session. -/
theorem Spent.all {p : Phase} (h : Spent log p) : ∀ m ∈ acceptedInputs log, For (serverNonces log) m := by
  cases p with
  | closed | verified => exact h
  | opened fd serverNonce =>
    obtain ⟨rest, hnonces, hall⟩ := h
    intro m hm
    rw [hnonces]
    exact (hall m hm).mono (List.subset_cons_self _ _)

/-- The induction over the log: what has been accepted is accounted for by the sessions, each with a
nonce of its own. -/
theorem Legal.spent (h : Legal hmac apiKey log) (hfresh : (serverNonces log).Nodup) :
    Spent log (phase log) ∧ (acceptedInputs log).Nodup ∧
      acceptedHmacs log = (acceptedInputs log).map fun m => (hmac apiKey m).bytes := by
  induction log with
  | nil => exact ⟨(fun m hm => by cases hm), List.nodup_nil, rfl⟩
  | cons entry log ih =>
    obtain ⟨hallowed, hlegal⟩ := h
    cases entry with
    | opened fd serverNonce =>
      have hnonces : serverNonces (.opened fd serverNonce :: log) = serverNonce :: serverNonces log := rfl
      rw [hnonces] at hfresh
      obtain ⟨hspent, hnodup, hhmacs⟩ := ih hlegal (List.nodup_cons.mp hfresh).2
      exact ⟨⟨serverNonces log, hnonces, hspent.all⟩, hnodup, hhmacs⟩
    | finished fd | dropped fd =>
      obtain ⟨hspent, hnodup, hhmacs⟩ := ih hlegal hfresh
      refine ⟨?_, hnodup, hhmacs⟩
      change Spent _ ((phase log).next _)
      cases phase log <;> exact hspent.all
    | served | checked | addressed | sent | unsent =>
      obtain ⟨hspent, hnodup, hhmacs⟩ := ih hlegal hfresh
      refine ⟨?_, hnodup, hhmacs⟩
      change Spent _ ((phase log).next _)
      cases hphase : phase log with
      | closed => rw [hphase] at hspent; exact hspent
      | opened fd serverNonce => rw [hphase] at hspent; exact hspent
      | verified fd serverNonce => rw [hphase] at hspent; exact hspent
    | verified fd response =>
      obtain ⟨hspent, hnodup, hhmacs⟩ := ih hlegal hfresh
      obtain ⟨serverNonce, hphase, hverified⟩ := hallowed
      rw [hphase] at hspent
      obtain ⟨rest, hnonces, hrest⟩ := hspent
      obtain ⟨-, -, hhmac⟩ := verifyAuthResponse_iff.mp hverified
      have hinputs : acceptedInputs (.verified fd response :: log) =
          authInput clientKind serverNonce.bytes response.clientNonce :: acceptedInputs log := by
        change (match phase log with | .opened _ n => _ | _ => _) = _
        rw [hphase]
      have hnext : phase (.verified fd response :: log) = .verified fd serverNonce := by
        change (phase log).next _ = _
        rw [hphase]
        rfl
      have hsame : serverNonces (.verified fd response :: log) = serverNonces log := rfl
      rw [hsame, hnonces] at hfresh
      have hfirst : serverNonce ∉ rest := (List.nodup_cons.mp hfresh).1
      refine ⟨?_, ?_, ?_⟩
      · rw [hnext]
        change ∀ m ∈ acceptedInputs _, For (serverNonces _) m
        rw [hinputs, hsame, hnonces, List.forall_mem_cons]
        refine ⟨⟨serverNonce, List.mem_cons_self, response.clientNonce, rfl⟩, fun m hm => ?_⟩
        exact (hrest m hm).mono (List.subset_cons_self _ _)
      · rw [hinputs, List.nodup_cons]
        refine ⟨fun hmem => ?_, hnodup⟩
        obtain ⟨serverNonce', hmem', clientNonce, heq⟩ := hrest _ hmem
        obtain ⟨rfl, -⟩ := authInput_inj heq
        exact hfirst hmem'
      · rw [hinputs, List.map_cons, ← hhmacs, ← hhmac]
        rfl

end

end Runtime

end EspTree
