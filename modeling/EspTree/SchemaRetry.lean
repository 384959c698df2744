import EspTree.Bridge.Wait
import EspTree.Contact

/-!
# Asking for a schema again

After a `JOIN` with an unknown schema hash the bridge asks for the descriptors one by one, and its loop
repeats a request that was not answered.  It does so only while the leaf is online and the time of the last
request is not 0.  But a leaf that joins is not online yet, a leaf that is taken offline keeps its request in
flight, and every fragment sets the time to 0.

`retries_iff` says for every state of every run which waiting sessions the loop moves on, and that it
leaves all others waiting.
-/

namespace EspTree

open Wire OtaManager Clock Transition

namespace Bridge

/-! ## Runs -/

/-- A schema request that was sent, or a fragment of the schema that was stored and followed by none. -/
structure Progress where
  time : Nat
  request : Bool
  deriving DecidableEq

/-- The last of these, as long as there is a session. -/
def noteProgress (c : Crypto) (b : Bridge) (event : Nat × Call) (b' : Bridge) (last : Option Progress) :
    Option Progress :=
  if b'.session?.isNone then none
  else if b.hub.requests < b'.hub.requests then some ⟨event.1, true⟩
  else if b.hearsSchema c event.2 then some ⟨event.1, false⟩
  else last

/-- The bridge with the progress of the schema. -/
abbrev Asking := Timed Bridge (Option Progress)

def Asking.step (c : Crypto) (s : Asking) (event : Nat × Call) : Asking :=
  Timed.step (call c) (noteProgress c) s event

abbrev Asking.Timely (s : Asking) (event : Nat × Call) : Prop := Timed.Timely Call.now? s event

structure Asking.Start (s : Asking) : Prop where
  init : Init s.state
  mark : s.mark = none

abbrev AskingReachable (c : Crypto) : Asking → Prop := Reachable Asking.Start Asking.Timely (Asking.step c)

/-- The session waits for its schema. -/
structure Session.Waits (x : Session) : Prop where
  valid : x.sessionKeyValid
  flight : x.schema.requestInFlight
  received : x.schema.received = false

/-- The largest entry of `RETRY_BACKOFF_MS` and the largest jitter. -/
def maxRetryDelayMs : Nat := 1700

/-- The loop sends a schema request, or leaves no session with one in flight. -/
def MovesOn (c : Crypto) (e : Env) (b : Bridge) : Prop :=
  b.hub.requests < (b.loop c e).hub.requests ∨
    ∀ y, (b.loop c e).session? = some y → y.schema.requestInFlight = false

/-- The sessions that the loop can move on. -/
structure Retriable (e : Env) (h : Hub) (x : Session) (last : Progress) (T : Nat) : Prop where
  /-- The last that came was no fragment. -/
  request : last.request
  /-- The request was not sent in the millisecond that the clock shows as 0. -/
  nonzero : last.time % period ≠ 0
  online : x.online
  /-- The contact timeout does not come first in the same loop. -/
  heard : ¬ timesOut e h x
  /-- When the loop is later than a period, the back-off has passed since its reading was last shown. -/
  again : last.time + period ≤ T →
    (retryDelayMs x.schema.requestRetries (e.random 0)).toNat ≤ (T - last.time) % period

/-! ## The invariant -/

/-- What a waiting session has of its progress. -/
structure Asking.Good (s : Asking) : Prop where
  ordered : (waitOf s.state.hub s.state.ensureSession).Ordered
  progress : (waitOf s.state.hub s.state.ensureSession).Pending → ∃ last, s.mark = some last ∧
    last.time ≤ s.clock ∧ (waitOf s.state.hub s.state.ensureSession).lastRequestMs =
      if last.request then reading last.time else 0

section

variable {c : Crypto} {e : Env} {h : Hub} {x y : Session} {b : Bridge} {s : Asking} {k : Call}
  {last : Progress} {T : Nat}

theorem Asking.Good.absent (hnone : s.state.session? = none) : s.Good := by
  have hfresh : s.state.ensureSession = { leafMac := s.state.leafMac } := by
    unfold ensureSession
    rw [hnone]
    rfl
  refine ⟨?_, fun hpending => ?_⟩
  · rw [hfresh]
    exact nofun
  · rw [hfresh] at hpending
    exact absurd hpending.1 Bool.false_ne_true

/-- One event keeps the history in line with the session: what was last, a request or a fragment,
and when. -/
theorem Asking.Good.step (h : s.Good) (htime : s.Timely (T, k)) : (s.step c (T, k)).Good := by
  obtain ⟨hclock, hnow⟩ := htime
  have hstate : (s.step c (T, k)).state = s.state.call c k := rfl
  have hmark : (s.step c (T, k)).mark = noteProgress c s.state (T, k) (s.state.call c k) s.mark := rfl
  cases hsession : (s.state.call c k).session? with
  | none => exact .absent hsession
  | some y =>
    have hturn := call_turn s.state k hnow hsession
    refine ⟨?_, fun hpending => ?_⟩
    · rw [hstate, ensureSession_of hsession]
      exact hturn.ordered h.ordered
    rw [hstate, ensureSession_of hsession] at hpending ⊢
    have hlast := hturn.last hpending
    unfold noteProgress at hmark
    rw [hsession] at hmark
    dsimp only [Option.isNone_some] at hmark
    rw [if_neg Bool.false_ne_true] at hmark
    change if s.state.hub.requests < (s.state.call c k).hub.requests then _ else _ at hlast
    split at hlast
    · next hmore =>
      rw [if_pos hmore] at hmark
      exact ⟨_, hmark, le_rfl, hlast⟩
    next hmore =>
    rw [if_neg hmore] at hmark
    cases hstored : s.state.hearsSchema c k with
    | true =>
      rw [hstored] at hmark hlast
      exact ⟨_, hmark, le_rfl, hlast⟩
    | false =>
      rw [hstored] at hmark hlast
      obtain ⟨hbefore, hkept⟩ := hlast
      obtain ⟨last, hsome, hpast, hms⟩ := h.progress hbefore
      exact ⟨last, hmark.trans hsome, hpast.trans hclock, hkept.trans hms⟩

/-- So it is in every state of a run. -/
theorem AskingReachable.good (hs : AskingReachable c s) : s.Good :=
  hs.invariant (fun _ hstart => .absent hstart.init.session) fun _ _ h htime => h.step htime

/-! ## One loop -/

/-- No back-off is longer than the largest, with its jitter. -/
theorem retryDelayMs_le (n : UInt8) (random : UInt32) : (retryDelayMs n random).toNat ≤ maxRetryDelayMs := by
  have hbackoff : ([200, 400, 800, 1600].getD (min n.toNat 3) (1600 : UInt32)).toNat ≤ 1600 := by
    have hindex : min n.toNat 3 = 0 ∨ min n.toNat 3 = 1 ∨ min n.toNat 3 = 2 ∨ min n.toNat 3 = 3 := by omega
    rcases hindex with h | h | h | h <;> rw [h] <;> decide
  have hjitter : (random % 101).toNat ≤ 100 := by
    have hmod := UInt32.toNat_mod random 101
    have hhundred : (101 : UInt32).toNat = 101 := rfl
    rw [hmod, hhundred]
    omega
  have hadd := UInt32.toNat_add ([200, 400, 800, 1600].getD (min n.toNat 3) 1600) (random % 101)
  unfold retryDelayMs maxRetryDelayMs
  rw [hadd]
  exact (Nat.mod_le _ _).trans (by omega)

/-- The back-off has passed on the clock. -/
theorem due_iff (hpast : last.time ≤ T) (hlong : last.time + maxRetryDelayMs ≤ T) (hnow : e.now = reading T) :
    retryDelayMs x.schema.requestRetries (e.random 0) ≤ e.now - reading last.time ↔
      (last.time + period ≤ T →
        (retryDelayMs x.schema.requestRetries (e.random 0)).toNat ≤ (T - last.time) % period) := by
  have hdelay := retryDelayMs_le x.schema.requestRetries (e.random 0)
  rw [UInt32.le_iff_toNat_le, hnow, toNat_sub_mod hpast]
  constructor
  · exact fun hdue _ => hdue
  · intro hdue
    by_cases hfar : last.time + period ≤ T
    · exact hdue hfar
    · rw [Nat.mod_eq_of_lt (by omega)]
      omega

/-- The retry is taken if the session can be moved on, and else it is not. -/
theorem loopSchemaRequest_eq (hwaits : x.Waits) (hpast : last.time ≤ T)
    (hlong : last.time + maxRetryDelayMs ≤ T) (hnow : e.now = reading T)
    (hlast : x.schema.lastRequestMs = if last.request then reading last.time else 0) :
    (x.online ∧ ¬ x.schema.received ∧ x.schema.requestInFlight ∧ 0 < x.schema.lastRequestMs ∧
      retryDelayMs x.schema.requestRetries (e.random 0) ≤ e.now - x.schema.lastRequestMs) ↔
    x.online ∧ last.request ∧ last.time % period ≠ 0 ∧ (last.time + period ≤ T →
        (retryDelayMs x.schema.requestRetries (e.random 0)).toNat ≤ (T - last.time) % period) := by
  have hreceived : ¬ x.schema.received := Bool.eq_false_iff.1 hwaits.received
  cases hrequest : last.request with
  | false =>
    rw [hrequest] at hlast
    have hzero : ¬ 0 < x.schema.lastRequestMs := by
      rw [hlast, if_neg Bool.false_ne_true]
      decide
    exact iff_of_false (fun h => hzero h.2.2.2.1) fun h => Bool.false_ne_true h.2.1
  | true =>
    rw [hrequest, if_pos rfl] at hlast
    have hset : 0 < x.schema.lastRequestMs ↔ last.time % period ≠ 0 := by
      rw [hlast, UInt32.lt_iff_toNat_lt, toNat_reading]
      exact Nat.pos_iff_ne_zero
    have hdue := due_iff (e := e) (x := x) hpast hlong hnow
    rw [← hlast] at hdue
    rw [hset, hdue]
    have hflight := hwaits.flight
    tauto

/-- Taking a leaf offline leaves its request in flight. -/
theorem loopOffline_schema : (loopOffline e h (x.prune e)).2.schema = x.schema := by
  unfold loopOffline
  split <;> rfl

/-- The leaf is online after that exactly if it was and has not timed out. -/
theorem loopOffline_online : (loopOffline e h (x.prune e)).2.online = true ↔ x.online ∧ ¬ timesOut e h x := by
  unfold timesOut
  rw [Bool.not_eq_false]
  refine ⟨fun honline => ⟨?_, honline⟩, And.right⟩
  have hcontact : Contact 0 false (x.prune e) (loopOffline e h (x.prune e)).2 := loopOffline_contact
  have hbefore := hcontact.online honline
  exact hbefore.resolve_right nofun

/-- A retry sends a request, or leaves none in flight. -/
theorem loopSchemaRequest_moves_on (hguard : x.online ∧ ¬ x.schema.received ∧ x.schema.requestInFlight ∧
      0 < x.schema.lastRequestMs ∧
      retryDelayMs x.schema.requestRetries (e.random 0) ≤ e.now - x.schema.lastRequestMs) :
    h.requests < (loopSchemaRequest c e h x).1.requests ∨
      (loopSchemaRequest c e h x).2.schema.requestInFlight = false := by
  unfold loopSchemaRequest
  rw [if_pos hguard]
  split
  · obtain ⟨more, hwait, hmore⟩ := wait_requestSchema (c := c) (e := e) (h := h)
      (x := { x with schema := { x.schema with requestRetries := x.schema.requestRetries + 1 } })
      x.link.nextHopMac x.schema.pendingDescriptorType x.schema.pendingIndex _ rfl
    have hrequests := congrArg Wait.requests hwait
    have hflight := congrArg Wait.inFlight hwait
    dsimp only at hrequests hflight ⊢
    cases hsent : (requestSchema c e h x.link.nextHopMac
        { x with schema := { x.schema with requestRetries := x.schema.requestRetries + 1 } }
        x.schema.pendingDescriptorType x.schema.pendingIndex).2.2 with
    | false => exact .inr (hflight.trans hsent)
    | true => exact .inl ((Nat.lt_add_of_pos_right (hmore hsent)).trans_eq hrequests.symm)
  · exact .inr rfl

/-- What the loop does to the request of a session that it keeps. -/
theorem loop_moves_on (hevict : e.evict = false) (hcritical : e.evictCritical = false)
    (hx : b.session? = some x) (hwaits : x.Waits) (hordered : (waitOf b.hub x).Ordered) :
    MovesOn c e b ↔
      (x.online ∧ ¬ timesOut e b.hub x) ∧ ¬ x.schema.received ∧ x.schema.requestInFlight ∧
        0 < x.schema.lastRequestMs ∧
        retryDelayMs x.schema.requestRetries (e.random 0) ≤ e.now - x.schema.lastRequestMs := by
  obtain ⟨y, hy⟩ := loop_some (c := c) hevict hcritical hx
  obtain ⟨z, -, -, hz, hwait⟩ := loop_wait b hy
  cases hx.symm.trans hz
  have hrests := loopSession_rests (c := c) (e := e) (h := b.hub) (x := x)
  rw [← hwait] at hrests
  have hoffline : waitOf (loopOffline e b.hub (x.prune e)).1 (loopOffline e b.hub (x.prune e)).2 =
    waitOf b.hub x := loopOffline_wait
  have hrequests : (loopOffline e b.hub (x.prune e)).1.requests = b.hub.requests :=
    congrArg Wait.requests hoffline
  have hmoves : MovesOn c e b ↔ b.hub.requests < (b.loop c e).hub.requests ∨
      y.schema.requestInFlight = false := by
    refine or_congr_right ⟨fun h => h y hy, fun hflight y' hy' => ?_⟩
    cases hy.symm.trans hy'
    exact hflight
  rw [hmoves, ← loopOffline_online, ← loopOffline_schema (e := e) (h := b.hub) (x := x)]
  generalize loopOffline e b.hub (x.prune e) = offline at hrests hoffline hrequests ⊢
  constructor
  · intro hmoved
    by_contra hguard
    have hsame : loopSchemaRequest c e offline.1 offline.2 = offline := if_neg hguard
    rw [hsame, hoffline] at hrests
    have hcomplete := (hordered hwaits.valid hwaits.received).1
    rcases hmoved with hmore | hdown
    · exact hmore.ne hrests.requests.symm
    · rcases hrests.flight with hkept | ⟨-, hdone⟩
      · exact Bool.false_ne_true (hdown.symm.trans (hkept.trans hwaits.flight))
      · exact Bool.false_ne_true (hcomplete.symm.trans hdone)
  · intro hguard
    rcases loopSchemaRequest_moves_on (c := c) (h := offline.1) hguard with hmore | hdown
    · rw [hrequests] at hmore
      exact .inl (hmore.trans_eq hrests.requests.symm)
    · refine .inr ?_
      rcases hrests.flight with hkept | ⟨hlanded, -⟩
      · exact hkept.trans hdown
      · exact hlanded

end

/-! ## The retry -/

/-- In every run, for every session that waits for its schema when the loop comes to it: a request or a
fragment has come before, and once the largest back-off has passed since, the loop sends a request or clears
the one in flight if and only if the session is evicted in this loop, or the leaf is online and stays so,
and a request was the last, at a time that the clock does not show as 0. -/
theorem retries_iff (c : Crypto) (s : Asking) (hs : AskingReachable c s) (T : Nat) (e : Env)
    (htime : s.Timely (T, .loop e)) (x : Session) (hx : (cleaned e s.state).session? = some x)
    (hwaits : x.Waits) :
    ∃ last, s.mark = some last ∧ (last.time + maxRetryDelayMs ≤ T →
      (MovesOn c e s.state ↔ e.evictCritical ∨ Retriable e s.state.hub x last T)) := by
  have h := hs.good
  obtain ⟨hclock, hnow⟩ := htime
  have hevict : e.evict = false := by
    cases hevict : e.evict with
    | false => rfl
    | true =>
      rw [cleaned, hevict, if_pos rfl, evict_session] at hx
      cases hx
  have hx := cleaned_session hx
  have hensured := ensureSession_of hx
  have hordered := h.ordered
  have hprogress := h.progress
  rw [hensured] at hordered hprogress
  obtain ⟨last, hmark, hpast, hms⟩ := hprogress ⟨hwaits.valid, hwaits.flight, hwaits.received⟩
  refine ⟨last, hmark, fun hlong => ?_⟩
  cases hcritical : e.evictCritical with
  | true =>
    refine iff_of_true (.inr fun y hy => ?_) (.inl rfl)
    obtain ⟨-, -, hkept, -⟩ := loop_wait s.state hy
    exact absurd (hkept.symm.trans hcritical) Bool.false_ne_true
  | false =>
    have hloop := loop_moves_on (c := c) hevict hcritical hx hwaits hordered
    have hguard := loopSchemaRequest_eq hwaits (hpast.trans hclock) hlong (hnow _ rfl) hms
    rw [hloop]
    constructor
    · rintro ⟨⟨honline, hheard⟩, hrest⟩
      obtain ⟨-, hrequest, hnonzero, hagain⟩ := hguard.1 ⟨honline, hrest⟩
      exact .inr ⟨hrequest, hnonzero, honline, hheard, hagain⟩
    · rintro (hfalse | hretry)
      · cases hfalse
      · obtain ⟨-, hrest⟩ := hguard.2 ⟨hretry.online, hretry.request, hretry.nonzero, hretry.again⟩
        exact ⟨⟨hretry.online, hretry.heard⟩, hrest⟩

/-! ## Two leaves -/

/-- The bridge before its first call. -/
def askingSample : Asking := ⟨sample, 0, none⟩

theorem askingSample_reachable : AskingReachable .sample askingSample := .start ⟨sample_init, rfl⟩

/-- A `JOIN` with a schema that the bridge does not know. -/
def joinAnew : Bytes :=
  (plain .sample sample.leafMac .join (hopsMake 0 1) 4 none
    (Join.bytes ⟨Octets.fit 16 [2], Octets.fit 32 [5], 0, 0, 0⟩)).bytes

/-- A leaf that is online joins again. -/
def rejoinedLeaf : Asking :=
  runFrom (Asking.step .sample) askingSample
    ((joinCallsAt 1000 ++ [receives 5000 joinAnew]).map (atReading Call.now?))

theorem rejoinedLeaf_reachable : AskingReachable .sample rejoinedLeaf :=
  askingSample_reachable.runFrom ⟨Timed.timely_atReading (by decide), Timed.timely_atReading (by decide),
    Timed.timely_atReading (by decide), Timed.timely_atReading (by decide), trivial⟩

/-- A new leaf joins. -/
def newLeaf : Asking :=
  runFrom (Asking.step .sample) askingSample [atReading Call.now? (receives 1000 (joinFrom 1 0 1))]

theorem newLeaf_reachable : AskingReachable .sample newLeaf :=
  askingSample_reachable.runFrom ⟨Timed.timely_atReading (by decide), trivial⟩

theorem rejoinedLeaf_spec : rejoinedLeaf.state.session?.isSome ∧ rejoinedLeaf.clock ≤ 7000 ∧
    rejoinedLeaf.mark = some ⟨5000, true⟩ ∧ rejoinedLeaf.state.ensureSession.sessionKeyValid ∧
    rejoinedLeaf.state.ensureSession.schema.requestInFlight ∧
    rejoinedLeaf.state.ensureSession.schema.received = false ∧ rejoinedLeaf.state.ensureSession.online ∧
    ¬ timesOut (sampleEnv 7000) rejoinedLeaf.state.hub rejoinedLeaf.state.ensureSession := by decide +kernel

/-- The request to the first leaf is repeated two seconds later. -/
theorem retries_rejoinedLeaf :
    rejoinedLeaf.mark = some ⟨5000, true⟩ ∧ MovesOn .sample (sampleEnv 7000) rejoinedLeaf.state := by
  obtain ⟨hsome, hclock, hmark, hvalid, hflight, hreceived, honline, hheard⟩ := rejoinedLeaf_spec
  have hsession : (cleaned (sampleEnv 7000) rejoinedLeaf.state).session? =
      some rejoinedLeaf.state.ensureSession := by
    rw [cleaned_eq rfl]
    exact ensureSession_eq hsome
  have htime : rejoinedLeaf.Timely (atReading Call.now? (.loop (sampleEnv 7000))) :=
    Timed.timely_atReading hclock
  obtain ⟨last, hlast, hiff⟩ := retries_iff .sample rejoinedLeaf rejoinedLeaf_reachable 7000 (sampleEnv 7000)
    htime rejoinedLeaf.state.ensureSession hsession ⟨hvalid, hflight, hreceived⟩
  cases hmark.symm.trans hlast
  have hretry : Retriable (sampleEnv 7000) rejoinedLeaf.state.hub rejoinedLeaf.state.ensureSession
      ⟨5000, true⟩ 7000 :=
    ⟨rfl, by decide, honline, hheard, fun hfar => absurd hfar (by decide)⟩
  exact ⟨hmark, (hiff (by decide)).2 (.inr hretry)⟩

theorem newLeaf_spec : newLeaf.state.session?.isSome ∧ newLeaf.clock ≤ 10000 ∧
    newLeaf.mark = some ⟨1000, true⟩ ∧ newLeaf.state.ensureSession.sessionKeyValid ∧
    newLeaf.state.ensureSession.schema.requestInFlight ∧
    newLeaf.state.ensureSession.schema.received = false ∧
    ¬ newLeaf.state.hub.requests < (newLeaf.state.loop .sample (sampleEnv 10000)).hub.requests ∧
    (newLeaf.state.loop .sample (sampleEnv 10000)).session?.map (·.schema.requestInFlight) = some true := by
  decide +kernel

/-- The request to the second is not, and stays in flight. -/
theorem not_retries_newLeaf :
    AskingReachable .sample newLeaf ∧ newLeaf.Timely (10000, .loop (sampleEnv 10000)) ∧
      newLeaf.state.session? = some newLeaf.state.ensureSession ∧ newLeaf.state.ensureSession.Waits ∧
      newLeaf.mark = some ⟨1000, true⟩ ∧ 1000 + maxRetryDelayMs ≤ 10000 ∧
      ¬ MovesOn .sample (sampleEnv 10000) newLeaf.state := by
  obtain ⟨hsome, hclock, hmark, hvalid, hflight, hreceived, hquiet, hafter⟩ := newLeaf_spec
  have htime : newLeaf.Timely (atReading Call.now? (.loop (sampleEnv 10000))) := Timed.timely_atReading hclock
  refine ⟨newLeaf_reachable, htime, ensureSession_eq hsome, ⟨hvalid, hflight, hreceived⟩, hmark, by decide, ?_⟩
  rintro (hmore | hdown)
  · exact hquiet hmore
  · obtain ⟨y, hy, htrue⟩ := Option.map_eq_some_iff.1 hafter
    exact Bool.false_ne_true ((hdown y hy).symm.trans htrue)

end Bridge

end EspTree
