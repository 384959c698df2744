import EspTree.Bridge.Contact
import EspTree.Lib.Clock

/-!
# When a silent leaf is offline

The loop takes an online leaf offline when the seconds that the clock shows are further from the seconds of
the last contact than the timeout.  The clock begins again at 0 in the middle of a second, 0 seconds stand
for no contact at all, and the timeout is a product in 32 bits.

`offline_exact_iff` says that the loop is right to within a second unless one of these three comes into
play (`Misjudges`), and that it is wrong in every case that is listed there.
-/

namespace EspTree

open Wire Clock Transition

namespace Bridge

/-! ## True times -/

/-- When the leaf was last heard, as long as it has a session. -/
def noteHeard (c : Crypto) (b : Bridge) (event : Nat × Call) (b' : Bridge) (last : Option Nat) : Option Nat :=
  if b'.session?.isNone then none else if b.hears c event.2 then some event.1 else last

/-- The bridge with the true time of the last accepted frame. -/
abbrev Listening := Timed Bridge (Option Nat)

def Listening.step (c : Crypto) (s : Listening) (event : Nat × Call) : Listening :=
  Timed.step (call c) (noteHeard c) s event

abbrev Listening.Timely (s : Listening) (event : Nat × Call) : Prop := Timed.Timely Call.now? s event

structure Listening.Start (s : Listening) : Prop where
  init : Init s.state
  mark : s.mark = none

abbrev ListeningReachable (c : Crypto) : Listening → Prop :=
  Reachable Listening.Start Listening.Timely (Listening.step c)

/-- The bridge when its loop comes to the sessions: the periodic cleanup is first. -/
def cleaned (e : Env) (b : Bridge) : Bridge := if e.evict then b.evict else b

/-- The contact timeout of the loop takes the leaf offline. -/
def timesOut (e : Env) (h : Hub) (x : Session) : Prop := (loopOffline e h (x.prune e)).2.online = false

instance (e : Env) (h : Hub) (x : Session) : Decidable (timesOut e h x) := inferInstanceAs (Decidable (_ = _))

/-! ## Timeouts -/

/-- `expected_contact_interval_s`, or what stands for it. -/
def contactIntervalS (h : Hub) (x : Session) : Nat :=
  if 0 < x.link.expectedContactIntervalS then x.link.expectedContactIntervalS.toNat
  else h.config.heartbeatInterval

/-- `timeout_ms` as it is meant: one heartbeat interval or three contact intervals, and five seconds. -/
def contactTimeoutMs (h : Hub) (x : Session) : Nat :=
  max (h.config.heartbeatInterval * 1000 + 5000) (contactIntervalS h x * 3000 + 5000)

/-- What 32 bits keep of it. -/
def keptTimeoutMs (h : Hub) (x : Session) : Nat :=
  max ((h.config.heartbeatInterval * 1000 + 5000) % period) ((contactIntervalS h x * 3000 + 5000) % period)

/-- The leaf is taken offline when its last contact is longer ago than the timeout, to within a second. -/
structure Exact (timeout last T : Nat) (offline : Prop) : Prop where
  late : offline → last + timeout < T + 1000
  prompt : last + timeout + 1000 ≤ T → offline

/-- The loops that are wrong, by the true times of the last contact and of the loop. -/
inductive Misjudges (timeout kept last T : Nat) : Prop
  /-- A contact in the first second of the clock does not count, and the leaf is never taken offline. -/
  | unseen (hfirst : seconds last = 0) (hdue : last + timeout + 1000 ≤ T)
  /-- The timeout does not fit into 32 bits, and what is left of it has passed. -/
  | overflow (hseen : seconds last ≠ 0) (hsame : last / period = T / period) (hlarge : period ≤ timeout)
      (hpassed : seconds last + kept / 1000 < seconds T)
  /-- The clock has wrapped and shows fewer seconds than at the contact, before the timeout. -/
  | wrapped (hseen : seconds last ≠ 0) (hwrap : last / period < T / period)
      (hback : seconds T < seconds last ∨ seconds last + kept / 1000 < seconds T)
      (hsoon : T + 1000 ≤ last + timeout)
  /-- The clock has wrapped and come to the seconds of the contact again, after the timeout. -/
  | returned (hseen : seconds last ≠ 0) (hwrap : last / period < T / period) (hagain : seconds last ≤ seconds T)
      (hnear : seconds T ≤ seconds last + kept / 1000) (hdue : last + timeout + 1000 ≤ T)

section

variable {c : Crypto} {e : Env} {h : Hub} {x y : Session} {b : Bridge} {s : Listening} {k : Call}
  {timeout kept last T : Nat} {offline : Prop}

/-- The product of interval and factor is taken in 32 bits, and the grace is added in 32 bits. -/
theorem toNat_wrapped (interval : Nat) (d : UInt32) :
    (UInt32.ofNat interval * d + offlineTimeoutGraceMs).toNat = (interval * d.toNat + 5000) % period := by
  have hgrace : offlineTimeoutGraceMs.toNat = 5000 := rfl
  rw [UInt32.toNat_add, UInt32.toNat_mul, UInt32.toNat_ofNat', hgrace]
  unfold period
  rw [Nat.mod_add_mod, Nat.add_mod (interval % 2 ^ 32 * d.toNat), Nat.mod_mul_mod, ← Nat.add_mod]

theorem toNat_max (s t : UInt32) : (max s t).toNat = max s.toNat t.toNat := by
  by_cases hle : s ≤ t
  · have hmax : max s t = t := if_pos hle
    rw [hmax, max_eq_right (UInt32.le_iff_toNat_le.1 hle)]
  · have hmax : max s t = s := if_neg hle
    rw [hmax, max_eq_left]
    rw [UInt32.le_iff_toNat_le] at hle
    omega

theorem toNat_offlineTimeoutMs : (offlineTimeoutMs h x).toNat = keptTimeoutMs h x := by
  have hexpected : (if 0 < x.link.expectedContactIntervalS then x.link.expectedContactIntervalS
      else UInt32.ofNat h.config.heartbeatInterval) = UInt32.ofNat (contactIntervalS h x) := by
    unfold contactIntervalS
    split
    · exact UInt32.ofNat_toNat.symm
    · rfl
  unfold offlineTimeoutMs keptTimeoutMs
  dsimp only
  rw [hexpected, toNat_max, toNat_wrapped, toNat_wrapped]
  rfl

theorem keptTimeoutMs_lt (h : Hub) (x : Session) : keptTimeoutMs h x < period :=
  max_lt (Nat.mod_lt _ (by decide)) (Nat.mod_lt _ (by decide))

/-- A timeout below the period of the clock is kept as it is. -/
theorem keptTimeoutMs_eq (hfits : contactTimeoutMs h x < period) : keptTimeoutMs h x = contactTimeoutMs h x := by
  obtain ⟨hshort, hlong⟩ := max_lt_iff.1 hfits
  unfold keptTimeoutMs
  rw [Nat.mod_eq_of_lt hshort, Nat.mod_eq_of_lt hlong]
  rfl

/-- The true timeout is a whole number of seconds. -/
theorem contactTimeoutMs_whole (h : Hub) (x : Session) : 1000 ∣ contactTimeoutMs h x := by
  unfold contactTimeoutMs
  rcases max_choice (h.config.heartbeatInterval * 1000 + 5000) (contactIntervalS h x * 3000 + 5000) with hmax | hmax <;>
    omega

/-! ## The verdict -/

theorem seconds_lt (t : Nat) : seconds t < 4294968 := by
  unfold seconds period
  omega

/-- The comparison that the loop makes, in true numbers. -/
theorem timesOut_iff (honline : x.online) (hseen : x.link.lastSeenUptimeS = reading last / 1000)
    (hnow : e.now = reading T) :
    timesOut e h x ↔ seconds last ≠ 0 ∧
      (seconds T < seconds last ∨ seconds last + keptTimeoutMs h x / 1000 < seconds T) := by
  have hlast : x.link.lastSeenUptimeS.toNat = seconds last := by rw [hseen, toNat_seconds]
  have hT : (e.now / 1000).toNat = seconds T := by rw [hnow, toNat_seconds]
  have htimeout : (offlineTimeoutMs h (x.prune e) / 1000).toNat = keptTimeoutMs h x / 1000 := by
    rw [UInt32.toNat_div, toNat_offlineTimeoutMs]
    rfl
  have hpositive : 0 < x.link.lastSeenUptimeS ↔ seconds last ≠ 0 := by
    rw [UInt32.lt_iff_toNat_lt, hlast]
    exact Nat.pos_iff_ne_zero
  have hfar : offlineTimeoutMs h (x.prune e) / 1000 < e.now / 1000 - x.link.lastSeenUptimeS ↔
      seconds T < seconds last ∨ seconds last + keptTimeoutMs h x / 1000 < seconds T := by
    have hkept := keptTimeoutMs_lt h x
    have hsmall := seconds_lt last
    rw [lt_sub_iff, hT, hlast, htimeout]
    · omega
    · unfold period at hkept
      omega
  unfold timesOut loopOffline
  split
  · next hsilent => exact iff_of_true rfl ⟨hpositive.1 hsilent.2.1, hfar.1 hsilent.2.2⟩
  · next hkeeps =>
    refine iff_of_false (fun hoff => ?_) fun hwrong => ?_
    · exact Bool.false_ne_true (hoff.symm.trans honline)
    · exact hkeeps ⟨honline, hpositive.2 hwrong.1, hfar.2 hwrong.2⟩

/-- The arithmetic behind the theorem: what the loop decides from whole seconds of two readings is
the true comparison, but for the cases that are listed. -/
theorem exact_iff (hle : last ≤ T) (hwhole : 1000 ∣ timeout) (hkept : timeout < period → kept = timeout)
    (hoffline : offline ↔ seconds last ≠ 0 ∧ (seconds T < seconds last ∨ seconds last + kept / 1000 < seconds T)) :
    Exact timeout last T offline ↔ ¬ Misjudges timeout kept last T := by
  constructor
  · rintro ⟨hlate, hprompt⟩ hwrong
    rw [hoffline] at hlate hprompt
    cases hwrong with
    | unseen hfirst hdue => exact (hprompt hdue).1 hfirst
    | overflow hseen hsame hlarge hpassed =>
      have hlate := hlate ⟨hseen, .inr hpassed⟩
      unfold seconds period at *
      omega
    | wrapped hseen hwrap hback hsoon =>
      have hlate := hlate ⟨hseen, hback⟩
      omega
    | returned hseen hwrap hagain hnear hdue =>
      have hprompt := (hprompt hdue).2
      omega
  · intro hright
    rw [hoffline]
    by_cases hsame : last / period = T / period
    · have hfits : timeout < period → last + kept = last + timeout := fun hsmall => by rw [hkept hsmall]
      refine ⟨fun ⟨hseen, hfar⟩ => ?_, fun hdue => ?_⟩
      · by_cases hlarge : period ≤ timeout
        · refine absurd (.overflow hseen hsame hlarge ?_) hright
          unfold seconds period at *
          omega
        · have hfits := hfits (by omega)
          unfold seconds period at *
          omega
      · have hseen : seconds last ≠ 0 := fun hfirst => hright (.unseen hfirst hdue)
        have hfits : last + kept = last + timeout := hfits (by unfold period at *; omega)
        refine ⟨hseen, .inr ?_⟩
        unfold seconds period at *
        omega
    · have hwrap : last / period < T / period :=
        lt_of_le_of_ne (Nat.div_le_div_right hle) hsame
      refine ⟨fun ⟨hseen, hback⟩ => ?_, fun hdue => ?_⟩
      · by_contra hsoon
        exact hright (.wrapped hseen hwrap hback (by omega))
      · have hseen : seconds last ≠ 0 := fun hfirst => hright (.unseen hfirst hdue)
        refine ⟨hseen, ?_⟩
        by_contra hagain
        exact hright (.returned hseen hwrap (by omega) (by omega) hdue)

/-! ## The invariant -/

/-- Without a session nothing was heard; else the time in the session is that of the last contact, and a
leaf that was never heard is not online. -/
structure Listening.Good (s : Listening) : Prop where
  absent : s.state.session? = none → s.mark = none
  unheard : s.mark = none →
    s.state.ensureSession.link.lastSeenUptimeS = 0 ∧ s.state.ensureSession.online = false
  heard : ∀ last ∈ s.mark, last ≤ s.clock ∧ s.state.ensureSession.link.lastSeenUptimeS = reading last / 1000

theorem Listening.Start.good (h : s.Start) : s.Good := by
  refine ⟨fun _ => h.mark, fun _ => ?_, fun last hlast => ?_⟩
  · unfold ensureSession
    rw [h.init.session]
    exact ⟨rfl, rfl⟩
  · rw [h.mark] at hlast
    cases hlast

/-- One event keeps what the session notes of its last contact in line with the true time. -/
theorem Listening.Good.step (h : s.Good) (htime : s.Timely (T, k)) : (s.step c (T, k)).Good := by
  obtain ⟨hclock, hnow⟩ := htime
  have hmark : (s.step c (T, k)).mark = noteHeard c s.state (T, k) (s.state.call c k) s.mark := rfl
  have hstate : (s.step c (T, k)).state = s.state.call c k := rfl
  unfold noteHeard at hmark
  cases hsession : (s.state.call c k).session? with
  | none =>
    rw [hsession] at hmark
    refine ⟨fun _ => hmark, fun _ => ?_, fun last hlast => ?_⟩
    · rw [hstate, ensureSession, hsession]
      exact ⟨rfl, rfl⟩
    · rw [hmark] at hlast
      cases hlast
  | some y =>
    obtain ⟨hseen, honline⟩ := call_contact s.state k hnow hsession
    have hy : (s.step c (T, k)).state.ensureSession = y := by rw [hstate, ensureSession, hsession]; rfl
    rw [hsession] at hmark
    dsimp only [Option.isNone_some] at hmark
    refine ⟨fun hnone => ?_, fun hnone => ?_, fun last hlast => ?_⟩
    · cases hsession.symm.trans hnone
    · rw [hy]
      rw [hmark] at hnone
      cases hhears : s.state.hears c k with
      | true =>
        rw [hhears] at hnone
        cases hnone
      | false =>
        rw [hhears] at hnone hseen honline
        obtain ⟨hzero, hoff⟩ := h.unheard hnone
        refine ⟨hseen.trans hzero, Bool.eq_false_iff.2 fun hon => ?_⟩
        rcases honline hon with hbefore | hheard
        · exact Bool.false_ne_true (hoff.symm.trans hbefore)
        · cases hheard
    · rw [hy]
      rw [hmark] at hlast
      cases hhears : s.state.hears c k with
      | true =>
        rw [hhears] at hlast hseen
        cases hlast
        exact ⟨le_rfl, hseen⟩
      | false =>
        rw [hhears] at hlast hseen
        obtain ⟨hpast, hbefore⟩ := h.heard last hlast
        exact ⟨hpast.trans hclock, hseen.trans hbefore⟩

/-- So it is in every state of a run. -/
theorem ListeningReachable.good (hs : ListeningReachable c s) : s.Good :=
  hs.invariant (fun _ hstart => hstart.good) fun _ _ h htime => h.step htime

/-- The cleanup before the loop drops the session or leaves it as it is. -/
theorem cleaned_session (hx : (cleaned e b).session? = some x) : b.session? = some x := by
  unfold cleaned at hx
  split at hx
  · cases (evict_session b).symm.trans hx
  · exact hx

end

/-! ## The timeout -/

/-- In every run, for every online session that the loop comes to: the leaf has been heard, and the loop
takes it offline exactly when its last contact is longer ago than the timeout, unless the loop is one of those
in `Misjudges`, and then it does not. -/
theorem offline_exact_iff (c : Crypto) (s : Listening) (hs : ListeningReachable c s) (T : Nat) (e : Env)
    (htime : s.Timely (T, .loop e)) (x : Session) (hx : (cleaned e s.state).session? = some x)
    (honline : x.online) :
    ∃ last, s.mark = some last ∧
      (Exact (contactTimeoutMs s.state.hub x) last T (timesOut e s.state.hub x) ↔
        ¬ Misjudges (contactTimeoutMs s.state.hub x) (keptTimeoutMs s.state.hub x) last T) := by
  have h := hs.good
  obtain ⟨hclock, hnow⟩ := htime
  have hensured : s.state.ensureSession = x := by rw [ensureSession, cleaned_session hx]; rfl
  cases hmark : s.mark with
  | none =>
    have hoff := (h.unheard hmark).2
    rw [hensured] at hoff
    exact absurd (hoff.symm.trans honline) Bool.false_ne_true
  | some last =>
    obtain ⟨hpast, hseen⟩ := h.heard last hmark
    rw [hensured] at hseen
    refine ⟨last, rfl, exact_iff (hpast.trans hclock) (contactTimeoutMs_whole _ _) keptTimeoutMs_eq ?_⟩
    exact timesOut_iff honline hseen (hnow _ rfl)

/-! ## Two leaves -/

/-- The bridge before its first call. -/
def listeningSample : Listening := ⟨sample, 0, none⟩

theorem listeningSample_start : listeningSample.Start := ⟨sample_init, rfl⟩

/-- A leaf joins, and is heard last 200 milliseconds after `now`. -/
def joinCallsAt (now : UInt32) : List Call :=
  [receives now (joinFrom 1 0 1), receives (now + 100) (sealedFrom .schemaPush 1 2 identityPush),
    receives (now + 200) (heartbeatFrom 1 3)]

def joinedAt (now : UInt32) : Listening :=
  runFrom (Listening.step .sample) listeningSample ((joinCallsAt now).map (atReading Call.now?))

theorem joinedAt_reachable {now : UInt32} (hfirst : now.toNat ≤ (now + 100).toNat)
    (hsecond : (now + 100).toNat ≤ (now + 200).toNat) : ListeningReachable .sample (joinedAt now) := by
  have hstart : ListeningReachable .sample listeningSample := .start listeningSample_start
  exact hstart.runFrom ⟨Timed.timely_atReading (Nat.zero_le _), Timed.timely_atReading hfirst,
    Timed.timely_atReading hsecond, trivial⟩

theorem cleaned_eq {e : Env} (hkept : e.evict = false) (b : Bridge) : cleaned e b = b := by
  unfold cleaned
  rw [hkept]
  rfl

theorem ensureSession_eq {b : Bridge} (hsome : b.session?.isSome) : b.session? = some b.ensureSession := by
  unfold ensureSession
  obtain ⟨x, hx⟩ := Option.isSome_iff_exists.1 hsome
  rw [hx]
  rfl

/-- A leaf that was heard last at 1200 ms. -/
def earlyJoined : Listening := joinedAt 1000

theorem earlyJoined_spec : earlyJoined.state.session?.isSome ∧ earlyJoined.state.ensureSession.online ∧
    earlyJoined.clock ≤ 200000 ∧ earlyJoined.mark = some 1200 ∧
    contactTimeoutMs earlyJoined.state.hub earlyJoined.state.ensureSession = 185000 := by decide +kernel

/-- It is offline after more than 185 s. -/
theorem offline_exact_earlyJoined :
    contactTimeoutMs earlyJoined.state.hub earlyJoined.state.ensureSession = 185000 ∧
      earlyJoined.mark = some 1200 ∧
      timesOut (sampleEnv 200000) earlyJoined.state.hub earlyJoined.state.ensureSession := by
  obtain ⟨hsome, honline, hclock, hmark, htimeout⟩ := earlyJoined_spec
  have hsession : (cleaned (sampleEnv 200000) earlyJoined.state).session? =
      some earlyJoined.state.ensureSession := by
    rw [cleaned_eq rfl]
    exact ensureSession_eq hsome
  have hreachable : ListeningReachable .sample earlyJoined := joinedAt_reachable (by decide) (by decide)
  have htime : earlyJoined.Timely (atReading Call.now? (.loop (sampleEnv 200000))) :=
    Timed.timely_atReading hclock
  obtain ⟨last, hlast, hiff⟩ := offline_exact_iff .sample earlyJoined hreachable 200000 (sampleEnv 200000)
    htime earlyJoined.state.ensureSession hsession honline
  cases hmark.symm.trans hlast
  rw [htimeout] at hiff
  have hexact : Exact 185000 1200 200000
      (timesOut (sampleEnv 200000) earlyJoined.state.hub earlyJoined.state.ensureSession) := by
    refine hiff.2 fun hwrong => ?_
    cases hwrong with
    | unseen hfirst => exact absurd hfirst (by decide)
    | overflow _ _ hlarge => exact absurd hlarge (by decide)
    | wrapped _ hwrap => exact absurd hwrap (by decide)
    | returned _ hwrap => exact absurd hwrap (by decide)
  exact ⟨htimeout, hmark, hexact.prompt (by decide)⟩

/-- A leaf that was heard 296 ms before the clock wraps. -/
def lateJoined : Listening := joinedAt 4294966800

theorem lateJoined_spec : lateJoined.state.session?.isSome ∧ lateJoined.state.ensureSession.online ∧
    lateJoined.clock = 4294967000 ∧ lateJoined.mark = some 4294967000 ∧
    contactTimeoutMs lateJoined.state.hub lateJoined.state.ensureSession = 185000 ∧
    (lateJoined.state.loop .sample (sampleEnv 100)).session?.map Session.online = some false ∧
    timesOut (sampleEnv 100) lateJoined.state.hub lateJoined.state.ensureSession := by decide +kernel

/-- It is offline 100 ms after the wrap. -/
theorem offline_atOnce_lateJoined :
    ListeningReachable .sample lateJoined ∧ lateJoined.Timely (4294967396, .loop (sampleEnv 100)) ∧
      (cleaned (sampleEnv 100) lateJoined.state).session? = some lateJoined.state.ensureSession ∧
      lateJoined.state.ensureSession.online = true ∧ lateJoined.mark = some 4294967000 ∧
      contactTimeoutMs lateJoined.state.hub lateJoined.state.ensureSession = 185000 ∧
      (lateJoined.state.loop .sample (sampleEnv 100)).session?.map Session.online = some false ∧
      ¬ Exact 185000 4294967000 4294967396
        (timesOut (sampleEnv 100) lateJoined.state.hub lateJoined.state.ensureSession) := by
  obtain ⟨hsome, honline, hclock, hmark, htimeout, hafter, hoff⟩ := lateJoined_spec
  have hsession : (cleaned (sampleEnv 100) lateJoined.state).session? = some lateJoined.state.ensureSession := by
    rw [cleaned_eq rfl]
    exact ensureSession_eq hsome
  have hreachable : ListeningReachable .sample lateJoined := joinedAt_reachable (by decide) (by decide)
  have htime : lateJoined.Timely (4294967396, .loop (sampleEnv 100)) := by
    refine ⟨?_, fun now hnow => ?_⟩
    · rw [hclock]
      decide
    · cases hnow
      decide
  refine ⟨hreachable, htime, hsession, honline, hmark, htimeout, hafter, fun hexact => ?_⟩
  have hlate := hexact.late hoff
  omega

end Bridge

end EspTree
