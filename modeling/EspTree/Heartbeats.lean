import EspTree.Lib.Clock
import EspTree.Mode
import EspTree.Remote.Heartbeat

/-!
# How often a leaf sends its heartbeat

`heartbeat_due_ms_` is a time of the wrapping clock, and the loop compares it with `>=`.  When the time that
is due lies beyond the next wrap, the comparison holds at once: the loop sends a heartbeat every time and
never comes to its entity states.

`heartbeat_spacing` says that this does not happen otherwise: as long as a leaf stays normal, the heartbeats
of its loop are `heartbeat_interval_` apart, and a loop that is early goes on to the states.

Time is true time here, and the clock shows it modulo its period (`Paced.Timely`).  A history keeps
when the last heartbeat was sent and when the next one is due, so that the spacing can be stated at
all.

`Paced.Hastens` is the condition that is excluded, on the state before a call.  `Paced.Good` is the
invariant, and the cases of its step are those of `Remote.Turn`: a call keeps the due time, unsets
it, sets it, or leaves the session.
-/

namespace EspTree

open Wire FileReceiver Clock Transition

namespace Remote

variable {η : Type}

/-! ## True times -/

def Call.now? : Call → Option UInt32
  | .frame e .. | .loop e => some e.now
  | .stateChange .. | .textChange .. => none

def Call.isLoop : Call → Bool
  | .loop _ => true
  | _ => false

/-- When the loop sent its last heartbeat, since the leaf has been normal, and the time for which
`heartbeat_due_ms_` stands. -/
structure Pace where
  last : Option Nat := none
  due : Nat := 0

/-- The due time is that of the next moment with this reading, from when it was written. -/
def Pace.note (s : Remote η) (event : Nat × Call) (t : Remote η) (p : Pace) : Pace where
  last := if t.session.normal = false then none
    else if event.2.isLoop && sendsHeartbeat s t then some event.1 else p.last
  due := if sendsHeartbeat s t ∨ t.timers.heartbeatDueMs ≠ s.timers.heartbeatDueMs ∨
      t.timers.heartbeatInterval ≠ s.timers.heartbeatInterval then
    event.1 + (t.timers.heartbeatDueMs - reading event.1).toNat
    else p.due

/-- A leaf with the true times of its heartbeats. -/
abbrev Paced (η : Type) := Timed (Remote η) Pace

def Paced.step (P : Platform η) (s : Paced η) (event : Nat × Call) : Paced η :=
  Timed.step (call P) Pace.note s event

abbrev Paced.Timely (s : Paced η) (event : Nat × Call) : Prop := Timed.Timely Call.now? s event

/-- A leaf before its first call.  `heartbeat_interval_` is a `uint16_t`. -/
structure Paced.Start (s : Paced η) : Prop where
  registered : Registered s.state
  interval : s.state.timers.heartbeatInterval < 2 ^ 16
  mark : s.mark = {}

/-- When the next heartbeat is due, as seen at time `T`. -/
def Paced.dueAt (s : Paced η) (T : Nat) : Nat :=
  if s.state.timers.heartbeatDueMs = 0 then T + s.state.timers.heartbeatInterval * 1000 else s.mark.due

/-- The calls that make a heartbeat come early: a loop that comes to a heartbeat which is due in a later
period of the clock, and the end of a second join whose heartbeat cannot be sent. -/
inductive Paced.Hastens (P : Platform η) (s : Paced η) : Nat × Call → Prop
  | wrapped {T : Nat} {e : Env} (hnormal : s.state.session.normal)
      (hreaches : (s.state.loopBeforeHeartbeat P e).2 = false) (hearly : T < s.dueAt T)
      (hwrap : s.dueAt T / period ≠ T / period) : Hastens P s (T, .loop e)
  | rejoined {T : Nat} {e : Env} {senderMac : Mac} {data : Bytes} {rssi : Int} {f : Frame}
      (hnormal : s.state.session.normal) (hf : parseFrame data = some f) (hpasses : s.state.Passes P f)
      (hcompletes : s.state.CompletesJoin f)
      (hfails : sendsHeartbeat s.state (s.state.onEspnowFrame P e senderMac data rssi).1 = false) :
      Hastens P s (T, .frame e senderMac data rssi)

/-- The runs whose calls all come in time, and hasten no heartbeat. -/
abbrev PacedReachable (P : Platform η) : Paced η → Prop :=
  Reachable Paced.Start (fun s event => s.Timely event ∧ ¬ s.Hastens P event) (Paced.step P)

/-! ## The invariant -/

structure Paced.Good (s : Paced η) : Prop where
  interval : s.state.timers.heartbeatInterval < 2 ^ 16
  search : s.state.session.normal → s.state.discovery.discovering = false
  due : s.state.timers.heartbeatDueMs ≠ 0 → s.state.timers.heartbeatDueMs = reading s.mark.due
  normal : ∀ last ∈ s.mark.last, s.state.session.normal
  past : ∀ last ∈ s.mark.last, last ≤ s.clock
  spaced : s.state.timers.heartbeatDueMs ≠ 0 → ∀ last ∈ s.mark.last,
    last + s.state.timers.heartbeatInterval * 1000 ≤ max s.mark.due s.clock

section

variable {P : Platform η} {s : Paced η} {t : Remote η} {e : Env} {T : Nat} {c : Call} {due : UInt32}
  {interval : Nat}

/-- After the set-up a heartbeat is due at once. -/
theorem Registered.heartbeatDueMs {s : Remote η} (h : Registered s) : s.timers.heartbeatDueMs = 0 := by
  induction h with
  | fresh => rfl
  | register _ _ _ _ _ _ _ ih => exact ih

theorem Paced.Start.good (h : s.Start) : s.Good := by
  obtain ⟨hsession, -, -, -⟩ := h.registered.session
  have hdue := h.registered.heartbeatDueMs
  have hlast : s.mark.last = none := by rw [h.mark]
  refine ⟨h.interval, fun hnormal => ?_, fun hset => absurd hdue hset, ?_, ?_, fun hset => absurd hdue hset⟩
  · rw [hsession] at hnormal
    cases hnormal
  · rw [hlast]
    exact nofun
  · rw [hlast]
    exact nofun

/-- A time that is written as the present one and an interval stands for their sum. -/
theorem interval_ms (hinterval : interval < 2 ^ 16) : (UInt32.ofNat interval * 1000).toNat = interval * 1000 := by
  have hthousand : (1000 : UInt32).toNat = 1000 := rfl
  rw [UInt32.toNat_mul, UInt32.toNat_ofNat', hthousand]
  omega

theorem add_sub_reading (T : Nat) (d : UInt32) : (reading T + d - reading T).toNat = d.toNat := by
  rw [UInt32.add_comm, UInt32.add_sub_cancel]

/-- The reading for which the due time stands is always the one that was written. -/
theorem Paced.Good.note_due (h : s.Good) (hset : t.timers.heartbeatDueMs ≠ 0) :
    t.timers.heartbeatDueMs = reading (Pace.note s.state (T, c) t s.mark).due := by
  unfold Pace.note
  dsimp only
  split
  · exact (sub_add_reading _ _).symm
  next hsame =>
    have hdue : t.timers.heartbeatDueMs = s.state.timers.heartbeatDueMs :=
      by_contra fun hne => hsame (.inr (.inl hne))
    rw [hdue] at hset ⊢
    exact h.due hset

/-- No heartbeat was sent, and the time is the old one, unset, or set from now. -/
theorem Paced.Good.sets (h : s.Good) (hclock : s.clock ≤ T)
    (hkeeps : (s.state.setDue due interval).Keeps t) (hinterval : interval < 2 ^ 16)
    (hcases : due = s.state.timers.heartbeatDueMs ∧ interval = s.state.timers.heartbeatInterval ∨ due = 0 ∨
      due = reading T + UInt32.ofNat interval * 1000) :
    Paced.Good ⟨t, T, Pace.note s.state (T, c) t s.mark⟩ := by
  have hquiet : sendsHeartbeat s.state t = false := hkeeps.quiet
  have hdue : t.timers.heartbeatDueMs = due := hkeeps.due
  have hint : t.timers.heartbeatInterval = interval := hkeeps.interval
  have hnormal : t.session.normal = s.state.session.normal := hkeeps.normal
  have hlast : ∀ last ∈ (Pace.note s.state (T, c) t s.mark).last, last ∈ s.mark.last ∧ t.session.normal := by
    intro last hlast
    unfold Pace.note at hlast
    simp only [hquiet, Bool.and_false, Bool.false_eq_true, if_false] at hlast
    split at hlast
    · cases hlast
    next hstays => exact ⟨hlast, by simpa using hstays⟩
  refine ⟨?_, ?_, h.note_due, fun last hin => (hlast last hin).2,
    fun last hin => (h.past last (hlast last hin).1).trans hclock, fun hset last hin => ?_⟩
  · exact hint ▸ hinterval
  · intro hnormal'
    have hsearch := h.search (hnormal ▸ hnormal')
    exact Bool.eq_false_iff.2 fun hd => Bool.false_ne_true (hsearch.symm.trans (hkeeps.search hd))
  · have hpast := h.past last (hlast last hin).1
    show last + t.timers.heartbeatInterval * 1000 ≤ max (Pace.note s.state (T, c) t s.mark).due T
    unfold Pace.note
    dsimp only
    rw [hquiet, hdue, hint]
    by_cases hsame : due = s.state.timers.heartbeatDueMs ∧ interval = s.state.timers.heartbeatInterval
    · rw [if_neg (by simp [hsame.1, hsame.2])]
      have hspaced := h.spaced (hsame.1 ▸ hdue ▸ hset) last (hlast last hin).1
      rw [hsame.2]
      omega
    · have hnow : due = reading T + UInt32.ofNat interval * 1000 := by
        rcases hcases with hold | hzero | hnow
        · exact absurd hold hsame
        · exact absurd (hdue.trans hzero) hset
        · exact hnow
      rw [if_pos (.inr (not_and_or.1 hsame)), hnow, add_sub_reading, interval_ms hinterval]
      omega

/-- A call that keeps the due time keeps the pace. -/
theorem Paced.Good.keeps (h : s.Good) (hclock : s.clock ≤ T) (hkeeps : s.state.Keeps t) :
    Paced.Good ⟨t, T, Pace.note s.state (T, c) t s.mark⟩ := by
  have hset : (s.state.setDue s.state.timers.heartbeatDueMs s.state.timers.heartbeatInterval).Keeps t := hkeeps
  exact h.sets hclock hset h.interval (.inl ⟨rfl, rfl⟩)

/-- A leaf that is not normal any more has no pace to keep. -/
theorem Paced.Good.leaves (h : s.Good) (hleaves : s.state.Leaves t) :
    Paced.Good ⟨t, T, Pace.note s.state (T, c) t s.mark⟩ := by
  have hlast : (Pace.note s.state (T, c) t s.mark).last = none := by
    unfold Pace.note
    dsimp only
    rw [if_pos hleaves.normal]
  refine ⟨hleaves.interval ▸ h.interval, fun hnormal => ?_, h.note_due, ?_, ?_, fun _ => ?_⟩
  · exact absurd (hleaves.normal.symm.trans hnormal) Bool.false_ne_true
  all_goals
    rw [hlast]
    exact nofun

/-- A heartbeat was tried.  If it was not sent, the last one is long ago. -/
theorem Paced.Good.beats (h : s.Good) (hclock : s.clock ≤ T) (hnow : e.now = reading T) {sent : Bool}
    (hbeats : Beats e s.state t sent) (hnormal : t.session.normal)
    (hsearch : t.discovery.discovering = false)
    (hfails : sent = false → ∀ last ∈ s.mark.last, last + s.state.timers.heartbeatInterval * 1000 ≤ T) :
    Paced.Good ⟨t, T, Pace.note s.state (T, c) t s.mark⟩ := by
  have hsent := hbeats.sent_iff
  have hlast : ∀ last ∈ (Pace.note s.state (T, c) t s.mark).last,
      last ∈ s.mark.last ∨ sent = true ∧ last = T := by
    intro last hlast
    unfold Pace.note at hlast
    dsimp only at hlast
    rw [hnormal, if_neg nofun, hsent] at hlast
    split at hlast
    next hloop =>
      simp only [Bool.and_eq_true] at hloop
      exact .inr ⟨hloop.2, (Option.some.inj hlast).symm⟩
    · exact .inl hlast
  have hpast : ∀ last ∈ (Pace.note s.state (T, c) t s.mark).last, last ≤ T := by
    intro last hin
    rcases hlast last hin with hold | ⟨-, rfl⟩
    · exact (h.past last hold).trans hclock
    · exact le_rfl
  refine ⟨hbeats.interval ▸ h.interval, fun _ => hsearch, h.note_due, fun _ _ => hnormal, hpast,
    fun hset last hin => ?_⟩
  show last + t.timers.heartbeatInterval * 1000 ≤ max (Pace.note s.state (T, c) t s.mark).due T
  rw [hbeats.interval]
  cases sent with
  | false =>
    have hold : last ∈ s.mark.last := (hlast last hin).resolve_right fun h => Bool.false_ne_true h.1
    exact (hfails rfl last hold).trans (le_max_right _ _)
  | true =>
    have hdue : (Pace.note s.state (T, c) t s.mark).due = T + s.state.timers.heartbeatInterval * 1000 := by
      unfold Pace.note
      dsimp only
      rw [if_pos (.inl hsent), hbeats.due, if_pos rfl, hnow, add_sub_reading, interval_ms h.interval]
    rw [hdue]
    have hpast := hpast last hin
    omega

/-- The loop compares the clock with the reading of the due time. -/
theorem Paced.Good.heartbeatDue (h : s.Good) (hnow : e.now = reading T) :
    s.state.heartbeatDue e = reading (s.dueAt T) := by
  unfold Remote.heartbeatDue Paced.dueAt
  split
  · rw [hnow, ← interval_ms h.interval, ← reading_add]
  next hset => exact h.due hset

/-- The loop finds a heartbeat due that is due. -/
theorem Paced.Good.due_reached (h : s.Good) (hnow : e.now = reading T) (hnormal : s.state.session.normal)
    (hreaches : (s.state.loopBeforeHeartbeat P e).2 = false) (hok : ¬ s.Hastens P (T, .loop e))
    (hdue : s.state.heartbeatDue e ≤ e.now) : s.dueAt T ≤ T := by
  by_contra hearly
  have hsame : s.dueAt T / period = T / period := by
    by_contra hwrap
    exact hok (.wrapped hnormal hreaches (not_le.1 hearly) hwrap)
  rw [h.heartbeatDue hnow, hnow, le_iff_of_period hsame] at hdue
  exact hearly hdue

/-- By then the last one is long ago. -/
theorem Paced.Good.last_before (h : s.Good) (hclock : s.clock ≤ T) (hdue : s.dueAt T ≤ T) :
    ∀ last ∈ s.mark.last, last + s.state.timers.heartbeatInterval * 1000 ≤ T := by
  intro last hlast
  have hpast := h.past last hlast
  unfold Paced.dueAt at hdue
  split at hdue
  · omega
  next hset =>
    have hspaced := h.spaced hset last hlast
    omega

/-- The loop sets the due time one interval ahead when it sends a heartbeat, and does not before. -/
theorem Paced.Good.loop (h : s.Good) (htime : s.Timely (T, .loop e)) (hok : ¬ s.Hastens P (T, .loop e)) :
    (s.step P (T, .loop e)).Good := by
  obtain ⟨hclock, hnow⟩ := htime
  have hnow : e.now = reading T := hnow _ rfl
  have hset : (s.state.heartbeatDue e = s.state.timers.heartbeatDueMs ∧
      s.state.timers.heartbeatInterval = s.state.timers.heartbeatInterval) ∨ s.state.heartbeatDue e = 0 ∨
      s.state.heartbeatDue e = reading T + UInt32.ofNat s.state.timers.heartbeatInterval * 1000 := by
    unfold Remote.heartbeatDue
    split
    · exact .inr (.inr (hnow ▸ rfl))
    · exact .inl ⟨rfl, rfl⟩
  have hturn := loop_turn (P := P) (e := e) s.state
  show Paced.Good ⟨s.state.loop P e, T, Pace.note s.state (T, .loop e) (s.state.loop P e) s.mark⟩
  generalize s.state.loop P e = t at hturn ⊢
  cases hturn with
  | keeps hkeeps => exact h.keeps hclock hkeeps
  | left hleaves => exact h.leaves hleaves
  | resumed hs sent hbeats hnormal hsearch =>
    refine h.beats hclock hnow hbeats hnormal hsearch fun _ last hlast => ?_
    exact absurd ((h.search (h.normal last hlast)).symm.trans hs) Bool.false_ne_true
  | waits hnormal hearly hreaches hkeeps => exact h.sets hclock hkeeps h.interval hset
  | refuses hnormal hdue hreaches hkeeps => exact h.sets hclock hkeeps h.interval hset
  | beats hnormal hdue hreaches sent hbeats hstays hsearch =>
    have hoff : t.discovery.discovering = false := Bool.eq_false_iff.2 fun hd =>
      Bool.false_ne_true ((h.search hnormal).symm.trans (hsearch hd))
    exact h.beats hclock hnow hbeats hstays hoff fun _ =>
      h.last_before hclock (h.due_reached hnow hnormal hreaches hok hdue)

/-- A frame keeps the due time, or it makes a leaf normal that was not and sets the time anew. -/
theorem Paced.Good.frame {senderMac : Mac} {data : Bytes} {rssi : Int} (h : s.Good)
    (htime : s.Timely (T, .frame e senderMac data rssi))
    (hok : ¬ s.Hastens P (T, .frame e senderMac data rssi)) :
    (s.step P (T, .frame e senderMac data rssi)).Good := by
  obtain ⟨hclock, hnow⟩ := htime
  have hnow : e.now = reading T := hnow _ rfl
  have hturn : (s.state.onEspnowFrame P e senderMac data rssi).1 = s.state ∨ ∃ f, parseFrame data = some f ∧
      s.state.Passes P f ∧ Turn e s.state f (s.state.onEspnowFrame P e senderMac data rssi).1 := by
    unfold onEspnowFrame
    cases hf : parseFrame data with
    | none => exact .inl rfl
    | some f => exact (onFrame_turn s.state senderMac data.length rssi).imp_right fun h => ⟨f, rfl, h⟩
  have hfails := fun f hnormal hf hpasses hcompletes hfails =>
    hok (.rejoined (f := f) hnormal hf hpasses hcompletes hfails)
  show Paced.Good ⟨(s.state.onEspnowFrame P e senderMac data rssi).1, T,
    Pace.note s.state (T, .frame e senderMac data rssi) (s.state.onEspnowFrame P e senderMac data rssi).1 s.mark⟩
  generalize (s.state.onEspnowFrame P e senderMac data rssi).1 = t at hturn hfails ⊢
  obtain rfl | ⟨f, hf, hpasses, hturn⟩ := hturn
  · exact h.keeps hclock (.refl _)
  cases hturn with
  | keeps hkeeps => exact h.keeps hclock hkeeps
  | left hleaves => exact h.leaves hleaves
  | unset hkeeps => exact h.sets hclock hkeeps h.interval (.inr (.inl rfl))
  | configured interval hmost hkeeps =>
    have hmost := UInt32.le_iff_toNat_le.1 hmost
    have hlimit : (3600 : UInt32).toNat = 3600 := rfl
    refine h.sets hclock hkeeps (by omega) (.inr (.inr ?_))
    rw [hnow, UInt32.ofNat_toNat]
  | completed hcompletes sent hbeats hnormal hsearch =>
    refine h.beats hclock hnow hbeats hnormal hsearch fun hfailed last hlast => ?_
    exact absurd (hbeats.sent_iff.trans hfailed) (hfails f (h.normal last hlast) hf hpasses hcompletes)

/-- One event keeps the pace, as long as it hastens no heartbeat. -/
theorem Paced.Good.step (h : s.Good) {event : Nat × Call} (htime : s.Timely event)
    (hok : ¬ s.Hastens P event) : (s.step P event).Good := by
  obtain ⟨T, c⟩ := event
  cases c with
  | frame e senderMac data rssi => exact h.frame htime hok
  | loop e => exact h.loop htime hok
  | stateChange index value => exact h.keeps htime.1 (setRecord_keeps s.state index _)
  | textChange index value => exact h.keeps htime.1 (setRecord_keeps s.state index _)

theorem PacedReachable.good (hs : PacedReachable P s) : s.Good :=
  hs.invariant (fun _ hstart => hstart.good) fun _ _ h hok => h.step hok.1 hok.2

end

/-! ## Spacing -/

/-- In every run whose calls hasten no heartbeat: between two heartbeats that the loop sends while the leaf
stays normal lies the interval, and a loop that comes before the due time goes on to the states. -/
theorem heartbeat_spacing (P : Platform η) (s : Paced η) (hs : PacedReachable P s) (T : Nat) (e : Env)
    (htime : s.Timely (T, .loop e)) (hok : ¬ s.Hastens P (T, .loop e)) :
    (∀ last ∈ s.mark.last, sendsHeartbeat s.state (s.state.loop P e) →
      (s.state.loop P e).session.normal → last + s.state.timers.heartbeatInterval * 1000 ≤ T) ∧
    (s.state.session.normal → T < s.dueAt T → s.state.loop P e =
      andThen (s.state.loopBeforeHeartbeat P e) fun t => (t.awaitHeartbeat e).pushDirtyState P e) := by
  have h := hs.good
  obtain ⟨hclock, hnow⟩ := htime
  have hnow : e.now = reading T := hnow _ rfl
  constructor
  · intro last hlast hsends hstays
    have hturn := loop_turn (P := P) (e := e) s.state
    generalize s.state.loop P e = t at hturn hsends hstays
    cases hturn with
    | keeps hkeeps => exact absurd (hkeeps.quiet.symm.trans hsends) Bool.false_ne_true
    | left hleaves => exact absurd (hleaves.normal.symm.trans hstays) Bool.false_ne_true
    | resumed hs => exact absurd ((h.search (h.normal last hlast)).symm.trans hs) Bool.false_ne_true
    | waits _ _ _ hkeeps => exact absurd (hkeeps.quiet.symm.trans hsends) Bool.false_ne_true
    | refuses _ _ _ hkeeps => exact absurd (hkeeps.quiet.symm.trans hsends) Bool.false_ne_true
    | beats hnormal hdue hreaches =>
      exact h.last_before hclock (h.due_reached hnow hnormal hreaches hok hdue) last hlast
  · intro hnormal hearly
    cases hreaches : (s.state.loopBeforeHeartbeat P e).2 with
    | true =>
      rw [loop_eq]
      unfold andThen
      rw [if_pos hreaches, if_pos hreaches]
    | false =>
      exact loop_of_early fun hdue => Nat.not_le.2 hearly (h.due_reached hnow hnormal hreaches hok hdue)

/-! ## Two leaves -/

/-- A leaf with one sensor joins, and is normal 70 milliseconds after `now`. -/
def normalCalls (now : UInt32) : List Call :=
  discoverCalls sensorMac hubMac nodeRoleBridge 0 (Octets.zero 16) now ++
    [.frame (.quiet (now + 70) (Octets.zero 16)) hubMac
      (joinAckTo sensorMac joinStatusComplete (Octets.zero 16) 1) (-50)]

def loopAt (now : UInt32) : Call := .loop (.quiet now (Octets.zero 16))

/-- The leaf before its first call. -/
def pacedSensor : Paced Unit := ⟨sensorLeaf, 0, {}⟩

theorem pacedSensor_start : pacedSensor.Start :=
  ⟨.register (.fresh _ _ {}) (by decide) 0 [] [] [] [], by decide, rfl⟩

theorem not_hastens_loop {P : Platform η} {s : Paced η} {T : Nat} {e : Env}
    (hsame : s.dueAt T / period = T / period) : ¬ s.Hastens P (T, .loop e) := by
  intro h
  cases h with
  | wrapped hnormal hreaches hearly hwrap => exact hwrap hsame

theorem not_hastens_frame {P : Platform η} {s : Paced η} {T : Nat} {e : Env} {senderMac : Mac} {data : Bytes}
    {rssi : Int} (hnot : s.state.session.normal = false) : ¬ s.Hastens P (T, .frame e senderMac data rssi) := by
  intro h
  cases h with
  | rejoined hnormal => exact Bool.false_ne_true (hnot.symm.trans hnormal)

theorem not_hastens_other {P : Platform η} {s : Paced η} {T : Nat} {e : Env} {senderMac : Mac} {data : Bytes}
    {rssi : Int} (hother : (parseFrame data).all fun f => f.type? != some .joinAck) :
    ¬ s.Hastens P (T, .frame e senderMac data rssi) := by
  intro h
  cases h with
  | rejoined hnormal hf hpasses hcompletes hfails =>
    rw [hf, Option.all_some, hcompletes.accepts.type] at hother
    cases hother

/-- The leaf sends its state, and a heartbeat after a minute. -/
def heartbeatEvents : List (Nat × Call) :=
  (normalCalls 0 ++ [loopAt 80, stateAckCall 3, loopAt 60100]).map (atReading Call.now?)

def beatenLeaf : Paced Unit := runFrom (Paced.step .sample) pacedSensor heartbeatEvents

theorem beatenLeaf_reachable : PacedReachable .sample beatenLeaf := by
  have hstart : PacedReachable .sample pacedSensor := .start pacedSensor_start
  have htime {s : Paced Unit} {c : Call} (hclock : s.clock ≤ (atReading Call.now? c).1) :=
    Timed.timely_atReading hclock
  refine hstart.runFrom ⟨⟨htime (by decide), ?_⟩, ⟨htime (by decide), ?_⟩, ⟨htime (by decide), ?_⟩,
    ⟨htime (by decide), ?_⟩, ⟨htime (by decide), ?_⟩, ⟨htime (by decide), ?_⟩, ⟨htime (by decide), ?_⟩,
    ⟨htime (by decide), ?_⟩, ⟨htime (by decide), ?_⟩, trivial⟩
  · exact not_hastens_loop (by decide +kernel)
  · exact not_hastens_loop (by decide +kernel)
  · exact not_hastens_frame (by decide +kernel)
  · exact not_hastens_loop (by decide +kernel)
  · exact not_hastens_loop (by decide +kernel)
  · exact not_hastens_frame (by decide +kernel)
  · exact not_hastens_loop (by decide +kernel)
  · exact not_hastens_other (by decide +kernel)
  · exact not_hastens_loop (by decide +kernel)

/-- The next heartbeat of that leaf, a minute later. -/
theorem heartbeat_spacing_beatenLeaf :
    beatenLeaf.mark.last = some 60100 ∧
      sendsHeartbeat beatenLeaf.state (beatenLeaf.state.call .sample (loopAt 120100)) = true ∧
      60100 + beatenLeaf.state.timers.heartbeatInterval * 1000 ≤ 120100 := by
  have hlast : beatenLeaf.mark.last = some 60100 := by decide +kernel
  have hsends : sendsHeartbeat beatenLeaf.state
      (beatenLeaf.state.loop .sample (.quiet 120100 (Octets.zero 16))) = true := by decide +kernel
  have hstays : (beatenLeaf.state.loop .sample (.quiet 120100 (Octets.zero 16))).session.normal = true := by
    decide +kernel
  have hclock : beatenLeaf.clock = 60100 := by decide +kernel
  have htime : beatenLeaf.Timely (atReading Call.now? (loopAt 120100)) := by
    refine Timed.timely_atReading ?_
    rw [hclock]
    decide
  have hok : ¬ beatenLeaf.Hastens .sample (120100, .loop (.quiet 120100 (Octets.zero 16))) :=
    not_hastens_loop (by decide +kernel)
  exact ⟨hlast, hsends,
    (heartbeat_spacing .sample beatenLeaf beatenLeaf_reachable _ _ htime hok).1 60100 hlast hsends hstays⟩

/-- The same leaf joins ten seconds before the clock wraps. -/
def lateEvents : List (Nat × Call) :=
  (normalCalls 4294957296 ++ [loopAt 4294957376]).map (atReading Call.now?)

def lateLeaf : Paced Unit := runFrom (Paced.step .sample) pacedSensor lateEvents

/-- Its loop sends a heartbeat every time it is called, and the state of the sensor is never sent. -/
theorem heartbeat_hurried_lateLeaf :
    Reachable Paced.Start Paced.Timely (Paced.step .sample) lateLeaf ∧
      lateLeaf.Timely (atReading Call.now? (loopAt 4294957386)) ∧ lateLeaf.state.session.normal = true ∧
      (lateLeaf.state.call .sample (loopAt 4294957386)).session.normal = true ∧
      sendsHeartbeat lateLeaf.state (lateLeaf.state.call .sample (loopAt 4294957386)) = true ∧
      (∃ last ∈ lateLeaf.mark.last, ¬ last + lateLeaf.state.timers.heartbeatInterval * 1000 ≤ 4294957386) ∧
      4294957386 < lateLeaf.dueAt 4294957386 ∧
      (lateLeaf.state.call .sample (loopAt 4294957386)).entities.records.map (·.dirty) = [true] ∧
      (lateLeaf.state.call .sample (loopAt 4294957386)).entities.waitingForStateAck = false := by
  have hstart : Reachable Paced.Start Paced.Timely (Paced.step .sample) pacedSensor := .start pacedSensor_start
  have htime {s : Paced Unit} {c : Call} (hclock : s.clock ≤ (atReading Call.now? c).1) :=
    Timed.timely_atReading hclock
  have hlast : lateLeaf.mark.last = some 4294957376 := by decide +kernel
  have hclock : lateLeaf.clock = 4294957376 := by decide +kernel
  refine ⟨hstart.runFrom ⟨htime (by decide), htime (by decide), htime (by decide), htime (by decide),
    htime (by decide), htime (by decide), htime (by decide), trivial⟩, htime ?_, by decide +kernel,
    by decide +kernel, by decide +kernel, ⟨_, hlast, by decide +kernel⟩, by decide +kernel, by decide +kernel,
    by decide +kernel⟩
  rw [hclock]
  decide

end Remote

end EspTree
