import EspTree.Lib.Average
import EspTree.Remote.Loop
import Mathlib.Data.Nat.Count

/-!
# How a leaf follows the strength of its link

`parent_link_rssi_ema_` is meant to be an average with the weight 1/10.  It is kept in whole dB, and strengths
are negative, so the division rounds every average up: the estimate rises to the samples, but comes down only
on a sample that is 10 dB below it, and stays up to 9 dB above a link that got worse.

`estimate_follows` is what this leaves of the average.  An estimate always comes up to the samples.  It comes
down to `r + 1` if enough samples are 8 dB below `r`, one for each dB at most (`BringsDown`).  Without such
samples it is there only if it was there from the beginning.
-/

namespace EspTree

open Wire Average Filter

namespace Remote

variable {η : Type}

/-- `ESPNOW_RSSI_EMA_ALPHA`. -/
def rssiEmaAlpha : Int := 10

/-- The average that a frame of the parent leaves, -127 standing for none. -/
def nextEstimate (estimate rssi : Int) : Int :=
  if estimate = -127 then rssi else average rssiEmaAlpha estimate rssi

/-- The leaf after `n` frames of its parent, the first of them received with the strength `samples 0`. -/
def hears (s : Remote η) (samples : Nat → Int) : Nat → Remote η
  | 0 => s
  | n + 1 => (s.hears samples n).noteRssi s.route.parentMac (samples n)

/-- The estimate after `n` samples. -/
def estimateAfter (s : Remote η) (samples : Nat → Int) (n : Nat) : Int :=
  (s.hears samples n).route.parentLinkRssiEma

/-- What the loop asks before it looks for another parent. -/
def seesWeakLink (s : Remote η) : Prop := s.route.parentLinkRssiEma < preferredRssiFloorDbm

/-! ## One sample -/

section

variable {estimate rssi r : Int}

/-- Samples that are no stronger than `r` do not take the estimate above it. -/
theorem nextEstimate_le (hestimate : estimate ≤ r) (hrssi : rssi ≤ r) : nextEstimate estimate rssi ≤ r := by
  unfold nextEstimate
  split
  · exact hrssi
  · exact average_le (by decide) hestimate hrssi

/-- Samples that are no weaker than `r` do not take the estimate below it. -/
theorem le_nextEstimate (hestimate : r ≤ estimate) (hrssi : r ≤ rssi) : r ≤ nextEstimate estimate rssi := by
  unfold nextEstimate
  split
  · exact hrssi
  · exact le_average (by decide) hestimate hrssi

/-- The estimate comes down on a sample that is 10 dB below it. -/
theorem nextEstimate_lt (hset : estimate ≠ -127) (hrssi : rssi ≤ 0) (hlow : 0 < estimate ∨ rssi + 10 ≤ estimate) :
    nextEstimate estimate rssi < estimate := by
  rw [nextEstimate, if_neg hset]
  rcases le_or_gt estimate 0 with hneg | hpos
  · have hfar : rssi + 10 ≤ estimate := hlow.resolve_left (not_lt.2 hneg)
    exact (average_lt_iff (by decide) hneg hrssi).2 hfar
  · exact average_lt_of_pos (by decide) hpos (hrssi.trans_lt hpos)

/-- It rises on each sample above it. -/
theorem lt_nextEstimate (hrssi : rssi ≤ 0) (hlow : estimate < rssi) : estimate < nextEstimate estimate rssi := by
  unfold nextEstimate
  split
  · exact hlow
  · exact (lt_average_iff (by decide) (hlow.le.trans hrssi) hrssi).2 hlow

/-- It stays on a sample less than 10 dB below it. -/
theorem nextEstimate_eq (hset : estimate ≠ -127) (hneg : estimate ≤ 0) (hle : rssi ≤ estimate)
    (hnear : estimate < rssi + 10) : nextEstimate estimate rssi = estimate := by
  rw [nextEstimate, if_neg hset]
  exact average_eq (by decide) hneg hle hnear

end

/-! ## Sequences of samples -/

section

variable {s : Remote η} {samples : Nat → Int} {r : Int}

/-- A frame of the parent changes the estimate, and nothing else. -/
theorem noteRssi_parent (h : s.route.parentValid) (rssi : Int) :
    s.noteRssi s.route.parentMac rssi =
      { s with route := { s.route with
          parentLinkRssiEma := nextEstimate s.route.parentLinkRssiEma rssi } } := by
  rw [noteRssi, if_pos ⟨h, rfl⟩]
  rfl

/-- However long the leaf listens, it keeps its parent. -/
theorem hears_parent (h : s.route.parentValid) (samples : Nat → Int) (n : Nat) :
    (s.hears samples n).route.parentValid ∧ (s.hears samples n).route.parentMac = s.route.parentMac := by
  induction n with
  | zero => exact ⟨h, rfl⟩
  | succ n ih =>
    obtain ⟨hvalid, hmac⟩ := ih
    rw [hears, ← hmac, noteRssi_parent hvalid]
    exact ⟨hvalid, rfl⟩

/-- Each sample takes the estimate to the next. -/
theorem hears_succ (h : s.route.parentValid) (samples : Nat → Int) (n : Nat) :
    (s.hears samples (n + 1)).route.parentLinkRssiEma =
      nextEstimate (s.hears samples n).route.parentLinkRssiEma (samples n) := by
  obtain ⟨hvalid, hmac⟩ := hears_parent h samples n
  rw [hears, ← hmac, noteRssi_parent hvalid]

/-- The estimate after one more sample. -/
theorem estimateAfter_succ (h : s.route.parentValid) (samples : Nat → Int) (n : Nat) :
    s.estimateAfter samples (n + 1) = nextEstimate (s.estimateAfter samples n) (samples n) := hears_succ h samples n

/-- What a leaf should do with samples that come to stay on one side of `r`: after finitely many further ones its
estimate is at most one dB on the other side, and a link that stays 2 dB below the floor is seen as weak. -/
structure Follows (s : Remote η) (samples : Nat → Int) (r : Int) : Prop where
  down : (∀ᶠ n in atTop, samples n ≤ r) → ∀ᶠ n in atTop, s.estimateAfter samples n ≤ r + 1
  up : (∀ᶠ n in atTop, r ≤ samples n) → ∀ᶠ n in atTop, r - 1 ≤ s.estimateAfter samples n
  weak : r + 2 ≤ preferredRssiFloorDbm → (∀ᶠ n in atTop, samples n ≤ r) →
    ∀ᶠ n in atTop, (s.hears samples n).seesWeakLink

/-- A bound that every step keeps from `n` on, and some step meets, holds in the end. -/
theorem eventually_of_step {p : Nat → Prop} {n : Nat} (hkept : ∀ m, p (n + m) → p (n + (m + 1)))
    (hreached : ∃ m, p (n + m)) : ∀ᶠ m in atTop, p m := by
  obtain ⟨m₀, hm₀⟩ := eventually_atTop.1 (eventually_of_kept (p := fun m => p (n + m)) hkept hreached)
  refine eventually_atTop.2 ⟨n + m₀, fun m hm => ?_⟩
  have hp := hm₀ (m - n) (by omega)
  rwa [Nat.add_sub_cancel' (by omega)] at hp

/-- Samples that are at least `r` lift the estimate to `r`. -/
theorem follows_up (h : s.route.parentValid) (hrange : ∀ n, samples n ≤ 0) (hr : ∀ᶠ n in atTop, r ≤ samples n) :
    ∀ᶠ n in atTop, r ≤ s.estimateAfter samples n := by
  obtain ⟨n, hn⟩ := eventually_atTop.1 hr
  refine eventually_of_step (n := n) (fun m hm => ?_) (ascends fun m hm => ?_)
  · rw [← Nat.add_assoc, estimateAfter_succ h]
    exact le_nextEstimate hm (hn _ (by omega))
  · rw [← Nat.add_assoc, estimateAfter_succ h]
    exact lt_nextEstimate (hrange _) (hm.trans_le (hn _ (by omega)))

/-- Samples that bring the estimate of the leaf down to `r + 1`: from the `n`-th on they are at most `r`, and as many
of them are 8 dB below it as the bound `b` of the estimate and of the samples before is above `r + 1`. -/
def BringsDown (s : Remote η) (samples : Nat → Int) (r : Int) : Prop :=
  ∃ (b : Int) (n k : Nat), s.route.parentLinkRssiEma ≤ b ∧ (∀ i < n, samples i ≤ b) ∧ (∀ i, samples (n + i) ≤ r) ∧
    b ≤ r + 1 + Nat.count (fun i => samples (n + i) ≤ r - 8) k

/-- What bounds the estimate and the samples bounds the estimate after them. -/
theorem estimateAfter_le (h : s.route.parentValid) {b : Int} {n : Nat} (hstart : s.route.parentLinkRssiEma ≤ b)
    (hb : ∀ i < n, samples i ≤ b) : s.estimateAfter samples n ≤ b := by
  induction n with
  | zero => exact hstart
  | succ n ih =>
    rw [estimateAfter_succ h]
    exact nextEstimate_le (ih fun i hi => hb i (by omega)) (hb n (by omega))

/-- On samples that stay at most at `r` the estimate stays at most one dB above it. -/
theorem eventually_le (h : s.route.parentValid) {n m : Nat} (hr : ∀ i, samples (n + i) ≤ r)
    (hm : s.estimateAfter samples (n + m) ≤ r + 1) : ∀ᶠ n in atTop, s.estimateAfter samples n ≤ r + 1 := by
  refine eventually_of_step (n := n) (fun i hi => ?_) ⟨m, hm⟩
  rw [← Nat.add_assoc, estimateAfter_succ h]
  exact nextEstimate_le hi ((hr i).trans (by omega))

/-- While the estimate is more than one dB above `r`, each sample that is 8 dB below `r` is worth a dB. -/
theorem estimateAfter_count (h : s.route.parentValid) (hrange : ∀ n, -127 ≤ samples n ∧ samples n ≤ 0) {b : Int}
    {n : Nat} (hn : s.estimateAfter samples n ≤ b) (hr : ∀ i, samples (n + i) ≤ r) (k : Nat) :
    s.estimateAfter samples (n + k) ≤ r + 1 ∨
      s.estimateAfter samples (n + k) + Nat.count (fun i => samples (n + i) ≤ r - 8) k ≤ b := by
  induction k with
  | zero => exact .inr (by simpa using hn)
  | succ k ih =>
    have hbelow := hr k
    rw [← Nat.add_assoc, estimateAfter_succ h, Nat.count_succ]
    rcases le_or_gt (s.estimateAfter samples (n + k)) (r + 1) with hdown | habove
    · exact .inl (nextEstimate_le hdown (by omega))
    have hcount := ih.resolve_left (not_le.2 habove)
    have hset : s.estimateAfter samples (n + k) ≠ -127 := by
      have hleast := (hrange (n + k)).1
      omega
    refine .inr ?_
    split
    · next hlow =>
      have hfalls := nextEstimate_lt hset (hrange (n + k)).2 (.inr (by omega))
      push_cast
      omega
    · have hstays : nextEstimate (s.estimateAfter samples (n + k)) (samples (n + k)) ≤ _ :=
        nextEstimate_le le_rfl (by omega)
      push_cast
      omega

/-- Enough samples that are 8 dB below `r` bring the estimate down to `r + 1`. -/
theorem follows_bringsDown (h : s.route.parentValid) (hrange : ∀ n, -127 ≤ samples n ∧ samples n ≤ 0)
    (hbrings : s.BringsDown samples r) : ∀ᶠ n in atTop, s.estimateAfter samples n ≤ r + 1 := by
  obtain ⟨b, n, k, hstart, hb, hr, hk⟩ := hbrings
  refine eventually_le h hr (m := k) ?_
  rcases estimateAfter_count h hrange (estimateAfter_le h hstart hb) hr k with hdown | hcount
  · exact hdown
  · omega

/-- To -1 and 0 the estimate comes down by itself, since above zero the division rounds down. -/
theorem follows_zero (h : s.route.parentValid) (hrange : ∀ n, samples n ≤ 0) (hzero : -1 ≤ r)
    (hr : ∀ᶠ n in atTop, samples n ≤ r) : ∀ᶠ n in atTop, s.estimateAfter samples n ≤ r + 1 := by
  obtain ⟨n, hn⟩ := eventually_atTop.1 hr
  have hbelow (i : Nat) : samples (n + i) ≤ r := hn _ (by omega)
  have hfalls (m : Nat) (hm : r + 1 < s.estimateAfter samples (n + m)) :
      s.estimateAfter samples (n + (m + 1)) < s.estimateAfter samples (n + m) := by
    rw [← Nat.add_assoc, estimateAfter_succ h]
    exact nextEstimate_lt (by omega) (hrange _) (.inl (by omega))
  obtain ⟨m, hm⟩ := descends (fun m hm => (hfalls m hm).le) fun m hm => ⟨m, le_rfl, hfalls m hm⟩
  exact eventually_le h hbelow hm

/-- While the samples are within 8 dB below `r`, an estimate that is more than one dB above `r` stays there. -/
theorem stays_above (h : s.route.parentValid) (hneg : r ≤ -2) (hnear : ∀ n, r - 8 < samples n ∧ samples n ≤ r)
    (hleast : -127 ≤ r) (hstart : r + 1 < s.route.parentLinkRssiEma) (n : Nat) :
    r + 1 < s.estimateAfter samples n := by
  induction n with
  | zero => exact hstart
  | succ n ih =>
    obtain ⟨hlow, hhigh⟩ := hnear n
    rw [estimateAfter_succ h]
    by_contra hdown
    -- the estimate would have come down to `r + 1` from `r + 2` at least
    have hmono : nextEstimate (r + 2) (samples n) ≤ nextEstimate (s.estimateAfter samples n) (samples n) := by
      rw [nextEstimate, nextEstimate, if_neg (by omega), if_neg (by omega)]
      exact average_mono (by decide) (by omega)
    have hstays : nextEstimate (r + 2) (samples n) = r + 2 :=
      nextEstimate_eq (by omega) (by omega) (by omega) (by omega)
    omega

/-- The estimate follows samples that get stronger, and samples that come to stay at most at `r` if enough of them are
8 dB below it.  If all samples are within 8 dB below `r`, then it follows them if and only if it was not more than one
dB above `r` to begin with. -/
theorem estimate_follows (h : s.route.parentValid) (hrange : ∀ n, -127 ≤ samples n ∧ samples n ≤ 0) :
    (((∀ᶠ n in atTop, samples n ≤ r) → -1 ≤ r ∨ s.BringsDown samples r) → s.Follows samples r) ∧
      (r ≤ -2 → (∀ n, r - 8 < samples n ∧ samples n ≤ r) →
        (s.Follows samples r ↔ s.route.parentLinkRssiEma ≤ r + 1)) := by
  have hup : (∀ᶠ n in atTop, r ≤ samples n) → ∀ᶠ n in atTop, r - 1 ≤ s.estimateAfter samples n := fun hr =>
    (follows_up h (fun n => (hrange n).2) hr).mono fun n hn => by omega
  have hfollows (hdown : (∀ᶠ n in atTop, samples n ≤ r) → ∀ᶠ n in atTop, s.estimateAfter samples n ≤ r + 1) :
      s.Follows samples r := by
    refine ⟨hdown, hup, fun hfloor hr => (hdown hr).mono fun n hn => ?_⟩
    have hestimate : (s.hears samples n).route.parentLinkRssiEma ≤ r + 1 := hn
    unfold seesWeakLink
    omega
  refine ⟨fun hlow => hfollows fun hr => ?_, fun hneg hnear => ⟨fun hf => ?_, ?_⟩⟩
  · exact (hlow hr).elim (fun hzero => follows_zero h (fun n => (hrange n).2) hzero hr) (follows_bringsDown h hrange)
  · by_contra hhigh
    have hleast : -127 ≤ r := (hrange 0).1.trans (hnear 0).2
    obtain ⟨n, hn⟩ := (hf.down (Eventually.of_forall fun n => (hnear n).2)).exists
    have habove := stays_above h hneg hnear hleast (not_le.1 hhigh) n
    omega
  · intro hstart
    exact hfollows fun _ => Eventually.of_forall fun n =>
      estimateAfter_le h hstart fun i _ => (hnear i).2.trans (by omega)

end

/-- A leaf with a parent that it has heard with -60 dBm. -/
def linkedLeaf : Remote Unit where
  config := { leafMac := Octets.zero 6 }
  route := { parentValid := true, parentLinkRssiEma := -60 }
  files := { handlers := fun _ => none }

/-- A link that falls by 40 dB, and is worse by another 10 dB for as many frames.  After a fall of a few dB only it
is followed if it is within the one dB. -/
theorem estimate_follows_fadingLink :
    linkedLeaf.Follows (fun n => if n < 40 then -110 else -100) (-100) ∧ linkedLeaf.Follows (fun _ => -63) (-61) := by
  refine ⟨(estimate_follows rfl fun n => ?_).1 fun _ => .inr ⟨-60, 0, 40, le_rfl, fun i hi => ?_, fun i => ?_, ?_⟩, ?_⟩
  · split <;> decide
  · exact absurd hi i.not_lt_zero
  · dsimp only
    split <;> decide
  · decide
  · exact ((estimate_follows rfl fun _ => by decide).2 (by decide) fun _ => by decide).2 (by decide)

/-- The link falls from -81 dBm to -90 dBm, and stays there. -/
def fallenLeaf : Remote Unit := { linkedLeaf with route := { linkedLeaf.route with parentLinkRssiEma := -81 } }

/-- The estimate stays, and the loop never sees the link below the floor of -85 dBm. -/
theorem not_follows_fallenLink :
    ¬ fallenLeaf.Follows (fun _ => -90) (-90) ∧
      ∀ n, fallenLeaf.estimateAfter (fun _ => -90) n = -81 ∧ ¬ (fallenLeaf.hears (fun _ => -90) n).seesWeakLink := by
  have hstuck (n : Nat) : fallenLeaf.estimateAfter (fun _ => -90) n = -81 := by
    induction n with
    | zero => rfl
    | succ n ih =>
      rw [estimateAfter_succ rfl, ih]
      exact nextEstimate_eq (by decide) (by decide) (by decide) (by decide)
  refine ⟨fun hfollows => ?_, fun n => ⟨hstuck n, fun hweak => ?_⟩⟩
  · obtain ⟨n, hn⟩ := (hfollows.down (Eventually.of_forall fun _ => le_rfl)).exists
    rw [hstuck n] at hn
    exact absurd hn (by decide)
  · have hestimate : (fallenLeaf.hears (fun _ => -90) n).route.parentLinkRssiEma = -81 := hstuck n
    rw [seesWeakLink, hestimate] at hweak
    exact absurd hweak (by decide)

end Remote

end EspTree
