import EspTree.Lib.System
import Mathlib.Data.UInt

/-!
# Clocks that wrap

A counter of milliseconds in 32 bits is all that a program sees of the time, and it begins again at 0
every 49.7 days.  `reading` is what it shows at a true time.

* differences of readings are true differences, as long as these are below a period (`toNat_sub`);
* whole seconds that were taken from the readings begin again in the middle of a second (`lt_sub_iff`);
* a reading that was taken to be compared with later ones compares like its time as long as the two are
  `InOrder`, and not otherwise (`lt_iff`, `inOrder_iff`);
* `Timed` runs a system against the true time, with a history that the steps do not read.
-/

namespace Clock

/-! ## Readings -/

/-- After so many milliseconds the counter is at 0 again. -/
def period : Nat := 2 ^ 32

/-- What the counter shows at time `t`. -/
def reading (t : Nat) : UInt32 := UInt32.ofNat t

/-- A clock of 32 bits shows the true time modulo its period. -/
theorem toNat_reading (t : Nat) : (reading t).toNat = t % period := UInt32.toNat_ofNat'

/-- The time that has passed, but for whole periods. -/
theorem toNat_sub_mod {s t : Nat} (hst : s ≤ t) : (reading t - reading s).toNat = (t - s) % period := by
  have hsub := UInt32.toNat_sub (reading t) (reading s)
  rw [hsub, toNat_reading, toNat_reading]
  unfold period
  omega

/-- A difference of readings is the true difference when this is below a period, also across a wrap.
-/
theorem toNat_sub {s t : Nat} (hst : s ≤ t) (hnear : t < s + period) :
    (reading t - reading s).toNat = t - s := by
  rw [toNat_sub_mod hst]
  exact Nat.mod_eq_of_lt (by omega)

/-- Adding to a reading is waiting, as the clock has it. -/
theorem reading_add (t : Nat) (d : UInt32) : reading t + d = reading (t + d.toNat) := by
  rw [← UInt32.toNat_inj, UInt32.toNat_add, toNat_reading, toNat_reading]
  unfold period
  omega

/-- Every reading is that of some time to come. -/
theorem sub_add_reading (d : UInt32) (t : Nat) : reading (t + (d - reading t).toNat) = d := by
  rw [← reading_add]
  exact (UInt32.add_comm _ _).trans (UInt32.sub_add_cancel d (reading t))

/-! ## Whole seconds -/

/-- The seconds that the counter shows: they begin again at 0 with it. -/
def seconds (t : Nat) : Nat := t % period / 1000

/-- The seconds that are taken from a reading are those of the time within its period. -/
theorem toNat_seconds (t : Nat) : (reading t / 1000).toNat = seconds t := by
  rw [UInt32.toNat_div, toNat_reading]
  rfl

/-- A difference of two readings is more than a bound if they lie that far apart, and also if the second one
is the smaller. -/
theorem lt_sub_iff {s t d : UInt32} (hs : s.toNat < 2 ^ 31) (hd : d.toNat < 2 ^ 31) :
    d < t - s ↔ t.toNat < s.toNat ∨ s.toNat + d.toNat < t.toNat := by
  have ht := t.toNat_lt
  rw [UInt32.lt_iff_toNat_lt, UInt32.toNat_sub]
  omega

/-! ## Deadlines -/

/-- A deadline compares with a time as its reading does: both are in one period, or the deadline is in an
earlier one and its reading has been reached again. -/
def InOrder (due t : Nat) : Prop :=
  due / period = t / period ∨ due / period < t / period ∧ due % period ≤ t % period

instance (due t : Nat) : Decidable (InOrder due t) := inferInstanceAs (Decidable (_ ∨ _))

/-- Within a period readings compare like times. -/
theorem le_iff_of_period {s t : Nat} (hsame : s / period = t / period) : reading s ≤ reading t ↔ s ≤ t := by
  rw [UInt32.le_iff_toNat_le, toNat_reading, toNat_reading]
  unfold period at *
  omega

/-- Readings that are in order compare like their times. -/
theorem le_iff {due t : Nat} (h : InOrder due t) : reading due ≤ reading t ↔ due ≤ t := by
  rcases h with hsame | ⟨hbefore, hreached⟩
  · exact le_iff_of_period hsame
  · have hle : reading due ≤ reading t := by
      rw [UInt32.le_iff_toNat_le, toNat_reading, toNat_reading]
      exact hreached
    refine ⟨fun _ => ?_, fun _ => hle⟩
    unfold period at *
    omega

/-- The strict form, for a deadline that is still ahead. -/
theorem lt_iff {due t : Nat} (h : InOrder due t) : reading t < reading due ↔ t < due := by
  rw [← UInt32.not_le, le_iff h, not_le]

/-- For a deadline less than a period ahead there is no other case. -/
theorem inOrder_iff {due t : Nat} (hnear : due < t + period) :
    (reading t < reading due ↔ t < due) ↔ InOrder due t := by
  refine ⟨fun h => ?_, lt_iff⟩
  rw [UInt32.lt_iff_toNat_lt, toNat_reading, toNat_reading] at h
  unfold InOrder period at *
  omega

/-! ## Runs in time -/

/-- A system, the time of its last step, and what is remembered about its run. -/
structure Timed (σ γ : Type*) where
  state : σ
  clock : Nat
  mark : γ

section Runs

variable {σ ε γ : Type*}

/-- A step at a time.  `note` is what is remembered then. -/
def Timed.step (step : σ → ε → σ) (note : σ → Nat × ε → σ → γ → γ) (s : Timed σ γ) (event : Nat × ε) :
    Timed σ γ :=
  ⟨step s.state event.2, event.1, note s.state event (step s.state event.2) s.mark⟩

/-- Time does not go back, and the event carries the reading of its time. -/
def Timed.Timely (now? : ε → Option UInt32) (s : Timed σ γ) (event : Nat × ε) : Prop :=
  s.clock ≤ event.1 ∧ ∀ now ∈ now? event.2, now = reading event.1

/-- An event at the time that it reads, in the first period. -/
def atReading (now? : ε → Option UInt32) (event : ε) : Nat × ε := ((now? event).elim 0 UInt32.toNat, event)

/-- An event is timely at the time that it reads, as long as the clock is not past it. -/
theorem Timed.timely_atReading {now? : ε → Option UInt32} {s : Timed σ γ} {event : ε}
    (hclock : s.clock ≤ (atReading now? event).1) : s.Timely now? (atReading now? event) := by
  refine ⟨hclock, fun now hnow => ?_⟩
  have hsome : now? event = some now := hnow
  show now = reading ((now? event).elim 0 UInt32.toNat)
  rw [hsome]
  exact UInt32.ofNat_toNat.symm

end Runs

end Clock
