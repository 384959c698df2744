import Mathlib.Order.Filter.AtTopBot.Basic
import Mathlib.Tactic.Linarith

/-!
# Integer averages

`average w e s` moves an estimate `e` the `w`-th part of the way to a sample `s`.  The division cuts the
fraction off, so below zero an average is rounded up: it rises whenever the sample is above the estimate
(`lt_average_iff`) and falls only when the sample is at least `w` below it (`average_lt_iff`).

`descends` and `ascends` are what such steps come to over a sequence.

The sign matters since the division goes towards zero, and not down.  Both bounds are exact, so that
a fixed point of the average can be read off: for an estimate below zero it is every estimate that
is above the sample by less than `w`.
-/

namespace Average

open Filter

/-- The estimate after one more sample, with a division that truncates. -/
def average (w e s : ℤ) : ℤ := (s + (w - 1) * e).tdiv w

section

variable {w e s k : ℤ}

/-- A multiple of `w` is divided without remainder, whatever its sign. -/
theorem tdiv_mul_self (hw : 0 < w) : (w * k).tdiv w = k := Int.mul_tdiv_cancel_left _ hw.ne'

/-- An average does not fall below what both the estimate and the sample reach. -/
theorem le_average (hw : 0 < w) (he : k ≤ e) (hs : k ≤ s) : k ≤ average w e s := by
  have hle : w * k ≤ s + (w - 1) * e := by nlinarith
  calc k = (w * k).tdiv w := (tdiv_mul_self hw).symm
    _ ≤ average w e s := Int.tdiv_le_tdiv hw hle

/-- An average does not rise above what neither the estimate nor the sample exceeds. -/
theorem average_le (hw : 0 < w) (he : e ≤ k) (hs : s ≤ k) : average w e s ≤ k := by
  have hle : s + (w - 1) * e ≤ w * k := by nlinarith
  calc average w e s ≤ (w * k).tdiv w := Int.tdiv_le_tdiv hw hle
    _ = k := tdiv_mul_self hw

/-- A higher estimate leads to a higher one. -/
theorem average_mono (hw : 0 < w) (he : e ≤ k) : average w e s ≤ average w k s := by
  have hle : s + (w - 1) * e ≤ s + (w - 1) * k := by nlinarith
  exact Int.tdiv_le_tdiv hw hle

/-- Below zero the division rounds up. -/
theorem average_of_nonpos (hw : 0 < w) (he : e ≤ 0) (hs : s ≤ 0) :
    average w e s = -((-(s + (w - 1) * e)) / w) := by
  have hx : 0 ≤ -(s + (w - 1) * e) := by nlinarith
  have hneg : (-(s + (w - 1) * e)).tdiv w = -(s + (w - 1) * e) / w := Int.tdiv_eq_ediv_of_nonneg hx
  rw [← hneg, Int.neg_tdiv, neg_neg]
  rfl

/-- Below zero an estimate falls only to a sample that is at least `w` below it. -/
theorem average_lt_iff (hw : 0 < w) (he : e ≤ 0) (hs : s ≤ 0) : average w e s < e ↔ s + w ≤ e := by
  have hcut : average w e s < e ↔ -e + 1 ≤ -(s + (w - 1) * e) / w := by
    rw [average_of_nonpos hw he hs]
    omega
  rw [hcut, Int.le_ediv_iff_mul_le hw]
  constructor
  · intro h
    linarith
  · intro h
    linarith

/-- Below zero an estimate rises to every sample above it. -/
theorem lt_average_iff (hw : 0 < w) (he : e ≤ 0) (hs : s ≤ 0) : e < average w e s ↔ e < s := by
  have hcut : e < average w e s ↔ -(s + (w - 1) * e) / w < -e := by
    rw [average_of_nonpos hw he hs]
    omega
  rw [hcut, Int.ediv_lt_iff_lt_mul hw]
  constructor
  · intro h
    linarith
  · intro h
    linarith

/-- Above zero it rounds down. -/
theorem average_lt_of_pos (hw : 0 < w) (he : 0 < e) (hs : s < e) : average w e s < e := by
  rcases le_or_gt 0 (s + (w - 1) * e) with hx | hx
  · have hdiv : average w e s = (s + (w - 1) * e) / w := Int.tdiv_eq_ediv_of_nonneg hx
    rw [hdiv, Int.ediv_lt_iff_lt_mul hw]
    linarith
  · have hzero : average w e s ≤ (w * 0).tdiv w := Int.tdiv_le_tdiv hw (by linarith)
    rw [tdiv_mul_self hw] at hzero
    exact hzero.trans_lt he

/-- A sample that is less than `w` below the estimate, and not above it, leaves it alone. -/
theorem average_eq (hw : 0 < w) (he : e ≤ 0) (hs : s ≤ e) (hnear : e < s + w) : average w e s = e := by
  have hnonpos : s ≤ 0 := hs.trans he
  have hfalls := (average_lt_iff hw he hnonpos).not.2 (not_le.2 hnear)
  have hrises := (lt_average_iff hw he hnonpos).not.2 (not_lt.2 hs)
  exact le_antisymm (not_lt.1 hrises) (not_lt.1 hfalls)

end

/-! ## Sequences -/

section

variable {f : ℕ → ℤ} {k : ℤ}

/-- What does not rise while it is above `k`, and always falls in the end, gets to `k`. -/
theorem descends (hkeeps : ∀ n, k < f n → f (n + 1) ≤ f n) (hfalls : ∀ n, k < f n → ∃ m ≥ n, f (m + 1) < f m) :
    ∃ n, f n ≤ k := by
  by_contra hnever
  have habove : ∀ n, k < f n := fun n => not_le.1 fun hle => hnever ⟨n, hle⟩
  have hanti : Antitone f := antitone_nat_of_succ_le fun n => hkeeps n (habove n)
  have hdeep : ∀ d : ℕ, ∃ n, f n + d ≤ f 0 := by
    intro d
    induction d with
    | zero => exact ⟨0, by simp⟩
    | succ d ih =>
      obtain ⟨n, hn⟩ := ih
      obtain ⟨m, hnm, hm⟩ := hfalls n (habove n)
      have hle := hanti hnm
      refine ⟨m + 1, ?_⟩
      push_cast
      omega
  obtain ⟨n, hn⟩ := hdeep (f 0 - k).toNat
  have hn' := habove n
  omega

/-- What rises at every step below `k` gets to `k`. -/
theorem ascends (hrises : ∀ n, f n < k → f n < f (n + 1)) : ∃ n, k ≤ f n := by
  have hkeeps : ∀ n, -k < -f n → -f (n + 1) ≤ -f n := fun n hn => by
    have := hrises n (neg_lt_neg_iff.1 hn)
    omega
  obtain ⟨n, hn⟩ := descends (f := fun n => -f n) hkeeps fun n hn =>
    ⟨n, le_rfl, neg_lt_neg (hrises n (neg_lt_neg_iff.1 hn))⟩
  exact ⟨n, neg_le_neg_iff.1 hn⟩

/-- A bound that is reached and kept holds from some point on. -/
theorem eventually_of_kept {p : ℕ → Prop} (hkept : ∀ n, p n → p (n + 1)) (hreached : ∃ n, p n) :
    ∀ᶠ n in atTop, p n := by
  obtain ⟨n, hn⟩ := hreached
  exact eventually_atTop.2 ⟨n, fun m hnm => Nat.le_induction hn (fun i _ hi => hkept i hi) m hnm⟩

end

end Average
