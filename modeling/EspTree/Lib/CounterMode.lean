import EspTree.Lib.Bytes
import Mathlib.Logic.Function.Iterate

/-!
# The key stream of counter mode

`ctrLoop` steps a counter block and combines each block of its input with the encrypted counter.  `ctrBlocks`
are the counter blocks that it encrypts on the way.  The output is the input combined with their encryptions
(`ctrLoop_eq`), and what is left out at the end of the input is left out at the end of the output
(`ctrLoop_take`).

The loop is the one that is found in implementations which encrypt in place: it steps the block,
encrypts it, and combines as many bytes as are left.  The step function and the block function are
parameters, so nothing depends on the byte order of the counter.  Whether two of the blocks are equal
is a question about the step alone.
-/

namespace Wire

section

variable {n : Nat} {cipher next : Octets n → Octets n}

/-- The counter blocks that `ctrLoop` encrypts. -/
def ctrBlocks (next : Octets n → Octets n) : Nat → Octets n → Bytes → List (Octets n)
  | 0, _, _ => []
  | fuel + 1, counter, input =>
    if input.isEmpty then [] else counter :: ctrBlocks next fuel (next counter) (input.drop n)

/-- A key stream in two pieces. -/
theorem xorBytes_append (m ks ks' : Bytes) :
    xorBytes m (ks ++ ks') = xorBytes (m.take ks.length) ks ++ xorBytes (m.drop ks.length) ks' := by
  induction ks generalizing m with
  | nil => simp [xorBytes]
  | cons k ks ih =>
    cases m with
    | nil => rfl
    | cons b m => exact congrArg ((b ^^^ k) :: ·) (ih m)

/-- The beginning of the message, under the same key stream. -/
theorem xorBytes_take (m ks : Bytes) (k : Nat) : xorBytes (m.take k) ks = (xorBytes m ks).take k := by
  induction m generalizing ks k with
  | nil => simp [xorBytes]
  | cons b m ih =>
    cases k with
    | zero => rfl
    | succ k =>
      cases ks with
      | nil => simp [xorBytes]
      | cons x ks => exact congrArg ((b ^^^ x) :: ·) (ih ks k)

/-- The output is the input combined with the encrypted counter blocks. -/
theorem ctrLoop_eq (fuel : Nat) (counter : Octets n) (input : Bytes) :
    ctrLoop cipher next fuel counter input =
      xorBytes input ((ctrBlocks next fuel counter input).flatMap fun block => (cipher block).bytes) := by
  induction fuel generalizing counter input with
  | zero => simp [ctrLoop, ctrBlocks, xorBytes]
  | succ fuel ih =>
    rw [ctrLoop, ctrBlocks]
    split
    · simp [xorBytes]
    · rw [List.flatMap_cons, xorBytes_append, Octets.length_bytes, ih]

/-- Block number `i` is the counter after `i` steps, and there is input for it. -/
theorem ctrBlocks_getElem? {fuel i : Nat} {counter block : Octets n} {input : Bytes}
    (h : (ctrBlocks next fuel counter input)[i]? = some block) :
    block = next^[i] counter ∧ i * n < input.length := by
  induction fuel generalizing counter input i with
  | zero => cases h
  | succ fuel ih =>
    rw [ctrBlocks] at h
    split at h
    · cases h
    next hne =>
      have hpos : 0 < input.length := by
        rw [List.length_pos_iff]
        simpa using hne
      cases i with
      | zero =>
        cases h
        exact ⟨rfl, by omega⟩
      | succ i =>
        obtain ⟨hblock, hlt⟩ := ih h
        rw [List.length_drop] at hlt
        refine ⟨hblock.trans (Function.iterate_succ_apply next i counter).symm, ?_⟩
        rw [Nat.succ_mul]
        omega

/-- The beginning of the input gives the beginning of the output. -/
theorem ctrLoop_take {fuel fuel' k : Nat} {counter : Octets n} {input : Bytes}
    (hfuel : (input.take k).length ≤ fuel) (hfuel' : input.length ≤ fuel') (hn : 0 < n) :
    ctrLoop cipher next fuel counter (input.take k) = (ctrLoop cipher next fuel' counter input).take k := by
  induction fuel' generalizing fuel k counter input with
  | zero =>
    obtain rfl : input = [] := List.length_eq_zero_iff.mp (Nat.le_zero.mp hfuel')
    cases fuel <;> simp [ctrLoop]
  | succ fuel' ih =>
    by_cases hempty : input.take k = []
    · have hnothing : ctrLoop cipher next fuel counter [] = [] := by cases fuel <;> simp [ctrLoop]
      rw [hempty, hnothing]
      rcases List.take_eq_nil_iff.mp hempty with rfl | rfl
      · rfl
      · simp [ctrLoop]
    · obtain ⟨fuel, rfl⟩ : ∃ m, fuel = m + 1 := by
        have hpos := List.length_pos_iff.mpr hempty
        exact ⟨fuel - 1, by omega⟩
      have hne : input ≠ [] := fun heq => hempty (by rw [heq, List.take_nil])
      have hlength : 0 < input.length := List.length_pos_iff.mpr hne
      have hrest : ctrLoop cipher next fuel (next counter) ((input.drop n).take (k - n)) =
          (ctrLoop cipher next fuel' (next counter) (input.drop n)).take (k - n) :=
        ih (by simp only [List.length_take, List.length_drop] at hfuel ⊢; omega)
          (by rw [List.length_drop]; omega)
      have hfirst : xorBytes ((input.take k).take n) (cipher counter).bytes =
          (xorBytes (input.take n) (cipher counter).bytes).take k := by
        rw [List.take_take, Nat.min_comm, ← List.take_take, xorBytes_take]
      rw [ctrLoop, ctrLoop, if_neg (by simpa using hempty), if_neg (by simpa using hne), hfirst,
        List.drop_take, hrest, List.take_append]
      congr 1
      by_cases hfull : n ≤ input.length
      · rw [length_xorBytes, List.length_take, Octets.length_bytes]
        congr 1
        omega
      · -- the first block is the last one
        have hdrop : input.drop n = [] := List.drop_eq_nil_of_le (by omega)
        have hnothing : ctrLoop cipher next fuel' (next counter) [] = [] := by
          cases fuel' <;> simp [ctrLoop]
        rw [hdrop, hnothing, List.take_nil, List.take_nil]

end

end Wire
