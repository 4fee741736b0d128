import MdioTools.Client.Receive
import MdioTools.Library.Printf

/-!
# What the common operations print

The callbacks of the common operations print the words they are called with.
The one of a benchmark also takes the time: it subtracts two readings of the
clock, seconds from seconds and nanoseconds from nanoseconds, and prints the
difference in the unit that suits it.

Main results:

- Definitions {lit}`rawReadPrint`, {lit}`rawWritePrint` and {lit}`benchPrint`: the
  callbacks with the text they print.
- Theorem {lit}`elapsed_nanos`: the difference of two readings.
- Theorem {lit}`elapsedText_eq`: it is printed rounded down.
-/

namespace MdioTools.Client

open Library

/-! ## Raw operations -/

/-- The line of a word. -/
def wordLine (word : BitVec 32) : CStr :=
  "0x".toList ++ padLeft 4 '0' (hex word.toNat) ++ "\n".toList

/-- `mdio_common_raw_read_cb`, with what it prints. -/
def rawReadPrint : OpCallback CStr := fun data err out =>
  let r := mdioCommonRawReadCb data err []
  (r.1, out ++ r.2.flatMap wordLine)

/-- `mdio_common_raw_write_cb`, which prints nothing. -/
def rawWritePrint : OpCallback CStr := fun data err out =>
  ((mdioCommonRawWriteCb data err []).1, out)

/-! ## The clock -/

/-- `struct timespec`. -/
structure Timespec where
  sec : Int
  nsec : Int
deriving DecidableEq, Repr

/-- The nanoseconds are less than a second, as the kernel returns them. -/
def Timespec.Normal (t : Timespec) : Prop :=
  0 ≤ t.nsec ∧ t.nsec < 1000000000

def Timespec.nanos (t : Timespec) : Int :=
  1000000000 * t.sec + t.nsec

/-- The subtraction in `mdio_common_bench_cb`, with a borrow. -/
def elapsed (start stop : Timespec) : Timespec :=
  let d : Timespec := ⟨stop.sec - start.sec, stop.nsec - start.nsec⟩
  if d.nsec < 0 then ⟨d.sec - 1, d.nsec + 1000000000⟩ else d

/-- `%2.2d`. -/
def decInt2 (i : Int) : CStr :=
  if i < 0 then '-' :: padLeft 2 '0' (dec i.natAbs) else padLeft 2 '0' (dec i.natAbs)

/-- The duration as it is printed. -/
def elapsedText (d : Timespec) : CStr :=
  if d.sec ≠ 0 then
    decInt d.sec ++ ".".toList ++ decInt2 (d.nsec.tdiv 10000000) ++ "s\n".toList
  else if 1000000 < d.nsec then decInt (d.nsec.tdiv 1000000) ++ "ms\n".toList
  else if 1000 < d.nsec then decInt (d.nsec.tdiv 1000) ++ "us\n".toList
  else decInt d.nsec ++ "ns\n".toList

/-- The difference of two readings, in nanoseconds, is that of the clock. -/
theorem elapsed_nanos {start stop : Timespec} (hstart : start.Normal) (hstop : stop.Normal) :
    (elapsed start stop).nanos = stop.nanos - start.nanos ∧ (elapsed start stop).Normal := by
  obtain ⟨hlow, hhigh⟩ := hstart
  obtain ⟨hlow', hhigh'⟩ := hstop
  unfold elapsed
  simp only
  split
  · rename_i hborrow
    simp only [Timespec.nanos, Timespec.Normal]
    omega
  · rename_i hnone
    simp only [Timespec.nanos, Timespec.Normal]
    omega

/-- A number of nanoseconds, in hundredths of a second or rounded down to whole
milliseconds, microseconds or nanoseconds. -/
def durationText (n : Nat) : CStr :=
  if 1000000000 ≤ n then
    dec (n / 1000000000) ++ ".".toList ++ padLeft 2 '0' (dec (n % 1000000000 / 10000000)) ++
      "s\n".toList
  else if 1000000 < n then dec (n / 1000000) ++ "ms\n".toList
  else if 1000 < n then dec (n / 1000) ++ "us\n".toList
  else dec n ++ "ns\n".toList

@[simp]
theorem decInt_natCast (n : Nat) : decInt (n : Int) = dec n := by
  rw [decInt, if_neg (by omega), Int.natAbs_natCast]

@[simp]
theorem decInt2_natCast (n : Nat) : decInt2 (n : Int) = padLeft 2 '0' (dec n) := by
  rw [decInt2, if_neg (by omega), Int.natAbs_natCast]

/-- What is printed is the time between the readings. -/
theorem elapsedText_eq {start stop : Timespec} (hstart : start.Normal) (hstop : stop.Normal)
    (hle : start.nanos ≤ stop.nanos) :
    elapsedText (elapsed start stop) = durationText (stop.nanos - start.nanos).toNat := by
  obtain ⟨hnanos, hlow, hhigh⟩ := elapsed_nanos hstart hstop
  generalize elapsed start stop = d at hnanos hlow hhigh
  have htotal : (0 : Int) ≤ d.nanos := by omega
  -- the fields are the quotient and the remainder
  obtain ⟨s, hs⟩ := Int.eq_ofNat_of_zero_le (a := d.sec) (by unfold Timespec.nanos at htotal; omega)
  obtain ⟨k, hk⟩ := Int.eq_ofNat_of_zero_le hlow
  have hn : (stop.nanos - start.nanos).toNat = 1000000000 * s + k := by
    unfold Timespec.nanos at hnanos ⊢
    omega
  have hlt : k < 1000000000 := by omega
  have hquot : (1000000000 * s + k) / 1000000000 = s := by omega
  have hrem : (1000000000 * s + k) % 1000000000 = k := by omega
  have htdiv (m : Nat) : (k : Int).tdiv (m : Int) = ((k / m : Nat) : Int) := by
    rw [Int.ofNat_tdiv]
  rw [hn, elapsedText, durationText, hs, hk, hquot, hrem]
  by_cases hzero : s = 0
  · subst hzero
    have hfirst : ¬((0 : Nat) : Int) ≠ 0 := by simp
    have hsecond : ¬1000000000 ≤ 1000000000 * 0 + k := by omega
    rw [if_neg hfirst, if_neg hsecond, Nat.mul_zero, Nat.zero_add]
    simp only [show (1000000 : Int) = ((1000000 : Nat) : Int) from rfl,
      show (1000 : Int) = ((1000 : Nat) : Int) from rfl, Nat.cast_lt, htdiv, decInt_natCast]
  · rw [if_pos (by omega), if_pos (by omega), show (10000000 : Int) = ((10000000 : Nat) : Int) from rfl,
      htdiv, decInt_natCast, decInt2_natCast]

/-! ## Benchmarks -/

/-- `mdio_common_bench_cb` between two readings of the clock, with what it
prints. -/
def benchPrint (start stop : Timespec) : OpCallback CStr := fun data err out =>
  let wrong := if data.length ≠ 0 then
    "Read back ".toList ++ dec data.length ++ " incorrect values:\n".toList ++
      data.flatMap fun word => '\t' :: wordLine word
    else []
  let err := (mdioCommonBenchCb data err []).1
  (err, out ++ wrong ++ (if err ≠ 0 then "Benchmark failed after ".toList
    else "Performed 1000 reads in ".toList) ++ elapsedText (elapsed start stop))

end MdioTools.Client
