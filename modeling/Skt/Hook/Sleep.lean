import Skt.Lib.CString

/-!
# Hooked sleeps

The interval that the hooked `sleep`, `usleep` and `nanosleep` pass to
`IOManager::addTimer`, which takes a `uint64_t`. Each of them converts to milliseconds in a
type of its own: `unsigned int`, `useconds_t`, and `long` cut down to `int`.
-/

namespace Skt

namespace Hook

open Lib Lib.CString

/-- A `timespec` that the kernel accepts. `tv_sec` and `tv_nsec` are `long`s. -/
structure Timespec where
  sec : ℤ
  nsec : ℤ
  sec_nonneg : 0 ≤ sec
  sec_le : sec ≤ longMax
  nsec_nonneg : 0 ≤ nsec
  nsec_lt : nsec < 1000000000

inductive Sleep
  | sleep (seconds : UInt32)
  | usleep (usec : UInt32)
  | nanosleep (req : Timespec)

/-- The value of a `long`, if it does not overflow. -/
def long (v : ℤ) : Option ℤ := if v ≤ longMax then some v else none

/-- `req->tv_sec * 1000 + req->tv_nsec / 1000`. -/
def timeoutMs (req : Timespec) : Option ℤ :=
  (long (req.sec * 1000)).bind fun ms => long (ms + req.nsec / 1000)

/-- The interval that is passed to `addTimer`; `none` if its computation overflows. -/
def interval : Sleep → Option UInt64
  | .sleep seconds => some (seconds * 1000).toUInt64
  | .usleep usec => some (usec / 1000).toUInt64
  | .nanosleep req => (timeoutMs req).map fun ms => UInt64.ofInt (toInt32 ms)

/-- The requested duration in whole milliseconds. -/
def requested : Sleep → ℕ
  | .sleep seconds => seconds.toNat * 1000
  | .usleep usec => usec.toNat / 1000
  | .nanosleep req => (req.sec * 1000 + req.nsec / 1000000).toNat

/-- The timer is set for the requested duration. -/
def Exact (c : Sleep) : Prop := (interval c).map UInt64.toNat = some (requested c)

/-- When it is. -/
def InRange : Sleep → Prop
  | .sleep seconds => seconds.toNat ≤ 4294967
  | .usleep _ => True
  | .nanosleep req => req.sec ≤ 2147483 ∧ req.nsec < 1000

theorem exact_sleep_iff (seconds : UInt32) :
    Exact (.sleep seconds) ↔ seconds.toNat ≤ 4294967 := by
  have hmul : (seconds * 1000).toUInt64.toNat = seconds.toNat * 1000 % 4294967296 := by
    rw [UInt32.toNat_toUInt64, UInt32.toNat_mul]
    rfl
  rw [Exact, interval, requested, Option.map_some, hmul, Option.some.injEq]
  omega

theorem exact_usleep (usec : UInt32) : Exact (.usleep usec) := by
  rw [Exact, interval, requested, Option.map_some, UInt32.toNat_toUInt64, UInt32.toNat_div]
  rfl

theorem toNat_ofInt (v : ℤ) :
    (UInt64.ofInt v).toNat = (v % 18446744073709551616).toNat := by
  rw [UInt64.ofInt, UInt64.toNat_ofNat']
  norm_num
  omega

/-- The conversion to `int` takes a number above its range far away from it. -/
theorem toInt32_ne {v w : ℤ} (hv : 2147483647 < v) (hw : w ≤ v)
    (hclose : v < w + 4294967296) : toInt32 v ≠ w := by
  unfold toInt32
  rw [Int.bmod_def]
  split_ifs <;> omega

theorem timeoutMs_eq_some {req : Timespec} {ms : ℤ} (h : timeoutMs req = some ms) :
    ms = req.sec * 1000 + req.nsec / 1000 ∧ ms ≤ longMax := by
  obtain ⟨s, hs, hms⟩ := Option.bind_eq_some_iff.mp h
  unfold long at hs hms
  split_ifs at hs with hle
  split_ifs at hms with hle'
  obtain rfl := Option.some.inj hs
  obtain rfl := Option.some.inj hms
  exact ⟨rfl, hle'⟩

theorem timeoutMs_of_le {req : Timespec} (h : req.sec ≤ 2147483) :
    timeoutMs req = some (req.sec * 1000 + req.nsec / 1000) := by
  have hnsec := req.nsec_lt
  have hsec : req.sec * 1000 ≤ longMax := by
    unfold longMax
    omega
  have hsum : req.sec * 1000 + req.nsec / 1000 ≤ longMax := by
    unfold longMax
    omega
  rw [timeoutMs, long, if_pos hsec, Option.bind_some, long, if_pos hsum]

theorem exact_nanosleep_iff (req : Timespec) :
    Exact (.nanosleep req) ↔ req.sec ≤ 2147483 ∧ req.nsec < 1000 := by
  have hsec := req.sec_nonneg
  have hnsec := req.nsec_nonneg
  have hlt := req.nsec_lt
  rw [Exact, interval, requested, Option.map_map]
  constructor
  · intro h
    obtain ⟨ms, hms, hinterval⟩ := Option.map_eq_some_iff.mp h
    obtain ⟨rfl, hle⟩ := timeoutMs_eq_some hms
    rw [Function.comp_apply, toNat_ofInt] at hinterval
    unfold longMax at hle
    by_cases hsmall : req.sec * 1000 + req.nsec / 1000 ≤ 2147483647
    · rw [toInt32_of_le (by omega) hsmall] at hinterval
      omega
    · -- the `int` is another number, or negative, and then its `uint64_t` is too large
      have hne := toInt32_ne (w := req.sec * 1000 + req.nsec / 1000000)
        (show 2147483647 < req.sec * 1000 + req.nsec / 1000 by omega) (by omega) (by omega)
      have hrange := Int.bmod_lt (x := req.sec * 1000 + req.nsec / 1000)
        (show 0 < 4294967296 by decide)
      have hrange' := Int.le_bmod (x := req.sec * 1000 + req.nsec / 1000)
        (show 0 < 4294967296 by decide)
      change toInt32 _ < _ at hrange
      change _ ≤ toInt32 _ at hrange'
      generalize toInt32 (req.sec * 1000 + req.nsec / 1000) = v at *
      omega
  · rintro ⟨hle, hnano⟩
    have hmicro : req.nsec / 1000 = 0 := by omega
    have hmilli : req.nsec / 1000000 = 0 := by omega
    rw [timeoutMs_of_le hle, Option.map_some, Function.comp_apply, hmicro, hmilli,
      toInt32_of_le (by omega) (by omega), toNat_ofInt, Int.emod_eq_of_lt (by omega) (by omega)]

/-- **Sleeps.** The interval is the requested duration for every `usleep`, for a `sleep` of
at most 4294967 seconds, and for a `nanosleep` of at most 2147483 seconds and less than a
microsecond: nanoseconds are divided by 1000. -/
theorem exact_iff_inRange (c : Sleep) : Exact c ↔ InRange c := by
  cases c with
  | sleep seconds => exact exact_sleep_iff seconds
  | usleep usec => exact iff_of_true (exact_usleep usec) trivial
  | nanosleep req => exact exact_nanosleep_iff req

/-- A `nanosleep` of one millisecond sets a timer for a second, and a `sleep` of 4294968
seconds one for less than a second. -/
theorem interval_nanosleep_ms :
    interval (.nanosleep ⟨0, 1000000, by decide, by decide, by decide, by decide⟩) = some 1000 ∧
      ¬Exact (.nanosleep ⟨0, 1000000, by decide, by decide, by decide, by decide⟩) ∧
      interval (.sleep 4294968) = some 704 ∧ ¬Exact (.sleep 4294968) := by
  refine ⟨by decide, ?_, by decide, ?_⟩
  · rw [exact_nanosleep_iff]
    exact fun h => absurd h.2 (by decide)
  · rw [exact_sleep_iff]
    decide

end Hook

end Skt
