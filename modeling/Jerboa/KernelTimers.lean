import Mathlib.Data.List.Infix
import Mathlib.Tactic

/-!
# Timers of the kernel

The timers of `runtime/timer.c`, and the timer descriptors of `unix/timer.c`,
which count one reference for the open descriptor and one for the timer while
it is registered.  The arming call takes the reference of the timer; its handler
gives it back, and decides by the flag `interval` of the descriptor whether more
expiries follow.
-/

namespace Jerboa.Kernel

/-- A timer; its times are unsigned 64-bit numbers. -/
structure Timer where
  expiry : Nat := 0
  interval : Nat := 0
  active : Bool := false
  queued : Bool := false
  deriving DecidableEq, Repr

/-- The fields as `register_timer` writes them. -/
def Timer.register (now val : Nat) (absolute : Bool) (interval : Nat) : Timer where
  expiry := if absolute then val else (now + val) % 2 ^ 64
  interval := interval
  active := true
  queued := true

/-- The overruns that `timer_service` counts for a timer that is late by `delta`. -/
def Timer.overruns (t : Timer) (delta : Nat) : Nat :=
  if t.interval ≠ 0 then if delta > t.interval then delta / t.interval + 1 else 1 else 1

/-- What `timer_service` writes into a due timer before it calls the handler. -/
def Timer.expire (t : Timer) (delta : Nat) : Timer :=
  if t.interval ≠ 0 then
    { t with expiry := (t.expiry + t.interval * t.overruns delta) % 2 ^ 64, queued := false }
  else { t with active := false, queued := false }

/-! ### Timer descriptors -/

structure UnixTimer where
  interval : Bool := false
  t : Timer := {}
  overruns : Nat := 0
  refcount : Nat := 1
  deriving DecidableEq, Repr

def UnixTimer.release (ut : UnixTimer) : UnixTimer :=
  { ut with refcount := ut.refcount - 1 }

/-- `timerfd_timer_expire`; no overruns stand for `timer_disabled`. -/
def timerfdTimerExpire (ut : UnixTimer) : (overruns : Option Nat) → UnixTimer
  | some overruns =>
    let ut := { ut with overruns := (ut.overruns + overruns) % 2 ^ 64 }
    if ut.interval then ut else ut.release
  | none => ut.release

def removeUnixTimer (ut : UnixTimer) : UnixTimer :=
  if ut.t.active then
    if ut.t.queued then
      timerfdTimerExpire { ut with t := { ut.t with active := false, queued := false } } none
    else { ut with t := { ut.t with active := false } }
  else ut

/-- The arguments of `timerfd_settime`, whether its two structures can be
accessed, and the time of the clock. -/
structure Settime where
  flags : BitVec 32
  newFault : Bool := false
  oldFault : Bool := false
  tinit : Nat
  interval : Nat
  now : Nat := 0

def tfdTimerAbstime : BitVec 32 := 1

def tfdTimerCancelOnSet : BitVec 32 := 2

/-- The end of `timerfd_settime`, for a value other than zero. -/
def UnixTimer.arm (call : Settime) (ut : UnixTimer) : UnixTimer where
  interval := if call.interval ≠ 0 then true else ut.interval
  t := .register call.now call.tinit (call.flags &&& tfdTimerAbstime ≠ 0) call.interval
  overruns := ut.overruns
  refcount := ut.refcount + 1

def timerfdSettime (call : Settime) (ut : UnixTimer) : UnixTimer :=
  if call.flags &&& ~~~(tfdTimerAbstime ||| tfdTimerCancelOnSet) ≠ 0 then ut
  else if call.newFault then ut
  else if call.oldFault then ut
  else if call.tinit = 0 then { removeUnixTimer ut with overruns := 0 }
  else .arm call { removeUnixTimer ut with overruns := 0 }

/-- One turn of the loop of `timer_service`, on the timer of the descriptor and
late by `delta`. -/
def serviceUnixTimer (delta : Nat) (ut : UnixTimer) : UnixTimer :=
  if ut.t.queued then
    let served := timerfdTimerExpire { ut with t := ut.t.expire delta } (ut.t.overruns delta)
    if ut.t.interval ≠ 0 then
      if served.t.active then { served with t := { served.t with queued := true } }
      else timerfdTimerExpire served none
    else served
  else ut

inductive TimerfdCall
  | settime (call : Settime)
  | expire (delta : Nat)

def TimerfdCall.perform (ut : UnixTimer) : TimerfdCall → UnixTimer
  | .settime call => timerfdSettime call ut
  | .expire delta => serviceUnixTimer delta ut

def timerfdRun (calls : List TimerfdCall) : UnixTimer :=
  calls.foldl TimerfdCall.perform {}

/-! ### The reference count -/

namespace UnixTimer

variable {ut : UnixTimer}

def Balanced (ut : UnixTimer) : Prop :=
  ut.refcount = 1 + if ut.t.active then 1 else 0

instance : Decidable ut.Balanced :=
  inferInstanceAs (Decidable (_ = _))

/-- What holds between two calls: a timer is active exactly while it is queued,
and the flag of the descriptor is set while its timer is periodic. -/
structure Sound (ut : UnixTimer) : Prop where
  balanced : ut.Balanced
  queued : ut.t.queued = ut.t.active
  periodic : ut.t.active → ut.t.interval ≠ 0 → ut.interval

end UnixTimer

/-- An expiry finds the flag of the descriptor clear when its timer is one-shot. -/
def TimerfdCall.Fits (ut : UnixTimer) : TimerfdCall → Prop
  | .settime _ => True
  | .expire _ => ut.t.active → ut.t.interval = 0 → ut.interval = false

variable {ut : UnixTimer}

section

variable (sound : ut.Sound)

include sound

theorem removeUnixTimer_sound :
    (removeUnixTimer ut).refcount = 1 ∧ (removeUnixTimer ut).t.active = false ∧
      (removeUnixTimer ut).t.queued = false := by
  have count := sound.balanced
  have queued := sound.queued
  cases active : ut.t.active <;>
    simp_all [removeUnixTimer, timerfdTimerExpire, UnixTimer.release, UnixTimer.Balanced]

theorem timerfdSettime_sound (call : Settime) :
    (timerfdSettime call ut).Sound := by
  obtain ⟨count, active, queued⟩ := removeUnixTimer_sound sound
  unfold timerfdSettime
  split_ifs
  · exact sound
  · exact sound
  · exact sound
  · exact ⟨by simp [UnixTimer.Balanced, count, active], by simp [active, queued], by simp [active]⟩
  · exact ⟨by simp [UnixTimer.Balanced, UnixTimer.arm, Timer.register, count], rfl,
      by simp_all [UnixTimer.arm, Timer.register]⟩

/-- A periodic timer keeps its reference, and a one-shot timer gives it back
unless the flag is left from a periodic one. -/
theorem serviceUnixTimer_balanced_iff (delta : Nat) :
    (serviceUnixTimer delta ut).Balanced ↔ (TimerfdCall.expire delta).Fits ut := by
  obtain ⟨count, queued, periodic⟩ := sound
  cases active : ut.t.active <;> cases flag : ut.interval <;> by_cases same : ut.t.interval = 0 <;>
    simp_all [serviceUnixTimer, timerfdTimerExpire, UnixTimer.release, UnixTimer.Balanced,
      Timer.expire, TimerfdCall.Fits]

theorem serviceUnixTimer_sound {delta : Nat}
    (fits : (TimerfdCall.expire delta).Fits ut) : (serviceUnixTimer delta ut).Sound := by
  refine ⟨(serviceUnixTimer_balanced_iff sound delta).mpr fits, ?_, ?_⟩
  all_goals
    obtain ⟨count, queued, periodic⟩ := sound
    cases active : ut.t.active <;> cases flag : ut.interval <;> by_cases same : ut.t.interval = 0 <;>
      simp_all [serviceUnixTimer, timerfdTimerExpire, UnixTimer.release, Timer.expire]

theorem TimerfdCall.perform_balanced_iff (call : TimerfdCall) :
    (call.perform ut).Balanced ↔ call.Fits ut := by
  cases call with
  | settime call => exact iff_of_true (timerfdSettime_sound sound call).balanced trivial
  | expire delta => exact serviceUnixTimer_balanced_iff sound delta

theorem TimerfdCall.perform_sound {call : TimerfdCall} (fits : call.Fits ut) :
    (call.perform ut).Sound := by
  cases call with
  | settime call => exact timerfdSettime_sound sound call
  | expire delta => exact serviceUnixTimer_sound sound fits

end

theorem timerfdRun_concat (calls : List TimerfdCall) (call : TimerfdCall) :
    timerfdRun (calls ++ [call]) = call.perform (timerfdRun calls) := by
  simp [timerfdRun]

theorem timerfdRun_sound {calls : List TimerfdCall}
    (fits : ∀ before call, before ++ [call] <+: calls → (timerfdRun before).Sound →
      call.Fits (timerfdRun before)) :
    (timerfdRun calls).Sound := by
  induction calls using List.reverseRecOn with
  | nil => exact ⟨rfl, rfl, by simp [timerfdRun]⟩
  | append_singleton calls call ih =>
    have sound : (timerfdRun calls).Sound :=
      ih fun before call first => fits before call (first.trans (List.prefix_append _ _))
    rw [timerfdRun_concat]
    exact TimerfdCall.perform_sound sound (fits calls call (List.prefix_refl _) sound)

/-- The count is right after every call exactly when no one-shot timer expires
on a descriptor that has been armed with an interval before. -/
theorem timerfd_references_iff (calls : List TimerfdCall) :
    (∀ before, before <+: calls → (timerfdRun before).Balanced) ↔
      ∀ before call, before ++ [call] <+: calls → call.Fits (timerfdRun before) := by
  constructor
  · intro balanced before call first
    have fits : ∀ before call, before ++ [call] <+: calls → (timerfdRun before).Sound →
        call.Fits (timerfdRun before) := by
      intro before call first sound
      rw [← TimerfdCall.perform_balanced_iff sound call, ← timerfdRun_concat]
      exact balanced _ first
    have sound : (timerfdRun before).Sound := timerfdRun_sound fun earlier call' second =>
      fits earlier call' (second.trans ((List.prefix_append _ _).trans first))
    exact fits before call first sound
  · intro fits before first
    exact (timerfdRun_sound fun earlier call second _ =>
      fits earlier call (second.trans first)).balanced

/-- Armed every five units, then once: the last expiry keeps the reference. -/
theorem timerfd_references_leak :
    ¬ (timerfdRun [.settime ⟨1, false, false, 5, 5, 0⟩, .settime ⟨1, false, false, 7, 0, 0⟩,
      .expire 0]).Balanced := by
  decide

end Jerboa.Kernel
