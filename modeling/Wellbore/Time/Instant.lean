import Wellbore.Time.Calendar

/-!
# Simulation times

An instant is a second of universal time and the nanoseconds into it. A leap
second is kept as the second before it with a billion nanoseconds more, so it
sorts between its neighbours and prints as second 60.
-/

namespace Wellbore

/-- A point in universal time. -/
structure Instant where
  /-- Seconds since the start of 1970, leap seconds not counted. -/
  second : Int
  /-- Nanoseconds into the second; a billion or more within a leap second. -/
  nano : Nat := 0
deriving Repr, DecidableEq, Inhabited

namespace Instant

def before (a b : Instant) : Bool :=
  a.second < b.second || (a.second = b.second && a.nano < b.nano)

/-- Whether `a` does not lie after `b`. -/
def notAfter (a b : Instant) : Bool := !b.before a

theorem before_iff {a b : Instant} : a.before b = true ↔
    a.second < b.second ∨ a.second = b.second ∧ a.nano < b.nano := by
  simp [before]

theorem notAfter_iff {a b : Instant} : a.notAfter b = true ↔
    a.second < b.second ∨ a.second = b.second ∧ a.nano ≤ b.nano := by
  rw [notAfter, Bool.not_eq_true', Bool.eq_false_iff, Ne, before_iff]
  omega

theorem notAfter_eq_false {a b : Instant} : a.notAfter b = false ↔ b.before a = true := by
  rw [notAfter, Bool.not_eq_false']

theorem notAfter_refl (a : Instant) : a.notAfter a = true :=
  notAfter_iff.mpr (by omega)

theorem notAfter_trans (a b c : Instant) (hab : a.notAfter b = true)
    (hbc : b.notAfter c = true) : a.notAfter c = true := by
  rw [notAfter_iff] at *
  omega

theorem notAfter_total (a b : Instant) : (a.notAfter b || b.notAfter a) = true := by
  rw [Bool.or_eq_true, notAfter_iff, notAfter_iff]
  omega

theorem notAfter_antisymm {a b : Instant} (hab : a.notAfter b = true)
    (hba : b.notAfter a = true) : a = b := by
  rw [notAfter_iff] at *
  obtain ⟨second, nano⟩ := a
  obtain ⟨second', nano'⟩ := b
  rw [Instant.mk.injEq]
  dsimp only at *
  omega

/-- The calendar day an instant falls on. -/
def date (t : Instant) : Time.Date := .ofDayNumber (t.second / 86400)

/-- The instant, if a date can name its day. -/
def dated? (t : Instant) : Option Instant := if t.date.valid then some t else none

/-- The instant `ms` milliseconds after the start of 1970, if a date can name its day. -/
def ofMilliseconds? (ms : Int) : Option Instant :=
  dated? ⟨ms / 1000, (ms % 1000).toNat * 1000000⟩

/-- The instant `days` whole days after the start of the year 2000, if a date can
name that day. -/
def ofDaysFrom2000? (days : Int) : Option Instant :=
  dated? ⟨((⟨2000, 1, 1⟩ : Time.Date).dayNumber + days) * 86400, 0⟩

end Instant

end Wellbore
