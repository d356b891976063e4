/-!
# Timers

How long a timer runs.  No timer runs for more than thirty years: who asks for a longer pause is
woken after that.
-/
namespace Dataflow.Timer

/-- The longest time that a timer runs, in milliseconds: thirty years of 365 days. -/
def longest : Nat := 30 * 365 * 86400 * 1000

/-- The time that a timer runs when it is set to so many milliseconds. -/
def span (length : Nat) : Nat := min length longest

end Dataflow.Timer
