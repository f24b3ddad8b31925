/-!
The clock of the host. Nothing in a program tells what a clock will show, so a clock is the list of
all its readings, in the order in which they are asked for.
-/

namespace Lox

structure Clock where
  reading : Nat → Float
  taken : Nat

namespace Clock

def now (c : Clock) : Float := c.reading c.taken

def tick (c : Clock) : Clock := { c with taken := c.taken + 1 }

def steady (start interval : Float) : Clock := ⟨fun n => start + Float.ofNat n * interval, 0⟩

def stopped : Clock := ⟨fun _ => 0, 0⟩

end Clock

end Lox
