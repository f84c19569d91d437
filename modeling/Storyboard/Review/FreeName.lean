/-!
# Free names

The first name that is not taken among a base name and the same name with a number
behind it, counting from two.  The numbers come from a counter of 32 bits.  What happens
beyond its largest number depends on the build: the program stops if it checks for
overflow, and otherwise the counter goes on from its least number.

A repair gives a name in any case.  Where a checked counter stops, it counts on without
a bound.
-/

namespace Storyboard

/-- A name with a number behind it. -/
def numberedName (base : String) (n : Int) : String := base ++ "_" ++ toString n

/-- How the numbers behind a name are counted. -/
inductive Counter where
  /-- With 32 bits, and the program stops at an overflow. -/
  | checked
  /-- With 32 bits, and an overflow wraps around. -/
  | wrapping
  /-- With numbers of any size. -/
  | unbounded

namespace Counter

/-- The number after another one, unless the program stops there. -/
def next : Counter → Int → Option Int
  | checked, n => if n < Int32.maxValue.toInt then some (n + 1) else none
  | wrapping, n => some (Int32.ofInt (n + 1)).toInt
  | unbounded, n => some (n + 1)

/--
The first free name with a number from `n` on, if so many turns are enough to come to it.
The counter moves on before a name is tried, so that the largest number is never tried
where the program stops at an overflow.
-/
def search (c : Counter) (taken : List String) (base : String) : Nat → Int → Option String
  | 0, _ => none
  | turns + 1, n =>
    match c.next n with
    | none => none
    | some following =>
      if numberedName base n ∈ taken then search c taken base turns following
      else some (numberedName base n)

/--
The name itself if it is free, else the first free one with a number behind it.  As many
turns as there are taken names are enough: what is not found in these is never found.
-/
def firstFree (c : Counter) (taken : List String) (base : String) : Option String :=
  if base ∈ taken then c.search taken base taken.length 2 else some base

end Counter

/-- The free name that a repair gives. -/
def freeName (taken : List String) (base : String) : String :=
  match Counter.checked.firstFree taken base with
  | some name => name
  | none => (Counter.unbounded.firstFree taken base).getD base

end Storyboard
