import Storyboard.Proofs.Review.Counting
import Storyboard.Text.Blank

/-!
# Free names are free

A repair counts as far as it has to, and gives the name with the least number that is
free.  A counter of 32 bits finds the same name if it comes to it.  Otherwise all the
numbers that it gives on its way up are taken, and those are more than two thousand
million.  Then the search has no result, or a name with a number below zero.
-/

namespace Storyboard

/-! ## The name that a repair gives -/

section FreeName

variable {taken : List String} {base : String}

theorem freeName_of_notMem (hbase : base ∉ taken) : freeName taken base = base := by
  rw [freeName, Counter.firstFree_of_notMem hbase]

theorem freeName_of_isFirstFree {N : Int} (hbase : base ∈ taken)
    (h : IsFirstFree taken base 2 N) : freeName taken base = numberedName base N := by
  rw [freeName]
  cases hchecked : Counter.checked.firstFree taken base with
  | none =>
      have hunbounded := Counter.firstFree_of_isFirstFree (c := .unbounded) hbase h trivial
      rw [hunbounded, Option.getD_some]
  | some name =>
      obtain ⟨turns, hsearch⟩ := (Counter.firstFree_eq_some_iff hbase).mp hchecked
      obtain ⟨N', rfl, h'⟩ := Counter.isFirstFree_of_search hsearch (by rintro ⟨⟩)
      rw [h.unique h']

/-- The free name is the name itself, or the name with the least number that is free. -/
theorem freeName_cases (taken : List String) (base : String) :
    (base ∉ taken ∧ freeName taken base = base) ∨
      base ∈ taken ∧ ∃ N, IsFirstFree taken base 2 N ∧
        freeName taken base = numberedName base N := by
  by_cases hbase : base ∈ taken
  · obtain ⟨N, hfirst⟩ := exists_isFirstFree hbase 2
    exact Or.inr ⟨hbase, N, hfirst, freeName_of_isFirstFree hbase hfirst⟩
  · exact Or.inl ⟨hbase, freeName_of_notMem hbase⟩

theorem freeName_not_mem (taken : List String) (base : String) :
    freeName taken base ∉ taken := by
  rcases freeName_cases taken base with ⟨hbase, heq⟩ | ⟨-, N, hfirst, heq⟩
  · rwa [heq]
  · rw [heq]
    exact hfirst.free

theorem isBlank_freeName (h : Text.isBlank base = false) :
    Text.isBlank (freeName taken base) = false := by
  rcases freeName_cases taken base with ⟨-, heq⟩ | ⟨-, N, -, heq⟩
  · rw [heq, h]
  · unfold Text.isBlank at h ⊢
    rw [heq, numberedName_toList, List.all_append, h, Bool.false_and]

end FreeName

/-! ## Where a counter of 32 bits comes to a free name -/

/-- The name itself if it is free, else the name with the least number that is free. -/
structure IsLeastFree (taken : List String) (base name : String) : Prop where
  free : name ∉ taken
  itself : base ∉ taken → name = base
  numbered : base ∈ taken → ∃ N : Int, 2 ≤ N ∧ N ≤ taken.toFinset.card + 1 ∧
    name = numberedName base N ∧ ∀ i, 2 ≤ i → i < N → numberedName base i ∈ taken

section LeastFree

variable {taken : List String} {base name : String}

theorem IsFirstFree.isLeastFree {N : Int} (h : IsFirstFree taken base 2 N)
    (hbase : base ∈ taken) : IsLeastFree taken base (numberedName base N) where
  free := h.free
  itself := fun hfree => absurd hbase hfree
  numbered := fun _ => ⟨N, h.le, h.le_card hbase, rfl, h.passed⟩

theorem IsLeastFree.exists_isFirstFree (h : IsLeastFree taken base name) (hbase : base ∈ taken) :
    ∃ N, name = numberedName base N ∧ IsFirstFree taken base 2 N := by
  obtain ⟨N, hle, -, rfl, hpassed⟩ := h.numbered hbase
  exact ⟨N, rfl, hle, h.free, hpassed⟩

theorem isLeastFree_iff : IsLeastFree taken base name ↔ name = freeName taken base := by
  by_cases hbase : base ∈ taken
  · constructor
    · intro h
      obtain ⟨N, rfl, hfirst⟩ := h.exists_isFirstFree hbase
      exact (freeName_of_isFirstFree hbase hfirst).symm
    · rintro rfl
      obtain ⟨N, hfirst⟩ := exists_isFirstFree hbase 2
      rw [freeName_of_isFirstFree hbase hfirst]
      exact hfirst.isLeastFree hbase
  · rw [freeName_of_notMem hbase]
    refine ⟨fun h => h.itself hbase, ?_⟩
    rintro rfl
    exact ⟨hbase, fun _ => rfl, fun hmem => absurd hmem hbase⟩

end LeastFree

/--
A search finds the name that is asked for, the name itself or the one with the least free
number, exactly if the counter gives some free number on its way up.  With fewer than
2147483646 taken names it always does.  There is one such name, and a repair gives it.
-/
theorem Counter.firstFree_isLeastFree_iff (c : Counter) (taken : List String) (base : String) :
    ((∃ name, c.firstFree taken base = some name ∧ IsLeastFree taken base name) ↔
      (base ∈ taken → ∃ N, 2 ≤ N ∧ c.Gives N ∧ numberedName base N ∉ taken)) ∧
    (taken.toFinset.card < 2147483646 →
      ∃ name, c.firstFree taken base = some name ∧ IsLeastFree taken base name) ∧
    (∀ name, IsLeastFree taken base name ↔ name = freeName taken base) ∧
    ∀ taken', (∀ name, name ∈ taken' ↔ name ∈ taken) →
      c.firstFree taken' base = c.firstFree taken base := by
  have hfinds : (base ∈ taken → ∃ N, 2 ≤ N ∧ c.Gives N ∧ numberedName base N ∉ taken) →
      ∃ name, c.firstFree taken base = some name ∧ IsLeastFree taken base name := by
    intro hgiven
    by_cases hbase : base ∈ taken
    · obtain ⟨M, hle, hgives, hfree⟩ := hgiven hbase
      obtain ⟨N, hfirst⟩ := exists_isFirstFree hbase 2
      have hNM : N ≤ M := not_lt.mp fun hlt => hfree (hfirst.passed M hle hlt)
      exact ⟨_, firstFree_of_isFirstFree hbase hfirst (gives_of_le hgives hNM),
        hfirst.isLeastFree hbase⟩
    · exact ⟨base, firstFree_of_notMem hbase,
        isLeastFree_iff.mpr (freeName_of_notMem hbase).symm⟩
  refine ⟨⟨?_, hfinds⟩, fun hcard => hfinds fun hbase => ?_, fun _ => isLeastFree_iff,
    fun _ => firstFree_congr⟩
  · rintro ⟨name, hname, hleast⟩ hbase
    obtain ⟨N, rfl, hfirst⟩ := hleast.exists_isFirstFree hbase
    obtain ⟨turns, hsearch⟩ := (firstFree_eq_some_iff hbase).mp hname
    obtain ⟨M, heq, hgives, -⟩ := exists_of_search hsearch fun _ => by decide
    obtain rfl := numberedName_injective base heq
    exact ⟨N, hfirst.le, hgives, hfirst.free⟩
  · obtain ⟨N, hfirst⟩ := exists_isFirstFree hbase 2
    have hcount := hfirst.le_card hbase
    exact ⟨N, hfirst.le, gives_of_lt (by omega), hfirst.free⟩

example : Counter.checked.firstFree ["line_A_B", "line_A_B_2", "line_A_B_4"] "line_A_B" =
    some "line_A_B_3" := by
  decide +kernel

/-! ## Where it does not -/

/-- A name, and the name with every number from two on that has 32 bits. -/
def usedUp (base : String) : List String :=
  base :: (List.range 2147483646).map fun i : Nat => numberedName base (i + 2)

section UsedUp

variable {base : String} {n : Int}

theorem numberedName_mem_usedUp :
    numberedName base n ∈ usedUp base ↔ 2 ≤ n ∧ n ≤ 2147483647 := by
  rw [usedUp, List.mem_cons, or_iff_right (numberedName_ne base n), List.mem_map]
  constructor
  · rintro ⟨i, hi, heq⟩
    have hlt := List.mem_range.mp hi
    have hn : (i : Int) + 2 = n := numberedName_injective base heq
    omega
  · rintro ⟨hlow, hhigh⟩
    obtain ⟨i, rfl⟩ := Int.le.dest hlow
    exact ⟨i, List.mem_range.mpr (by omega), by rw [Int.add_comm]⟩

theorem isFirstFree_usedUp : IsFirstFree (usedUp base) base 2 2147483648 where
  le := by decide
  free := fun hmem => absurd (numberedName_mem_usedUp.mp hmem).2 (by decide)
  passed := fun i hi hlt => numberedName_mem_usedUp.mpr ⟨hi, by omega⟩

/-- A search that checks for overflow comes to no free name. -/
theorem Counter.search_usedUp (turns : Nat) :
    checked.search (usedUp base) base turns 2 = none := by
  by_contra hne
  obtain ⟨name, hname⟩ := Option.ne_none_iff_exists'.mp hne
  obtain ⟨N, rfl, hfirst⟩ := isFirstFree_of_search hname (by rintro ⟨⟩)
  obtain ⟨M, heq, hgives, -⟩ := exists_of_search hname (by rintro ⟨⟩)
  obtain rfl := numberedName_injective base heq
  rw [hfirst.unique isFirstFree_usedUp] at hgives
  have hlt : (2147483648 : Int) < 2147483647 := hgives
  exact absurd hlt (by decide)

/-- A search that wraps around goes on with the least number of 32 bits. -/
theorem Counter.firstFree_usedUp :
    wrapping.firstFree (usedUp base) base = some (numberedName base (-2147483648)) := by
  have hbase : base ∈ usedUp base := List.mem_cons_self
  obtain ⟨k, hk⟩ : ∃ k : Nat, (2 : Int) + k = 2147483647 := ⟨2147483645, rfl⟩
  have hpassed : ∀ i : Int, 2 ≤ i → i < 2 + k → numberedName base i ∈ usedUp base :=
    fun i hi hlt => numberedName_mem_usedUp.mpr ⟨hi, by omega⟩
  have hlast : numberedName base 2147483647 ∈ usedUp base :=
    numberedName_mem_usedUp.mpr (by decide)
  have hleast : numberedName base (-2147483648) ∉ usedUp base :=
    fun hmem => absurd (numberedName_mem_usedUp.mp hmem).1 (by decide)
  have hgives : wrapping.Gives (2 + k) := hk.le
  have hwraps : wrapping.next 2147483647 = some (-2147483648) := by decide
  refine (firstFree_eq_some_iff hbase).mpr ⟨2 + k, ?_⟩
  rw [search_of_passed hgives le_rfl hpassed, hk, search_of_mem hlast hwraps,
    search_of_notMem hleast rfl]

end UsedUp

/--
A counter of 32 bits can miss the name with the least free number.  Where all its numbers
are taken from two on, the search has no result if an overflow stops it, however
many turns it takes, and a name with a number below zero if the counter wraps around.
-/
theorem Counter.exists_firstFree_not_isLeastFree :
    IsLeastFree (usedUp "A") "A" "A_2147483648" ∧
      (∀ turns, checked.search (usedUp "A") "A" turns 2 = none) ∧
      checked.firstFree (usedUp "A") "A" = none ∧
      wrapping.firstFree (usedUp "A") "A" = some "A_-2147483648" := by
  have hbase : "A" ∈ usedUp "A" := List.mem_cons_self
  refine ⟨isFirstFree_usedUp.isLeastFree hbase, search_usedUp, ?_, firstFree_usedUp⟩
  rw [firstFree, if_pos hbase, search_usedUp]

end Storyboard
