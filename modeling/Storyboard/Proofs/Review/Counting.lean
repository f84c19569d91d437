import Mathlib.Data.Finset.Card
import Mathlib.Data.List.Nodup
import Mathlib.Data.Nat.Find
import Storyboard.Proofs.Text.Digits
import Storyboard.Review.FreeName

/-!
# Counting up to a free name

Numbers behind a name give names that differ from each other and from the name itself.
So among the name and as many numbers as there are taken names one is free.

A counter comes to the least of them if that is among the numbers that it gives on its
way up.  How many turns a search still needs depends on nothing but the number that it
has come to.  Up to its end it does not come to a number twice, so that it does not need
more turns than there are taken names.
-/

namespace Storyboard

/-! ## Numbers behind a name -/

theorem numberedName_toList (base : String) (n : Int) :
    (numberedName base n).toList = base.toList ++ '_' :: n.repr.toList := by
  simp [numberedName, Int.toString_eq_repr]

theorem numberedName_injective (base : String) : Function.Injective (numberedName base) := by
  intro i j h
  have hlist := congrArg String.toList h
  rw [numberedName_toList, numberedName_toList] at hlist
  exact toList_repr_injective (List.cons.inj (List.append_cancel_left hlist)).2

theorem numberedName_ne (base : String) (n : Int) : numberedName base n ≠ base := by
  intro h
  have hlength := congrArg List.length (congrArg String.toList h)
  rw [numberedName_toList, List.length_append, List.length_cons] at hlength
  omega

/-! ## The least free number -/

/-- The least number from `n` on that gives a free name. -/
structure IsFirstFree (taken : List String) (base : String) (n N : Int) : Prop where
  le : n ≤ N
  free : numberedName base N ∉ taken
  passed : ∀ i, n ≤ i → i < N → numberedName base i ∈ taken

section FirstFree

variable {taken : List String} {base : String} {n N N' : Int}

theorem IsFirstFree.unique (h : IsFirstFree taken base n N) (h' : IsFirstFree taken base n N') :
    N = N' := by
  rcases lt_trichotomy N N' with hlt | heq | hgt
  · exact absurd (h'.passed N h.le hlt) h.free
  · exact heq
  · exact absurd (h.passed N' h'.le hgt) h'.free

/-- The name and the numbers behind it are so many different taken names. -/
theorem length_lt_card (hbase : base ∈ taken) {ns : List Int} (hns : ns.Nodup)
    (htaken : ∀ i ∈ ns, numberedName base i ∈ taken) : ns.length < taken.toFinset.card := by
  have hnodup : (base :: ns.map (numberedName base)).Nodup := by
    refine List.nodup_cons.mpr ⟨fun hmem => ?_, hns.map (numberedName_injective base)⟩
    obtain ⟨i, -, hi⟩ := List.mem_map.mp hmem
    exact numberedName_ne base i hi
  have hsubset : (base :: ns.map (numberedName base)).toFinset ⊆ taken.toFinset := by
    intro name hname
    rw [List.mem_toFinset] at hname ⊢
    rcases List.mem_cons.mp hname with rfl | hname
    · exact hbase
    · obtain ⟨i, hi, rfl⟩ := List.mem_map.mp hname
      exact htaken i hi
  calc
    ns.length < (base :: ns.map (numberedName base)).length := by simp
    _ = (base :: ns.map (numberedName base)).toFinset.card :=
      (List.toFinset_card_of_nodup hnodup).symm
    _ ≤ taken.toFinset.card := Finset.card_le_card hsubset

/-- So many numbers in a row are fewer than the taken names if their names are taken. -/
theorem lt_card_of_passed (hbase : base ∈ taken) {k : Nat}
    (hpassed : ∀ i, n ≤ i → i < n + k → numberedName base i ∈ taken) :
    k < taken.toFinset.card := by
  have hnodup : ((List.range k).map fun i : Nat => n + i).Nodup :=
    List.nodup_range.map fun i j hij => Int.ofNat_inj.mp (Int.add_left_cancel hij)
  have hlt := length_lt_card hbase hnodup fun i hi => by
    obtain ⟨j, hj, rfl⟩ := List.mem_map.mp hi
    have := List.mem_range.mp hj
    exact hpassed _ (by omega) (by omega)
  simpa using hlt

theorem exists_isFirstFree (hbase : base ∈ taken) (n : Int) :
    ∃ N, IsFirstFree taken base n N := by
  have hfree : ∃ k : Nat, numberedName base (n + k) ∉ taken := by
    by_contra hall
    push Not at hall
    refine lt_irrefl taken.toFinset.card (lt_card_of_passed (n := n) hbase fun i hi _ => ?_)
    obtain ⟨k, rfl⟩ := Int.le.dest hi
    exact hall k
  refine ⟨n + Nat.find hfree, by omega, Nat.find_spec hfree, fun i hi hlt => ?_⟩
  obtain ⟨k, rfl⟩ := Int.le.dest hi
  exact not_not.mp (Nat.find_min hfree (by omega))

theorem IsFirstFree.le_card (h : IsFirstFree taken base 2 N) (hbase : base ∈ taken) :
    N ≤ taken.toFinset.card + 1 := by
  obtain ⟨k, rfl⟩ := Int.le.dest h.le
  have := lt_card_of_passed hbase h.passed
  omega

end FirstFree

/-! ## Counting up -/

namespace Counter

/-- The numbers that a counter gives on its way up; a checked one stops before its largest. -/
def Gives : Counter → Int → Prop
  | checked, N => N < Int32.maxValue.toInt
  | wrapping, N => N ≤ Int32.maxValue.toInt
  | unbounded, _ => True

variable {c : Counter} {taken : List String} {base name : String} {n N : Int} {turns : Nat}

theorem gives_of_le {M : Int} (hM : c.Gives M) (hle : N ≤ M) : c.Gives N := by
  cases c with
  | checked => exact hle.trans_lt hM
  | wrapping => exact hle.trans hM
  | unbounded => trivial

theorem gives_of_lt (h : N < 2147483647) : c.Gives N := by
  cases c with
  | checked => exact h
  | wrapping => exact h.le
  | unbounded => trivial

theorem next_of_lt (hN : c.Gives N) (hn : 2 ≤ n) (hlt : n < N) : c.next n = some (n + 1) := by
  cases c with
  | checked => exact if_pos (hlt.trans hN)
  | wrapping =>
      have hN : N ≤ 2147483647 := hN
      exact congrArg some (Int32.toInt_ofInt_of_le (by omega) (by omega))
  | unbounded => rfl

theorem exists_next (hN : c.Gives N) : ∃ following, c.next N = some following := by
  cases c with
  | checked => exact ⟨N + 1, if_pos hN⟩
  | wrapping => exact ⟨_, rfl⟩
  | unbounded => exact ⟨N + 1, rfl⟩

theorem search_of_mem (h : numberedName base n ∈ taken) {following : Int}
    (hnext : c.next n = some following) :
    c.search taken base (turns + 1) n = c.search taken base turns following := by
  rw [search, hnext]
  exact if_pos h

theorem search_of_notMem (h : numberedName base n ∉ taken) {following : Int}
    (hnext : c.next n = some following) :
    c.search taken base (turns + 1) n = some (numberedName base n) := by
  rw [search, hnext]
  exact if_neg h

/-- A search passes as many taken names as it is given turns. -/
theorem search_of_passed {k : Nat} (hN : c.Gives (n + k)) (hn : 2 ≤ n)
    (hpassed : ∀ i, n ≤ i → i < n + k → numberedName base i ∈ taken) (turns : Nat) :
    c.search taken base (turns + k) n = c.search taken base turns (n + k) := by
  induction k generalizing n with
  | zero => simp
  | succ k ih =>
      have hnext : c.next n = some (n + 1) := next_of_lt hN hn (by omega)
      have hrest : n + (k + 1 : Nat) = n + 1 + k := by omega
      rw [hrest] at hN hpassed ⊢
      rw [← Nat.add_assoc, search_of_mem (hpassed n le_rfl (by omega)) hnext]
      exact ih hN (by omega) fun i hi hlt => hpassed i (by omega) hlt

theorem search_of_isFirstFree (h : IsFirstFree taken base n N) (hN : c.Gives N) (hn : 2 ≤ n)
    (hturns : N < n + turns) : c.search taken base turns n = some (numberedName base N) := by
  obtain ⟨k, rfl⟩ := Int.le.dest h.le
  have hk : k + 1 ≤ turns := by omega
  obtain ⟨rest, rfl⟩ := Nat.exists_eq_add_of_le' hk
  obtain ⟨following, hnext⟩ := exists_next hN
  rw [Nat.add_comm k, ← Nat.add_assoc, search_of_passed hN hn h.passed,
    search_of_notMem h.free hnext]

/-- A search finds the name of the number that it is at, or what it finds from the next one on. -/
theorem cases_of_search (h : c.search taken base (turns + 1) n = some name) :
    ∃ following, c.next n = some following ∧
      (numberedName base n ∉ taken ∧ name = numberedName base n ∨
        numberedName base n ∈ taken ∧ c.search taken base turns following = some name) := by
  rw [search] at h
  cases hnext : c.next n with
  | none =>
      rw [hnext] at h
      cases h
  | some following =>
      rw [hnext] at h
      refine ⟨following, rfl, ?_⟩
      by_cases hmem : numberedName base n ∈ taken
      · exact Or.inr ⟨hmem, (if_pos hmem).symm.trans h⟩
      · have hfound := (if_neg hmem).symm.trans h
        exact Or.inl ⟨hmem, (Option.some_inj.mp hfound).symm⟩

theorem gives_of_next {following : Int} (h : c.next n = some following)
    (hn : c = wrapping → n ≤ Int32.maxValue.toInt) : c.Gives n := by
  cases c with
  | checked =>
      by_contra hge
      have hnone : checked.next n = none := if_neg hge
      rw [hnone] at h
      cases h
  | wrapping => exact hn rfl
  | unbounded => trivial

theorem next_le {following : Int} (h : wrapping.next n = some following) :
    following ≤ Int32.maxValue.toInt := by
  obtain rfl := Option.some_inj.mp h
  exact Int32.toInt_le _

theorem next_eq_succ {following : Int} (h : c.next n = some following) (hc : c ≠ wrapping) :
    following = n + 1 := by
  cases c with
  | checked =>
      have hlt : n < Int32.maxValue.toInt := gives_of_next h fun hc => by cases hc
      rw [next, if_pos hlt] at h
      exact (Option.some_inj.mp h).symm
  | wrapping => exact absurd rfl hc
  | unbounded => exact (Option.some_inj.mp h).symm

/-- What a search finds is free, and its number is one that the counter gives on its way up. -/
theorem exists_of_search (h : c.search taken base turns n = some name)
    (hn : c = wrapping → n ≤ Int32.maxValue.toInt) :
    ∃ N, name = numberedName base N ∧ c.Gives N ∧ numberedName base N ∉ taken := by
  induction turns generalizing n with
  | zero => cases h
  | succ turns ih =>
      obtain ⟨following, hnext, ⟨hfree, rfl⟩ | ⟨-, hrest⟩⟩ := cases_of_search h
      · exact ⟨n, rfl, gives_of_next hnext hn, hfree⟩
      · -- a counter that wraps around stays within its numbers
        refine ih hrest fun hc => ?_
        rw [hc] at hnext
        exact next_le hnext

/-- A counter that does not wrap around finds the first free name only. -/
theorem isFirstFree_of_search (h : c.search taken base turns n = some name)
    (hc : c ≠ wrapping) : ∃ N, name = numberedName base N ∧ IsFirstFree taken base n N := by
  induction turns generalizing n with
  | zero => cases h
  | succ turns ih =>
      obtain ⟨following, hnext, ⟨hfree, rfl⟩ | ⟨hmem, hrest⟩⟩ := cases_of_search h
      · exact ⟨n, rfl, le_rfl, hfree, fun i hi hlt => absurd hlt (not_lt.mpr hi)⟩
      · obtain rfl := next_eq_succ hnext hc
        obtain ⟨N, rfl, hfirst⟩ := ih hrest
        refine ⟨N, rfl, by have := hfirst.le; omega, hfirst.free, fun i hi hlt => ?_⟩
        rcases hi.eq_or_lt with rfl | hi
        · exact hmem
        · exact hfirst.passed i hi hlt

/-! ## How many turns are enough -/

theorem search_mono {turns' : Nat} (h : c.search taken base turns n = some name)
    (hle : turns ≤ turns') : c.search taken base turns' n = some name := by
  induction turns generalizing n turns' with
  | zero => cases h
  | succ turns ih =>
      obtain ⟨rest, rfl⟩ := Nat.exists_eq_add_of_le' hle
      rw [← Nat.add_assoc]
      obtain ⟨following, hnext, ⟨hfree, rfl⟩ | ⟨hmem, hrest⟩⟩ := cases_of_search h
      · exact search_of_notMem hfree hnext
      · rw [search_of_mem hmem hnext]
        exact ih hrest (Nat.le_add_left turns rest)

/--
The numbers that a search passes before its last turn are different.  Each of them needs
its own number of turns, since fewer than all the turns are not enough for the first.
-/
theorem exists_passed (h : c.search taken base turns n = some name)
    (hleast : ∀ fewer < turns, c.search taken base fewer n ≠ some name) :
    ∃ ns : List Int, turns = ns.length + 1 ∧ ns.Nodup ∧ ∀ i ∈ ns,
      numberedName base i ∈ taken ∧ c.search taken base turns i = some name := by
  induction turns generalizing n with
  | zero => cases h
  | succ turns ih =>
      obtain ⟨following, hnext, ⟨hfree, rfl⟩ | ⟨hmem, hrest⟩⟩ := cases_of_search h
      · -- one turn is enough already
        refine ⟨[], ?_, List.nodup_nil, fun i hi => absurd hi List.not_mem_nil⟩
        have hone : ¬ 1 < turns + 1 := fun hlt => hleast 1 hlt (search_of_notMem hfree hnext)
        simpa using hone
      · obtain ⟨ns, hlength, hnodup, hns⟩ := ih hrest fun fewer hlt hfound =>
          hleast (fewer + 1) (Nat.succ_lt_succ hlt) ((search_of_mem hmem hnext).trans hfound)
        have hnew : n ∉ ns := fun hagain =>
          hleast turns (Nat.lt_succ_self turns) (hns n hagain).2
        refine ⟨n :: ns, by rw [List.length_cons, ← hlength], hnodup.cons hnew, fun i hi => ?_⟩
        rcases List.mem_cons.mp hi with rfl | hi
        · exact ⟨hmem, h⟩
        · exact ⟨(hns i hi).1, search_mono (hns i hi).2 (Nat.le_succ turns)⟩

/-- More turns than there are taken names do not find more. -/
theorem firstFree_eq_some_iff (hbase : base ∈ taken) :
    c.firstFree taken base = some name ↔ ∃ turns, c.search taken base turns 2 = some name := by
  rw [firstFree, if_pos hbase]
  refine ⟨fun h => ⟨_, h⟩, fun hfound => ?_⟩
  classical
  obtain ⟨ns, hlength, hnodup, hns⟩ :=
    exists_passed (Nat.find_spec hfound) fun fewer hlt => Nat.find_min hfound hlt
  have hfewer := length_lt_card hbase hnodup fun i hi => (hns i hi).1
  have hcard := taken.toFinset_card_le
  exact search_mono (Nat.find_spec hfound) (by omega)

theorem search_congr {taken' : List String} (hsame : ∀ name, name ∈ taken' ↔ name ∈ taken) :
    c.search taken' base turns n = c.search taken base turns n := by
  induction turns generalizing n with
  | zero => rfl
  | succ turns ih =>
      rw [search, search]
      simp only [ih, hsame]

/-- Which names are taken counts, not in what order or how often they are listed. -/
theorem firstFree_congr {taken' : List String} (hsame : ∀ name, name ∈ taken' ↔ name ∈ taken) :
    c.firstFree taken' base = c.firstFree taken base := by
  by_cases hbase : base ∈ taken
  · ext name
    rw [firstFree_eq_some_iff hbase, firstFree_eq_some_iff ((hsame base).mpr hbase)]
    simp only [search_congr hsame]
  · rw [firstFree, firstFree, if_neg hbase, if_neg ((hsame base).not.mpr hbase)]

theorem firstFree_of_notMem (hbase : base ∉ taken) : c.firstFree taken base = some base := by
  exact if_neg hbase

theorem firstFree_of_isFirstFree (hbase : base ∈ taken) (h : IsFirstFree taken base 2 N)
    (hN : c.Gives N) : c.firstFree taken base = some (numberedName base N) :=
  (firstFree_eq_some_iff hbase).mpr
    ⟨(N - 1).toNat, search_of_isFirstFree h hN le_rfl (by have := h.le; omega)⟩

end Counter

end Storyboard
