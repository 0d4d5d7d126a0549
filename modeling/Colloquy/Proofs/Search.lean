import Colloquy.Search

/-! # What bisection finds

When a test fails below some number and holds from it on, `bisect` returns that number. In a list where every
element behind one that passes a test passes it too, `firstPassing?` finds what a search from the front does.
-/

namespace Colloquy

/-- Bisection returns the number at which the test starts to hold. -/
theorem bisect_eq {test : Nat → Bool} {k : Nat} (lo hi : Nat) (above : lo ≤ k) (below : k ≤ hi)
    (fails : ∀ i, lo ≤ i → i < k → test i = false) (holds : ∀ i, k ≤ i → i < hi → test i = true) :
    bisect test lo hi = k := by
  -- each half keeps `k` between its ends
  fun_induction bisect test lo hi with
  | case1 lo hi more mid pass ih =>
      have inside : lo ≤ mid ∧ mid < hi := by simp only [mid]; omega
      have : k ≤ mid := by
        apply Nat.le_of_not_lt
        intro late
        simp [fails mid inside.1 late] at pass
      exact ih above this fails fun i le lt => holds i le (by omega)
  | case2 lo hi more mid fail ih =>
      have inside : lo ≤ mid ∧ mid < hi := by simp only [mid]; omega
      have : mid < k := by
        apply Nat.lt_of_not_le
        intro early
        exact fail (holds mid early inside.2)
      exact ih this below (fun i le lt => fails i (by omega) lt) holds
  | case3 lo hi done => omega

theorem firstPassing?_eq_find? {α : Type} {test : α → Bool} {xs : List α}
    (mono : xs.Pairwise fun a b => test a = true → test b = true) :
    firstPassing? xs.toArray test = xs.find? test := by
  have found : bisect (fun i => (xs.toArray[i]?.map test).getD true) 0 xs.toArray.size =
      xs.findIdx test := by
    apply bisect_eq 0 _ (Nat.zero_le _) List.findIdx_le_length
    · intro i _ early
      have inside : i < xs.length := Nat.lt_of_lt_of_le early List.findIdx_le_length
      simp [inside, List.not_of_lt_findIdx early]
    · intro i late inside
      have inside : i < xs.length := inside
      have first : test xs[xs.findIdx test] = true := List.findIdx_getElem
      simp only [List.getElem?_toArray, List.getElem?_eq_getElem inside, Option.map_some, Option.getD_some]
      obtain same | later := Nat.eq_or_lt_of_le late
      · simpa only [same] using first
      · exact List.pairwise_iff_getElem.mp mono _ i _ inside later first
  rw [firstPassing?, found, List.find?_eq_getElem?_findIdx, List.getElem?_toArray]

end Colloquy
