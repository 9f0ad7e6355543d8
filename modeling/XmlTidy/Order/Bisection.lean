/-!
Bisection. Among keys of which those in front pass a test and the others do not, the place where the test starts
to fail is found by halving the range in which it lies. For keys in increasing order there are two such places for
a key: in front of the keys that are not below it, and behind those that are not above it.
-/

namespace XmlTidy

variable {κ : Type}

/-- By bisection, a place in `[lo, hi]` with keys that pass a test in front of it. -/
def bisect (passes : κ → Bool) (keys : Array κ) (lo hi : Nat) : Nat :=
  if lo < hi then
    let mid := (lo + hi) / 2
    if keys[mid]?.any passes then bisect passes keys (mid + 1) hi
    else bisect passes keys lo mid
  else lo
termination_by hi - lo

/-- The place in front of the keys that are not below a key. -/
def bisectLeft [LT κ] [DecidableLT κ] (keys : Array κ) (key : κ) : Nat :=
  bisect (fun k => decide (k < key)) keys 0 keys.size

/-- The place behind the keys that are not above a key. -/
def bisectRight [LT κ] [DecidableLT κ] (keys : Array κ) (key : κ) : Nat :=
  bisect (fun k => !decide (key < k)) keys 0 keys.size

/-- A place with all keys in front of it that pass a test, and all others behind it. -/
structure SplitsAt (passes : κ → Bool) (keys : List κ) (place : Nat) : Prop where
  le : place ≤ keys.length
  front : ∀ k ∈ keys.take place, passes k = true
  back : ∀ k ∈ keys.drop place, passes k = false

/-- What passes the test is what stands in front. -/
theorem SplitsAt.filter_eq {passes : κ → Bool} {keys : List κ} {place : Nat} (h : SplitsAt passes keys place) :
    keys.filter passes = keys.take place := by
  have hback : (keys.drop place).filter passes = [] := by
    refine List.filter_eq_nil_iff.2 fun k hk => ?_
    rw [h.back k hk]
    exact Bool.false_ne_true
  calc keys.filter passes
      = (keys.take place ++ keys.drop place).filter passes := by rw [List.take_append_drop]
    _ = keys.take place := by
        rw [List.filter_append, List.filter_eq_self.2 h.front, hback, List.append_nil]

/-- Bisection splits the keys, whatever range it starts from that holds the place. -/
theorem splitsAt_bisect_range {passes : κ → Bool} {keys : Array κ}
    (hsorted : keys.toList.Pairwise fun a b => passes b = true → passes a = true) {lo hi : Nat} (hle : lo ≤ hi)
    (hsize : hi ≤ keys.size) (hlo : ∀ i (h : i < keys.size), i < lo → passes keys[i] = true)
    (hhi : ∀ i (h : i < keys.size), hi ≤ i → passes keys[i] = false) :
    SplitsAt passes keys.toList (bisect passes keys lo hi) := by
  have hmono : ∀ i j (hi : i < keys.size) (hj : j < keys.size), i < j → passes keys[j] = true →
      passes keys[i] = true := by
    intro i j hi hj hij
    exact List.pairwise_iff_getElem.1 hsorted i j hi hj hij
  fun_induction bisect passes keys lo hi with
  | case1 lo hi hlt mid hpasses ih =>
      have hmid : mid < keys.size := by omega
      rw [Array.getElem?_eq_getElem hmid, Option.any_some] at hpasses
      refine ih (by omega) hsize (fun i h hi' => ?_) hhi
      rcases Nat.lt_or_eq_of_le (Nat.le_of_lt_succ hi') with hless | rfl
      · exact hmono i mid h hmid hless hpasses
      · exact hpasses
  | case2 lo hi hlt mid hpasses ih =>
      have hmid : mid < keys.size := by omega
      rw [Array.getElem?_eq_getElem hmid, Option.any_some, Bool.not_eq_true] at hpasses
      refine ih (by omega) (by omega) hlo fun i h hi' => ?_
      rcases Nat.lt_or_eq_of_le hi' with hless | rfl
      · refine Bool.eq_false_iff.2 fun hi => ?_
        rw [hmono mid i hmid h hless hi] at hpasses
        exact Bool.noConfusion hpasses
      · exact hpasses
  | case3 lo hi hlt =>
      obtain rfl : lo = hi := by omega
      refine ⟨hsize, fun k hk => ?_, fun k hk => ?_⟩
      · obtain ⟨i, hi, rfl⟩ := List.mem_take_iff_getElem.1 hk
        rw [Array.length_toList] at hi
        exact hlo i (by omega) (by omega)
      · obtain ⟨i, hi, rfl⟩ := List.mem_drop_iff_getElem.1 hk
        rw [Array.length_toList] at hi
        exact hhi _ (by omega) (by omega)

/-- Bisection splits keys of which the later pass a test only if the earlier do. -/
theorem splitsAt_bisect {passes : κ → Bool} {keys : Array κ}
    (hsorted : keys.toList.Pairwise fun a b => passes b = true → passes a = true) :
    SplitsAt passes keys.toList (bisect passes keys 0 keys.size) :=
  splitsAt_bisect_range hsorted (Nat.zero_le _) (Nat.le_refl _) (fun _ _ h => absurd h (Nat.not_lt_zero _))
    fun _ h hle => absurd h (Nat.not_lt.2 hle)

end XmlTidy
