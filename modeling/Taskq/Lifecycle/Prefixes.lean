import Taskq.Library.Bisection
import Taskq.Model.Settle

/-! Stored texts: the search of `truncate_utf8` ends with the longest prefix that fits. -/
namespace Taskq
open Relational

section Octets

variable {s t : String} {n k : ℕ}

theorem octetLength_ofList (cs : List Char) : octetLength (String.ofList cs) = (cs.map Char.utf8Size).sum := by
  induction cs with
  | nil => rfl
  | cons c cs ih =>
    have split : String.ofList (c :: cs) = String.singleton c ++ String.ofList cs := by
      apply String.ext
      simp
    rw [octetLength, split, String.utf8ByteSize_append, String.utf8ByteSize_singleton, List.map_cons, List.sum_cons]
    exact congrArg (c.utf8Size + ·) ih

/-- A prefix is no longer than the text. -/
theorem octetLength_mono (shorter : t.toList <+: s.toList) : octetLength t ≤ octetLength s := by
  have parts (s : String) : octetLength s = (s.toList.map Char.utf8Size).sum := by
    rw [← octetLength_ofList, String.ofList_toList]
  obtain ⟨rest, whole⟩ := shorter
  rw [parts, parts, ← whole, List.map_append, List.sum_append]
  exact Nat.le_add_right _ _

/-- A character takes at least one byte. -/
theorem length_le_octetLength (s : String) : s.length ≤ octetLength s := by
  rw [← String.ofList_toList (s := s), octetLength_ofList, String.length_ofList]
  generalize s.toList = cs
  induction cs with
  | nil => exact le_rfl
  | cons c cs ih =>
    have := c.utf8Size_pos
    simp only [List.length_cons, List.map_cons, List.sum_cons]
    omega

end Octets

section Search

variable {s : String} {n j k rounds low high : ℕ}

/-- The prefix of so many characters is within the limit. -/
def Fits (s : String) (maxBytes k : ℕ) : Prop := octetLength (leftChars s k) ≤ maxBytes

instance (s : String) (maxBytes : ℕ) : DecidablePred (Fits s maxBytes) := fun _ => inferInstanceAs (Decidable (_ ≤ _))

theorem leftChars_mono (shorter : j ≤ k) : (leftChars s j).toList <+: (leftChars s k).toList := by
  rw [leftChars, leftChars, String.toList_ofList, String.toList_ofList]
  exact List.take_prefix_take_left shorter

theorem Fits.of_le (shorter : j ≤ k) (fits : Fits s n k) : Fits s n j :=
  (octetLength_mono (leftChars_mono shorter)).trans fits

/-- The search of the source is bisection. -/
theorem truncateSearch_eq (s : String) (n rounds low high : ℕ) :
    truncateSearch s n rounds low high = bisect (Fits s n) rounds low high := by
  induction rounds generalizing low high with
  | zero => rfl
  | succ rounds ih =>
    simp only [truncateSearch, bisect, ih, Fits, middle]
    rfl

/-- The first bounds: no more characters than the text has, and no more than bytes are allowed. -/
theorem brackets_start (long : n < octetLength s) : Brackets (Fits s n) (0, min s.length n) := by
  refine ⟨Nat.zero_le _, Nat.zero_le n, fun k fits => ?_⟩
  have inside : k ≤ s.length := by
    by_contra beyond
    have whole : leftChars s k = s := by
      rw [leftChars, List.take_of_length_le, String.ofList_toList]
      rw [String.length_toList]
      omega
    rw [Fits, whole] at fits
    omega
  have few : k ≤ octetLength (leftChars s k) := by
    refine le_trans (le_of_eq ?_) (length_le_octetLength (leftChars s k))
    rw [leftChars, String.length_ofList, List.length_take, String.length_toList, Nat.min_eq_left inside]
  exact le_min inside (few.trans fits)

end Search

section Longest

variable {s t u : String} {m n : ℕ}

/-- The longest prefix of a text, in whole characters, that takes at most so many bytes. -/
structure LongestPrefix (s : String) (maxBytes : ℕ) (t : String) : Prop where
  isPrefix : t.toList <+: s.toList
  fits : octetLength t ≤ maxBytes
  longest : ∀ u : String, u.toList <+: s.toList → octetLength u ≤ maxBytes → u.toList <+: t.toList

theorem LongestPrefix.unique (first : LongestPrefix s n t) (second : LongestPrefix s n u) : t = u := by
  have forth := second.longest t first.isPrefix first.fits
  have back := first.longest u second.isPrefix second.fits
  exact String.ext (forth.eq_of_length_le back.length_le)

/-- The run of the loop: from the first bounds to bounds that met. -/
theorem truncateUtf8_run (long : n < octetLength s) : ∃ k,
    Relation.ReflTransGen (Round (Fits s n)) (0, min s.length n) (k, k) ∧ truncateUtf8 s n = leftChars s k := by
  refine ⟨_, bisect_meets (Nat.zero_le _) (Nat.sub_le _ _), ?_⟩
  rw [truncateUtf8, if_neg (not_le.mpr long)]
  exact congrArg (leftChars s) (truncateSearch_eq _ _ _ _ _)

theorem truncateUtf8_longest (s : String) (n : ℕ) : LongestPrefix s n (truncateUtf8 s n) := by
  by_cases short : octetLength s ≤ n
  · rw [truncateUtf8, if_pos short]
    exact ⟨List.prefix_refl _, short, fun u whole _ => whole⟩
  · obtain ⟨k, run, same⟩ := truncateUtf8_run (not_le.mp short)
    obtain ⟨fits, greatest⟩ := ((brackets_start (not_le.mp short)).rounds Fits.of_le run).greatest
    rw [same]
    refine ⟨?_, fits, fun u part few => ?_⟩
    · rw [leftChars, String.toList_ofList]
      exact List.take_prefix k s.toList
    · -- a prefix is that of its own length
      have own : leftChars s u.length = u := by
        apply String.ext
        rw [leftChars, String.toList_ofList, ← String.length_toList]
        exact (List.prefix_iff_eq_take.mp part).symm
      have shorter : u.length ≤ k := greatest (show octetLength (leftChars s u.length) ≤ n by rwa [own])
      rw [← own]
      exact leftChars_mono shorter

theorem truncateUtf8_fits (s : String) (n : ℕ) : octetLength (truncateUtf8 s n) ≤ n := (truncateUtf8_longest s n).fits

/-- A text that is cut twice is cut to the lower limit. -/
theorem truncateUtf8_twice (fewer : n ≤ m) (s : String) : truncateUtf8 (truncateUtf8 s m) n = truncateUtf8 s n := by
  have first := truncateUtf8_longest s m
  have second := truncateUtf8_longest (truncateUtf8 s m) n
  refine LongestPrefix.unique (s := s) ⟨second.isPrefix.trans first.isPrefix, second.fits, fun u part few => ?_⟩
    (truncateUtf8_longest s n)
  exact second.longest u (first.longest u part (few.trans fewer)) few

end Longest

end Taskq
