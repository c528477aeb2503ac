import ClobIndexer.Lib.Ring
import ClobIndexer.Lib.Word
/-!
# What a run leaves in a reading

A state is read in one place, and each step adds to what is read there: an amount to a
number that saturates, or items to a list that keeps the newest.  After a run the reading
is what all its steps together add at once.
-/

namespace Lib

variable {S E T : Type} {f : S → E → S}

/-- A saturating number grows by what the steps add. -/
theorem toNat_foldl_of_adds (read : S → UInt64) (amount : E → Nat)
    (hstep : ∀ s e, (read (f s e)).toNat = min ((read s).toNat + amount e) Word.u64Max)
    (es : List E) (s : S) :
    (read (es.foldl f s)).toNat = min ((read s).toNat + (es.map amount).sum) Word.u64Max := by
  induction es generalizing s with
  | nil =>
      have hle := Word.toNat_le (read s)
      simp only [List.foldl_nil, List.map_nil, List.sum_nil]
      omega
  | cons e es ih =>
      rw [List.foldl_cons, ih, hstep, List.map_cons, List.sum_cons]
      omega

namespace Ring

variable {limit : Nat}

theorem trim_trim_append (ring more : List T) :
    trim limit (trim limit ring ++ more) = trim limit (ring ++ more) := by
  simp only [trim_eq_rtake, List.rtake_eq_reverse_take_reverse, List.reverse_append,
    List.reverse_reverse, List.take_append, List.take_take, List.length_reverse]
  congr 3
  omega

theorem trim_of_length_le {ring : List T} (h : ring.length ≤ limit) : trim limit ring = ring := by
  unfold trim
  rw [Nat.sub_eq_zero_of_le h, List.drop_zero]

theorem length_trim_le (ring : List T) : (trim limit ring).length ≤ limit := by
  unfold trim
  rw [List.length_drop]
  omega

end Ring

theorem foldl_of_logs (read : S → List T) (items : E → List T) {limit : Nat}
    (hstep : ∀ s e, (read s).length ≤ limit →
      read (f s e) = Ring.trim limit (read s ++ items e)) (es : List E) {s : S}
    (hs : (read s).length ≤ limit) :
    read (es.foldl f s) = Ring.trim limit (read s ++ es.flatMap items) := by
  induction es using List.reverseRecOn with
  | nil => rw [List.foldl_nil, List.flatMap_nil, List.append_nil, Ring.trim_of_length_le hs]
  | append_singleton es e ih =>
      have hlength : (read (es.foldl f s)).length ≤ limit := by
        rw [ih]
        exact Ring.length_trim_le _
      rw [List.foldl_concat, hstep _ _ hlength, ih, Ring.trim_trim_append, List.flatMap_append,
        List.flatMap_singleton, List.append_assoc]

end Lib
