import Mathlib.Data.List.DropRight
import Storyboard.Text.Blank

/-!
# Trimmed texts

A text that has been trimmed begins and ends with characters that are not blank, so
that trimming it once more changes nothing.
-/

namespace Storyboard.Text

theorem toList_trim (s : String) :
    (trim s).toList = (s.toList.dropWhile isBlankChar).rdropWhile isBlankChar := by
  rw [trim, String.toList_ofList]
  rfl

/-- What is left after both ends have been trimmed does not begin with a blank. -/
theorem dropWhile_rdropWhile_dropWhile (p : Char → Bool) (cs : List Char) :
    ((cs.dropWhile p).rdropWhile p).dropWhile p = (cs.dropWhile p).rdropWhile p := by
  refine List.dropWhile_eq_self_iff.mpr fun hlength => ?_
  have hfront := List.rdropWhile_prefix p (cs.dropWhile p)
  rw [hfront.getElem hlength]
  exact List.dropWhile_get_zero_not p cs (hlength.trans_le hfront.length_le)

theorem trim_trim (s : String) : trim (trim s) = trim s := by
  apply String.toList_injective
  rw [toList_trim, toList_trim, dropWhile_rdropWhile_dropWhile, List.rdropWhile_idempotent]

end Storyboard.Text
