import LocalSend.Lib.LastSplit
import LocalSend.Qt.Text

/-!
# The parts of a file name

`QFileInfo` splits a name at its last dot.
-/

set_option autoImplicit false

namespace LocalSend.QFileInfo

variable {name stem extension : QString}

theorem fileName_plain (h : 47 ∉ name) : fileName name = name := by
  refine List.rtakeWhile_eq_self_iff.2 fun c hc => ?_
  have hne : c ≠ 47 := fun heq => h (heq ▸ hc)
  simpa using hne

theorem suffix_splits (hslash : 47 ∉ name) (h : Lib.Splits 46 name stem extension) :
    suffix name = extension := by
  unfold suffix
  simp only [fileName_plain hslash]
  rw [if_pos (List.contains_iff_mem.2 h.mem)]
  exact h.rtakeWhile

theorem completeBaseName_splits (hslash : 47 ∉ name) (h : Lib.Splits 46 name stem extension) :
    completeBaseName name = stem := by
  have hdrop : name.reverse.dropWhile (· != 46) = (stem ++ [46]).reverse := by
    rw [← h.rdropWhile, List.rdropWhile, List.reverse_reverse]
  unfold completeBaseName
  simp only [fileName_plain hslash]
  rw [if_pos (List.contains_iff_mem.2 h.mem), hdrop]
  simp

theorem suffix_undotted (hslash : 47 ∉ name) (h : 46 ∉ name) : suffix name = [] := by
  unfold suffix
  simp only [fileName_plain hslash]
  rw [if_neg (by simpa using h)]

theorem completeBaseName_undotted (hslash : 47 ∉ name) (h : 46 ∉ name) :
    completeBaseName name = name := by
  unfold completeBaseName
  simp only [fileName_plain hslash]
  rw [if_neg (by simpa using h)]

end LocalSend.QFileInfo
