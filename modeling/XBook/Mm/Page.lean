import Mathlib.Tactic.NormNum

/-!
# Page constants and 32-bit arithmetic

The kernel computes addresses and page numbers in 32-bit unsigned integers. They are natural
numbers here, and every operation of the source that can leave the 32-bit range is wrapped by
`wrap`. The constants and `pageAlign` are those of `arch/x86/include/mm/page.h`.
-/

namespace XBook

/-- The 32-bit word that an unsigned computation leaves. -/
def wrap (n : Nat) : Nat := n % 2 ^ 32

/-- The 32-bit difference of two words. -/
def wrapSub (m n : Nat) : Nat := wrap (m + (2 ^ 32 - n % 2 ^ 32))

/-- `PAGE_SIZE`. -/
abbrev pageSize : Nat := 4096

/-- `PAGE_MASK` applied to a word clears its offset inside the page. -/
def pageMask (value : Nat) : Nat := value / pageSize * pageSize

/-- `PAGE_ALIGN` rounds a word up to a multiple of the page size; the last page of the address
space rounds up to 0. -/
def pageAlign (value : Nat) : Nat :=
  pageMask (if value % pageSize ≠ 0 then wrap (value + pageSize) else value)

/-- `ALIGN_WITH(x, y)` for a power of two `y`; an aligned `x` moves up by `y`. -/
def alignWith (x y : Nat) : Nat := wrap (x + y) / y * y

/-- `DIV_ROUND_UP(X, STEP)` on words. -/
def divRoundUp (x step : Nat) : Nat := wrap (x + step - 1) / step

theorem wrap_lt (n : Nat) : wrap n < 2 ^ 32 := Nat.mod_lt _ (by norm_num)

theorem wrap_sub_of_le {m n : Nat} (hm : m < 2 ^ 32) (h : n ≤ m) : wrapSub m n = m - n := by
  simp only [wrapSub, wrap]
  omega

theorem page_mask_mod (value : Nat) : pageMask value % pageSize = 0 := Nat.mul_mod_left _ _

theorem page_align_mod (value : Nat) : pageAlign value % pageSize = 0 := page_mask_mod _

theorem page_align_of_aligned {value : Nat} (h : value % pageSize = 0) :
    pageAlign value = value := by
  rw [pageAlign, if_neg (by simp [h]), pageMask]
  exact Nat.div_mul_cancel (Nat.dvd_of_mod_eq_zero h)

theorem page_align_lt {value : Nat} (h : value < 2 ^ 32) : pageAlign value < 2 ^ 32 := by
  refine Nat.lt_of_le_of_lt (Nat.div_mul_le_self _ _) ?_
  split
  · exact Nat.mod_lt _ (by norm_num)
  · exact h

/-- The difference of two page addresses is a whole number of pages. -/
theorem wrap_sub_mod {m n : Nat} (hm : m % pageSize = 0) (hn : n % pageSize = 0) :
    wrapSub m n % pageSize = 0 := by
  simp only [wrapSub, wrap, pageSize] at *
  omega

/-- Below the last page, `pageAlign` is the next multiple of the page size. -/
theorem page_align_bounds {value : Nat} (h : value ≤ 0xFFFFF000) :
    value ≤ pageAlign value ∧ pageAlign value < value + pageSize := by
  simp only [pageAlign, pageMask, wrap, pageSize]
  split <;> omega

theorem wrap_of_lt {n : Nat} (h : n < 2 ^ 32) : wrap n = n := Nat.mod_eq_of_lt h

end XBook
