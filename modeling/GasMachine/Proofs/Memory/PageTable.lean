import GasMachine.Memory.PageTable

/-!
# What a page table holds

A page table is a tree only to make large assignments cheap.  Seen from outside
it is a function of the page, and assigning access to a range of pages changes
that function on the range and nowhere else.  Ranges of pages wrap, so a page is
in the range when it comes soon enough after the first one.
-/

namespace GasMachine

namespace PageTree

theorem get_lower {depth : Nat} (tree : PageTree (depth + 1)) {page : Nat}
    (hbit : page.testBit depth = false) : tree.lower.get page = tree.get page := by
  cases tree with
  | uniform access => simp [lower, get]
  | split lower upper => simp [PageTree.lower, get, hbit]

theorem get_upper {depth : Nat} (tree : PageTree (depth + 1)) {page : Nat}
    (hbit : page.testBit depth = true) : tree.upper.get page = tree.get page := by
  cases tree with
  | uniform access => simp [upper, get]
  | split lower upper => simp [PageTree.upper, get, hbit]

/-- The low bits of a page number, with one bit more. -/
theorem mod_shift_succ (page depth : Nat) :
    page % 1 <<< (depth + 1) =
      page % 1 <<< depth + 1 <<< depth * (page.testBit depth).toNat := by
  simp only [Nat.one_shiftLeft]
  rw [Nat.pow_succ, Nat.mod_mul, Nat.testBit_eq_decide_div_mod_eq]
  rcases Nat.mod_two_eq_zero_or_one (page / 2 ^ depth) with hbit | hbit <;> simp [hbit]

/-- Filling changes the pages of its range and no others. -/
theorem get_fill (access : Option PageAccess) {depth : Nat} (tree : PageTree depth)
    (first last page : Nat) :
    (tree.fill access first last).get page =
      if first ≤ page % 1 <<< depth ∧ page % 1 <<< depth < last then access
      else tree.get page := by
  induction depth generalizing first last with
  | zero =>
      rw [Nat.shiftLeft_zero, Nat.mod_one]
      by_cases hfill : first = 0 ∧ 0 < last
      · simp [fill, get, hfill]
      · have hrange : ¬ (first ≤ 0 ∧ 0 < last) := by omega
        simp only [fill, hfill, hrange, if_false]
  | succ depth ih =>
      have hpos : 0 < 1 <<< depth := by
        rw [Nat.one_shiftLeft]
        exact Nat.two_pow_pos depth
      have hbound : page % 1 <<< depth < 1 <<< depth := Nat.mod_lt _ hpos
      have hdouble : 1 <<< (depth + 1) = 1 <<< depth + 1 <<< depth := by
        simp only [Nat.one_shiftLeft, Nat.pow_succ]
        omega
      have hmod : page % 1 <<< (depth + 1) < 1 <<< (depth + 1) := Nat.mod_lt _ (by omega)
      have hsucc := mod_shift_succ page depth
      unfold fill
      split
      · rw [if_neg (by omega)]
      · split
        · rw [if_pos (by omega)]
          rfl
        · cases hbit : page.testBit depth with
          | false =>
              rw [get, if_neg (by simp [hbit]), ih, get_lower tree hbit]
              rw [hbit, Bool.toNat_false, Nat.mul_zero, Nat.add_zero] at hsucc
              by_cases hrange :
                  first ≤ page % 1 <<< (depth + 1) ∧ page % 1 <<< (depth + 1) < last
              · rw [if_pos hrange, if_pos (by omega)]
              · rw [if_neg hrange, if_neg (by omega)]
          | true =>
              rw [get, if_pos hbit, ih, get_upper tree hbit]
              rw [hbit, Bool.toNat_true, Nat.mul_one] at hsucc
              by_cases hrange :
                  first ≤ page % 1 <<< (depth + 1) ∧ page % 1 <<< (depth + 1) < last
              · rw [if_pos hrange, if_pos (by omega)]
              · rw [if_neg hrange, if_neg (by omega)]

end PageTree

namespace PageTable

open AddressSpace

/-- How many pages after `first` a page comes, going up and around the top. -/
def pagesAfter (first page : Nat) : Nat :=
  (page + pageCount - first % pageCount) % pageCount

theorem pagesAfter_lt_iff {first count page : Nat} (hfits : first + count ≤ pageCount)
    (hpage : page < pageCount) :
    pagesAfter first page < count ↔ first ≤ page ∧ page < first + count := by
  unfold pagesAfter pageCount at *
  omega

@[simp]
theorem get_empty (page : Nat) : empty.get page = none := rfl

/-- Assigning access changes the pages of the range and no others. -/
theorem get_assign (table : PageTable) (first count : Nat) (access : Option PageAccess)
    {page : Nat} (hpage : page < pageCount) :
    (table.assign first count access).get page =
      if pagesAfter first page < count then access else table.get page := by
  have hwhole : page % 1 <<< 20 = page := Nat.mod_eq_of_lt hpage
  have hafter : pagesAfter first page < pageCount := Nat.mod_lt _ (by decide)
  unfold assign
  split
  · rw [if_pos (by omega)]
    rfl
  · next hcount =>
      simp only [PageTree.get_fill, hwhole]
      unfold pagesAfter pageCount at *
      by_cases hrange : (page + 0x100000 - first % 0x100000) % 0x100000 < count
      · rw [if_pos hrange]
        split
        · rfl
        · rw [if_pos (by omega)]
      · rw [if_neg hrange, if_neg (by omega), if_neg (by omega)]

end PageTable

end GasMachine
