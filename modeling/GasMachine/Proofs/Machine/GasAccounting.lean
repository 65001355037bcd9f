import Mathlib
import GasMachine.Proofs.Machine.GasMetering

/-!
# What is left of an account

Amounts are taken from an account one after the other, and each by itself stops at
the least value.  Together they come to one subtraction that stops there, so that
their order does not matter.  What is subtracted for an amount is cut at the largest
value of an account first.  The balance is the exact one as long as no amount is cut,
or once the account is at its least value, and amounts can be taken in groups as long
as no group is cut.
-/

namespace GasMachine.Gas

def consumeAll (gas : Gas) (amounts : List UInt64) : Gas :=
  amounts.foldl consume gas

def debits (amounts : List UInt64) : Nat :=
  (amounts.map debit).sum

def total (amounts : List UInt64) : Nat :=
  (amounts.map UInt64.toNat).sum

variable {initial : Gas} {amounts : List UInt64}

/-! ## Balances -/

theorem debit_eq_toNat_iff {amount : UInt64} :
    debit amount = amount.toNat ↔ amount.toNat < 2 ^ 63 := by
  rw [debit]
  omega

theorem debits_le_total (amounts : List UInt64) : debits amounts ≤ total amounts := by
  apply List.sum_le_sum
  intro amount _
  exact Nat.min_le_left _ _

/-- Nothing is cut exactly if every amount fits an account. -/
theorem debits_eq_total_iff :
    debits amounts = total amounts ↔ ∀ amount ∈ amounts, amount.toNat < 2 ^ 63 := by
  induction amounts with
  | nil => simp [debits, total]
  | cons amount rest ih =>
      have hfirst : debit amount ≤ amount.toNat := Nat.min_le_left _ _
      have hrest := debits_le_total rest
      have hcons : debits (amount :: rest) = total (amount :: rest) ↔
          debit amount = amount.toNat ∧ debits rest = total rest := by
        simp only [debits, total, List.map_cons, List.sum_cons] at hrest ⊢
        omega
      rw [hcons, debit_eq_toNat_iff, ih, List.forall_mem_cons]

theorem toInt_consumeAll (initial : Gas) (amounts : List UInt64) :
    (initial.consumeAll amounts).value.toInt =
      max (-2 ^ 63) (initial.value.toInt - debits amounts) := by
  induction amounts generalizing initial with
  | nil =>
      have hlower := initial.value.le_toInt
      rw [consumeAll, debits, List.foldl_nil, List.map_nil, List.sum_nil]
      omega
  | cons amount rest ih =>
      have hstep := initial.toInt_consume amount
      have hrest := ih (initial.consume amount)
      simp only [consumeAll, debits, List.foldl_cons, List.map_cons, List.sum_cons] at hrest ⊢
      rw [hrest, hstep, Int64.toInt_minValue, Nat.cast_add]
      omega

/-- Amounts that come to the same debits lead to the same account. -/
theorem consumeAll_eq_of_debits_eq {others : List UInt64}
    (hdebits : debits others = debits amounts) :
    initial.consumeAll others = initial.consumeAll amounts := by
  have hvalue : (initial.consumeAll others).value = (initial.consumeAll amounts).value := by
    rw [← Int64.toInt_inj, toInt_consumeAll, toInt_consumeAll, hdebits]
  exact congrArg Gas.mk hvalue

/-! ## Groups -/

theorem toNat_sum {group : List UInt64} (hgroup : total group < 2 ^ 64) :
    group.sum.toNat = total group := by
  induction group with
  | nil => rfl
  | cons amount rest ih =>
      simp only [total, List.map_cons, List.sum_cons] at hgroup ih ⊢
      rw [UInt64.toNat_add, ih (by omega), Nat.mod_eq_of_lt hgroup]

/-- Amounts that fit an account together are taken as one. -/
theorem debit_sum {group : List UInt64} (hgroup : total group < 2 ^ 63) :
    debit group.sum = debits group := by
  have hsum : group.sum.toNat = total group := toNat_sum (by omega)
  have hfits : ∀ amount ∈ group, amount.toNat < 2 ^ 63 := by
    intro amount hamount
    have hle : amount.toNat ≤ total group :=
      List.le_sum_of_mem (List.mem_map_of_mem hamount)
    omega
  rw [debits_eq_total_iff.mpr hfits, ← hsum, debit_eq_toNat_iff, hsum]
  exact hgroup

theorem debits_map_sum {groups : List (List UInt64)}
    (hgroups : ∀ group ∈ groups, total group < 2 ^ 63) :
    debits (groups.map List.sum) = debits groups.flatten := by
  induction groups with
  | nil => rfl
  | cons group rest ih =>
      obtain ⟨hgroup, hrest⟩ := List.forall_mem_cons.mp hgroups
      have hfirst := debit_sum hgroup
      have hothers := ih hrest
      simp only [debits, List.map_cons, List.flatten_cons, List.map_append, List.sum_cons,
        List.sum_append] at hfirst hothers ⊢
      rw [hfirst, hothers]

/-! ## Use -/

theorem toNat_usedSince {gas initial : Gas} (hle : gas.value ≤ initial.value) :
    ((gas.usedSince initial).toNat : Int) = initial.value.toInt - gas.value.toInt := by
  have hle := Int64.le_iff_toInt_le.mp hle
  have hlower := gas.value.le_toInt
  have hupper := initial.value.toInt_lt
  rw [usedSince, UInt64.toNat_ofNat_of_lt']
  · omega
  · unfold UInt64.size
    omega

theorem consumeAll_le (initial : Gas) (amounts : List UInt64) :
    (initial.consumeAll amounts).value ≤ initial.value := by
  have hlower := initial.value.le_toInt
  rw [Int64.le_iff_toInt_le, toInt_consumeAll]
  omega

/-- However many amounts are taken, the account has lost all that is subtracted for
them, or is at its least value, and what was used of it is what it has lost.  The
balance is the exact one if and only if every amount fits an account or the account
is at its least value.  The order of the amounts does not matter, and amounts that
fit an account together can be taken as one. -/
theorem balance_exact_iff_amounts_fit (initial : Gas) (amounts : List UInt64) :
    (initial.consumeAll amounts).value.toInt =
        max (-2 ^ 63) (initial.value.toInt - debits amounts) ∧
      (((initial.consumeAll amounts).usedSince initial).toNat : Int) =
        initial.value.toInt - (initial.consumeAll amounts).value.toInt ∧
      ((initial.consumeAll amounts).value.toInt =
          max (-2 ^ 63) (initial.value.toInt - total amounts) ↔
        (∀ amount ∈ amounts, amount.toNat < 2 ^ 63) ∨
          (initial.consumeAll amounts).value = Int64.minValue) ∧
      (∀ others, others.Perm amounts →
        initial.consumeAll others = initial.consumeAll amounts) ∧
      ∀ groups : List (List UInt64), groups.flatten = amounts →
        (∀ group ∈ groups, total group < 2 ^ 63) →
        initial.consumeAll (groups.map List.sum) = initial.consumeAll amounts := by
  have hbalance := initial.toInt_consumeAll amounts
  refine ⟨hbalance, toNat_usedSince (initial.consumeAll_le amounts), ?_, ?_, ?_⟩
  · have hle := debits_le_total amounts
    rw [← debits_eq_total_iff, ← Int64.toInt_inj, Int64.toInt_minValue, hbalance]
    omega
  · intro others hperm
    exact consumeAll_eq_of_debits_eq (hperm.map debit).sum_eq
  · rintro groups rfl hgroups
    exact consumeAll_eq_of_debits_eq (debits_map_sum hgroups)

/-- An overdrawn account is at its least value whatever was taken first and with what. -/
theorem overdraft_ignores_order_and_groups :
    let initial : Gas := ⟨5⟩
    let amounts : List UInt64 := [0x7FFFFFFFFFFFFFFF, 3, 4]
    (initial.consumeAll amounts).value = Int64.minValue ∧
      initial.consumeAll [4, 0x7FFFFFFFFFFFFFFF, 3] = initial.consumeAll amounts ∧
      initial.consumeAll [0x7FFFFFFFFFFFFFFF, 7] = initial.consumeAll amounts := by
  intro initial amounts
  obtain ⟨-, -, -, horder, hgroups⟩ := balance_exact_iff_amounts_fit initial amounts
  exact ⟨by decide, horder _ (by decide), hgroups [[0x7FFFFFFFFFFFFFFF], [3, 4]] rfl (by decide)⟩

/-- The largest amount is cut, so that less is left if it is taken in two parts. -/
theorem largest_amount_leaves_too_much :
    let initial : Gas := ⟨5⟩
    (initial.consumeAll [0xFFFFFFFFFFFFFFFF]).value.toInt = -2 ^ 63 + 6 ∧
      max (-2 ^ 63) (initial.value.toInt - total [0xFFFFFFFFFFFFFFFF]) = -2 ^ 63 ∧
      total [0x7FFFFFFFFFFFFFFF, 0x8000000000000000] = total [0xFFFFFFFFFFFFFFFF] ∧
      (initial.consumeAll [0x7FFFFFFFFFFFFFFF, 0x8000000000000000]).value.toInt = -2 ^ 63 := by
  decide

end GasMachine.Gas
