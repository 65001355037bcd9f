/-!
# Gas

Every instruction is paid for in advance, and none starts once the gas is used up.  The account is
signed because a host may take more than is left.
-/

namespace GasMachine

/-- The gas that is left. -/
structure Gas where
  value : Int64
  deriving DecidableEq

namespace Gas

/-- The account that a budget opens.  A larger budget than the account holds is cut. -/
def ofBudget (budget : UInt64) : Gas :=
  ⟨if budget < 0x8000000000000000 then budget.toInt64 else Int64.maxValue⟩

/-- No instruction may start. -/
def exhausted (gas : Gas) : Bool :=
  gas.value ≤ 0

/-- The account after `amount` is taken.  It stops at the least value. -/
def consume (gas : Gas) (amount : UInt64) : Gas :=
  let left := gas.value - (ofBudget amount).value
  ⟨if left ≤ gas.value then left else Int64.minValue⟩

/-- What was taken since the account held `initial`, or zero where nothing was. -/
def usedSince (gas initial : Gas) : UInt64 :=
  UInt64.ofNat (initial.value.toInt - gas.value.toInt).toNat

/-- How many instructions can be paid for. -/
def budget (gas : Gas) : Nat :=
  gas.value.toInt.toNat

end Gas

end GasMachine
