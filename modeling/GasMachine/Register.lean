import GasMachine.AddressSpace

/-!
# Registers

The machine has thirteen general-purpose registers of 64 bits.
-/

namespace GasMachine

abbrev Reg := Fin 13

namespace Reg

def ofIndex? (index : Nat) : Option Reg :=
  if h : index < 13 then some ⟨index, h⟩ else none

/-- The register with this index; indices past the last register name the last one. -/
def clamp (index : UInt8) : Reg :=
  ⟨min index.toNat 12, by omega⟩

def name (register : Reg) : String :=
  "r" ++ toString register.val

def returnAddress : Reg := 0

def stackPointer : Reg := 1

/-- Where the argument of a standard program lies, and its output. -/
def dataPointer : Reg := 7

/-- How many bytes the argument or the output has. -/
def dataSize : Reg := 8

def byte (register : Reg) : UInt8 :=
  UInt8.ofNat register.val

end Reg

structure Registers where
  values : Vector UInt64 13
  deriving DecidableEq

namespace Registers

def zero : Registers :=
  ⟨Vector.replicate 13 0⟩

def get (registers : Registers) (register : Reg) : UInt64 :=
  registers.values[register]

def set (registers : Registers) (register : Reg) (value : UInt64) : Registers :=
  ⟨registers.values.set register value⟩

def get? (registers : Registers) (index : Nat) : Option UInt64 :=
  registers.values[index]?

/-- What a standard program starts with: the halt address to return to, the stack pointer, and
where its argument lies and how long it is. -/
def standard (argumentSize : UInt32) : Registers :=
  zero
    |>.set Reg.returnAddress AddressSpace.haltAddress.toUInt64
    |>.set Reg.stackPointer AddressSpace.stackTop.toUInt64
    |>.set Reg.dataPointer AddressSpace.argumentStart.toUInt64
    |>.set Reg.dataSize argumentSize.toUInt64

@[simp] theorem get_set_self (registers : Registers) (register : Reg) (value : UInt64) :
    (registers.set register value).get register = value := by
  simp [get, set]

theorem get_set_of_ne (registers : Registers) {register other : Reg} (value : UInt64)
    (hne : register ≠ other) :
    (registers.set register value).get other = registers.get other := by
  have hval : register.val ≠ other.val := fun h => hne (Fin.ext h)
  simp [get, set, Vector.getElem_set_ne _ _ hval]

end Registers

end GasMachine
