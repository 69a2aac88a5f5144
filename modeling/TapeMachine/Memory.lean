import TapeMachine.IoError

namespace TapeMachine

/-- Addresses are 64 bits wide and wrap around. -/
abbrev Pointer := UInt64

/-- What the operating system answers a process that asks for memory: `reserve` maps fresh pages and
tells where they are, and `grants` tells which buffers there is room for. A mapping of no bytes is
an invalid argument, and all others lie in the lower half of the address space. -/
structure Memory where
  reserve : UInt64 → Except IoError Pointer
  grants : Nat → Bool
  reserve_zero : reserve 0 = .error .invalidArgument
  end_le : ∀ {size base}, reserve size = .ok base → base.toNat + size.toNat ≤ 1 <<< 63

namespace Memory

def ampleLimit : Nat := 1 <<< 48

def ampleBase : Pointer := 0x7f0000000000

/-- Memory of a machine that has plenty of it. -/
def ample : Memory where
  reserve size :=
    if size = 0 then .error .invalidArgument
    else if size.toNat < ampleLimit then .ok ampleBase
    else .error .outOfMemory
  grants n := n < ampleLimit
  reserve_zero := rfl
  end_le {size base} h := by
    have at_base : ampleBase.toNat = 0x7f0000000000 := rfl
    have limit : ampleLimit = 2 ^ 48 := rfl
    split at h
    next => cases h
    next =>
      split at h
      next small =>
        obtain rfl := Except.ok.inj h
        omega
      next => cases h

end Memory

end TapeMachine
