import ReverseSweep.Json.Arithmetic

/-! Seeds for the random number generators, and whether kernels have to be deterministic. -/

namespace ReverseSweep

structure KernelFlags where
  deterministic : Bool
  benchmark : Bool
deriving DecidableEq, Repr

/-- Generators take seeds of 32 bits. Floating numbers and texts are refused by the way they are
stored. -/
def checkSeed : Json → Except Fault Int
  | .int n => if 0 ≤ n ∧ n < 0x100000000 then .ok n else .error .seedOutOfRange
  | .bool b => .ok (truthValue b)
  | .float _ => .error (.notCastable "float64")
  | .str text => .error (.notCastable ("<U" ++ Decimal.natural (max text.length 1)))
  | .list _ | .object _ => .error .unsupportedSeed
  | .null => .error (.notConvertible Json.null.kindName)

def KernelFlags.afterSeeding (flags : KernelFlags) (deterministic : Bool) : KernelFlags :=
  if deterministic then ⟨true, false⟩ else flags

end ReverseSweep
