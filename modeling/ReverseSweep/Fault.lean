import ReverseSweep.Number
import ReverseSweep.Text.Quoted

/-! What can be refused, by cause, and the wording of each refusal. -/

namespace ReverseSweep

inductive Fault
  -- schedule, store and sweep
  | negativeBudget (budget : Number)
  | invalidStep (step : Int)
  | alreadyHeld (step : Int)
  | overfull (held : Nat) (capacity : Number)
  | emptySchedule
  | notResident (step : Int)
  | outOfLockstep (resident held : List Int)
  | evictedNotResident (step : Int)
  | retiredNotHeld (step : Int)
  | negativeSteps (steps : Number)
  | storageTooSmall (size : Number)
  | notASchedule (kind : String)
  | notFresh
  | replayDropped (step : Int)
  | intervalTooSmall (interval : Number)
  | zeroStride
  -- settings, seeds, folders and records
  | unknownStrategy (name : String)
  | unknownField (owner name : String)
  | missingAttribute (kind name : String)
  | unknownRemoval (shown : String)
  | seedOutOfRange
  | unsupportedSeed
  | nullCharacter
  | yearOutOfRange (year : Int)
  | dayOutOfRange
  | fieldOutOfRange (name : String) (least greatest : Nat)
  | missingArgument (name : String) (position : Nat)
  | missingFolder (path : String)
  | notAFolder (path : String)
  -- values of a kind that does not fit
  | notComparable (kind : String)
  | notIterable (kind : String)
  | notSized (kind : String)
  | notWhole (kind : String)
  | notReal (kind : String)
  | notConvertible (kind : String)
  | notCastable (storage : String)
  | notJoinable (kind other : String)
  | notRepeatable (kind : String)
  | notAnIndex
  | badOperands (operation left right : String)
  | unknownFormat (code kind : String)
  | unsupportedFormat (kind : String)
  -- numbers out of range
  | tooLargeForFloat
  | tooLargeForWord
  | negativeForWord
  | tooLargeForIndex (kind : String)
  | tooManySteps
  | tooLongText
  | outOfMemory
  | zeroModulus
  | zeroFloatModulus
  -- blocks of numbers and their devices
  | notASequence
  | tooDeep (kind : String)
  | notBlockData (kind : String)
  | unequalRows (expected dimension got : Nat)
  | entryOutOfRange
  | entryNotWhole
  | zeroBlockModulus
  | negativeSize (size : Int)
  | noGreatest
  | unequalFactors (rows columns size : Nat)
  | unequalVectors (left right : Nat)
  | unequalTerms (left right : Nat)
  | emptyDevice
  | invalidDevice (name : String)
  | unknownDevice (type : String)
  | deviceIndexTooLarge (index name : String)
  | deviceNotSupported (type : String)
  | deviceNotLinked (type : String)
  | noData
deriving DecidableEq, Repr

namespace Fault

/-- The broad kinds: a value out of range, an object of a wrong type, a missing attribute, a number
too large, a division by zero, a lack of memory, a missing file, a file that is no folder, work that
blocks refuse, work that is not supported on a device, and a broken contract between schedule, store
and sweep. -/
inductive Kind
  | value | type | attribute | overflow | zeroDivision | memory | missingFile | notAFolder
  | blocks | notSupported | unavailable | contract
deriving DecidableEq, Repr

def kind : Fault → Kind
  | negativeBudget _ | invalidStep _ | negativeSteps _ | storageTooSmall _ | intervalTooSmall _
  | unknownStrategy _ | unknownFormat _ _ | unknownRemoval _ | seedOutOfRange | zeroStride
  | nullCharacter | yearOutOfRange _ | dayOutOfRange | fieldOutOfRange _ _ _ | tooDeep _
  | unequalRows _ _ _ | entryOutOfRange => .value
  | notASchedule _ | unknownField _ _ | unsupportedSeed | notComparable _ | notIterable _
  | missingArgument _ _ | notSized _ | notWhole _ | notReal _ | notConvertible _ | notCastable _
  | notJoinable _ _ | notRepeatable _ | notAnIndex | badOperands _ _ _ | unsupportedFormat _
  | notASequence | notBlockData _ => .type
  | missingAttribute _ _ => .attribute
  | tooLargeForFloat | tooLargeForWord | negativeForWord | tooLargeForIndex _
  | tooManySteps | tooLongText => .overflow
  | zeroModulus | zeroFloatModulus => .zeroDivision
  | outOfMemory => .memory
  | missingFolder _ => .missingFile
  | notAFolder _ => .notAFolder
  | entryNotWhole | zeroBlockModulus | negativeSize _ | noGreatest | unequalFactors _ _ _
  | unequalVectors _ _ | unequalTerms _ _ | emptyDevice | invalidDevice _ | unknownDevice _
  | deviceIndexTooLarge _ _ | deviceNotLinked _ => .blocks
  | noData => .notSupported
  | deviceNotSupported _ => .unavailable
  | alreadyHeld _ | overfull _ _ | emptySchedule | notResident _ | outOfLockstep _ _
  | evictedNotResident _ | retiredNotHeld _ | notFresh | replayDropped _ => .contract

/-- The device types there are, in the order in which they are listed. -/
def deviceTypes : List String :=
  ["cpu", "cuda", "ipu", "xpu", "mkldnn", "opengl", "opencl", "ideep", "hip", "ve", "fpga", "maia",
   "xla", "lazy", "vulkan", "mps", "meta", "hpu", "mtia", "privateuseone"]

def untilNull (text : String) : String := String.ofList (text.toList.takeWhile (· != '\x00'))

def message : Fault → String
  | negativeBudget n => "max_states must be non-negative, got " ++ n.display
  | invalidStep s => "Invalid checkpoint step: " ++ Decimal.integer s
  | alreadyHeld s => "Step " ++ Decimal.integer s ++ " is already checkpointed"
  | overfull held capacity =>
    "Held " ++ Decimal.natural held ++ " checkpoints with capacity " ++ capacity.display
  | emptySchedule => "last_checkpoint_step() called on an empty strategy"
  | notResident s => "No resident state for step " ++ Decimal.integer s
  | outOfLockstep resident held =>
    "Resident store out of lockstep with strategy: store=" ++ Decimal.integerList resident ++
      " strategy=" ++ Decimal.integerList held
  | evictedNotResident s =>
    "Strategy evicted step " ++ Decimal.integer s ++ " which has no resident state"
  | retiredNotHeld s => "Retired step " ++ Decimal.integer s ++ " is not held by the strategy"
  | negativeSteps n => "num_steps must be non-negative, got " ++ n.display
  | storageTooSmall n => "storage_size must be at least 1, got " ++ n.display
  | notASchedule kind => "strategy must be a CheckpointStrategy, got " ++ kind
  | notFresh => "A replay run needs a fresh strategy and an empty store"
  | replayDropped s =>
    "Strategy dropped recomputed step " ++ Decimal.integer s ++
      "; the reverse sweep cannot advance"
  | intervalTooSmall n => "checkpoint_interval must be >= 1, got " ++ n.display
  | zeroStride => "range() arg 3 must not be zero"
  | unknownStrategy name => "Unknown checkpoint strategy: " ++ name
  | unknownField owner name =>
    owner ++ ".__init__() got an unexpected keyword argument '" ++ name ++ "'"
  | missingAttribute kind name => "'" ++ kind ++ "' object has no attribute '" ++ name ++ "'"
  | unknownRemoval shown => shown ++ " is not a valid EraseResult"
  | seedOutOfRange => "Seed must be between 0 and 2**32 - 1"
  | unsupportedSeed =>
    "The only supported seed types are: None,\nint, float, str, bytes, and bytearray."
  | nullCharacter => "embedded null byte"
  | yearOutOfRange year => "year " ++ Decimal.integer year ++ " is out of range"
  | dayOutOfRange => "day is out of range for month"
  | fieldOutOfRange name least greatest =>
    name ++ " must be in " ++ Decimal.natural least ++ ".." ++ Decimal.natural greatest
  | missingArgument name position =>
    "function missing required argument '" ++ name ++ "' (pos " ++ Decimal.natural position ++ ")"
  | missingFolder path => "[Errno 2] No such file or directory: " ++ Text.quoted path
  | notAFolder path => "[Errno 20] Not a directory: " ++ Text.quoted path
  | notComparable kind => "'<' not supported between instances of '" ++ kind ++ "' and 'int'"
  | notIterable kind => "'" ++ kind ++ "' object is not iterable"
  | notSized kind => "object of type '" ++ kind ++ "' has no len()"
  | notWhole kind => "'" ++ kind ++ "' object cannot be interpreted as an integer"
  | notReal kind => "must be real number, not " ++ kind
  | notConvertible kind =>
    "int() argument must be a string, a bytes-like object or a real number, not '" ++ kind ++ "'"
  | notCastable storage =>
    "Cannot cast scalar from dtype('" ++ storage ++
      "') to dtype('int64') according to the rule 'safe'"
  | notJoinable kind other =>
    "can only concatenate " ++ kind ++ " (not \"" ++ other ++ "\") to " ++ kind
  | notRepeatable kind => "can't multiply sequence by non-int of type '" ++ kind ++ "'"
  | notAnIndex => "only integer tensors of a single element can be converted to an index"
  | badOperands operation left right =>
    "unsupported operand type(s) for " ++ operation ++ ": '" ++ left ++ "' and '" ++ right ++ "'"
  | unknownFormat code kind =>
    "Unknown format code '" ++ code ++ "' for object of type '" ++ kind ++ "'"
  | unsupportedFormat kind => "unsupported format string passed to " ++ kind ++ ".__format__"
  | tooLargeForFloat => "int too large to convert to float"
  | tooLargeForWord => "int too big to convert"
  | negativeForWord => "can't convert negative int to unsigned"
  | tooLargeForIndex kind => "cannot fit '" ++ kind ++ "' into an index-sized integer"
  | tooManySteps => "Python int too large to convert to C ssize_t"
  | tooLongText => "repeated string is too long"
  | outOfMemory => ""
  | zeroModulus => "integer modulo by zero"
  | zeroFloatModulus => "float modulo"
  | notASequence => "not a sequence"
  | tooDeep kind => "too many dimensions '" ++ kind ++ "'"
  | notBlockData kind => "new(): invalid data type '" ++ kind ++ "'"
  | unequalRows expected dimension got =>
    "expected sequence of length " ++ Decimal.natural expected ++ " at dim " ++
      Decimal.natural dimension ++ " (got " ++ Decimal.natural got ++ ")"
  | entryOutOfRange => "Overflow when unpacking long long"
  | entryNotWhole => "value cannot be converted to type int64 without overflow"
  | zeroBlockModulus => "ZeroDivisionError"
  | negativeSize n =>
    "Trying to create tensor with negative dimension " ++ Decimal.integer n ++ ": " ++
      Decimal.integerList [n, n]
  | noGreatest =>
    "max(): Expected reduction dim to be specified for input.numel() == 0. Specify the " ++
      "reduction dim with the 'dim' argument."
  | unequalFactors rows columns size =>
    "size mismatch, got input (" ++ Decimal.natural rows ++ "), mat (" ++ Decimal.natural rows ++
      "x" ++ Decimal.natural columns ++ "), vec (" ++ Decimal.natural size ++ ")"
  | unequalVectors left right =>
    let l := Decimal.natural left
    let r := Decimal.natural right
    "inconsistent tensor size, expected tensor [" ++ l ++ "] and src [" ++ r ++
      "] to have the same number of elements, but got " ++ l ++ " and " ++ r ++
      " elements respectively"
  | unequalTerms left right =>
    "The size of tensor a (" ++ Decimal.natural left ++ ") must match the size of tensor b (" ++
      Decimal.natural right ++ ") at non-singleton dimension 0"
  | emptyDevice => "Device string must not be empty"
  | invalidDevice name => untilNull ("Invalid device string: '" ++ name ++ "'")
  | unknownDevice type =>
    "Expected one of " ++ ", ".intercalate deviceTypes ++
      " device type at start of device string: " ++ type
  | deviceIndexTooLarge index name =>
    "Could not parse device index '" ++ index ++ "' in device string '" ++ name ++ "'"
  | deviceNotSupported type => "Torch not compiled with " ++ type.toUpper ++ " enabled"
  | deviceNotLinked type => "PyTorch is not linked with support for " ++ type ++ " devices"
  | noData => "Cannot copy out of meta tensor; no data!"

end Fault
end ReverseSweep
