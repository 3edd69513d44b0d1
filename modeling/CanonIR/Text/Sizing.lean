/-! Sizes of the text storage. Every setter brings its argument into range, so any
sizing that was built by them can be used. -/

namespace CanonIR

/-- The number of `least .. most` that is nearest to `value`. -/
def clamp (least most value : Nat) : Nat :=
  if value < least then least else if most < value then most else value

/-- The least power of two that is `count` or more. -/
def powerOfTwoFrom (count : Nat) : Nat :=
  if count ≤ 1 then 1 else 1 <<< ((count - 1).log2 + 1)

structure Sizing where
  poolSize : Nat := 65536
  bucketCount : Nat := 1024
  /-- Entries per bucket beyond which the bucket table doubles. -/
  maxLoad : Nat := 2
  deriving DecidableEq

namespace Sizing

def withPoolSize (sizing : Sizing) (size : Nat) : Sizing :=
  { sizing with poolSize := clamp 64 1073741824 size }

/-- Rounds up to a power of two, so that the low bits of a hash select a bucket. -/
def withBucketCount (sizing : Sizing) (count : Nat) : Sizing :=
  { sizing with bucketCount := powerOfTwoFrom (clamp 1 16777216 count) }

def withMaxLoad (sizing : Sizing) (load : Nat) : Sizing :=
  { sizing with maxLoad := clamp 1 65536 load }

end Sizing

end CanonIR
