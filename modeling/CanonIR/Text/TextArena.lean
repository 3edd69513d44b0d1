import CanonIR.Fault
import CanonIR.Text.Bytes
import CanonIR.Text.Sizing

/-! Storage for byte strings. Strings are laid end to end in pools, each behind a
header that holds its length, and are never moved: a place in a pool is enough to
read a string back. -/

namespace CanonIR

/-- Where a string is stored. -/
structure Stored where
  pool : Nat
  offset : Nat
  deriving DecidableEq

namespace Stored

/-- The empty string takes no storage; its pool number is one that no pool has. -/
def empty : Stored := ⟨positionLimit - 1, 0⟩

def isEmpty (stored : Stored) : Bool := stored.pool == positionLimit - 1

def describe (stored : Stored) : String :=
  s!"ArenaStr \x7b pool: {stored.pool}, offset: {stored.offset} \x7d"

end Stored

/-- The four bytes of a length, lowest first. -/
def lengthHeader (length : Nat) : Bytes :=
  [length, length / 256, length / 65536, length / 16777216].map Nat.toUInt8

def headerSize : Nat := 4

/-- The length that a header holds. -/
def headerLength (header : Bytes) : Nat :=
  header.foldr (fun byte rest => byte.toNat + 256 * rest) 0

/-- A pool of `size` bytes, filled from the front. -/
structure Pool where
  size : Nat
  filled : Array UInt8 := #[]

namespace Pool

def used (pool : Pool) : Nat := pool.filled.size

def remaining (pool : Pool) : Nat := pool.size - pool.used

def append (pool : Pool) (bytes : Bytes) : Pool :=
  { pool with filled := (pool.filled.appendList (lengthHeader bytes.length)).appendList bytes }

/-- The `length` bytes from `start` on. -/
def slice (pool : Pool) (start length : Nat) : Checked Bytes :=
  if start + length ≤ pool.used then .ok (pool.filled.extract start (start + length)).toList
  else .error .outOfRange

end Pool

structure ArenaUsage where
  pools : Nat
  strings : Nat
  bytesUsed : Nat
  bytesReserved : Nat
  deriving DecidableEq

structure TextArena where
  poolSize : Nat
  pools : Array Pool := #[]
  /-- The pool that requests of ordinary size are carved from. -/
  current : Option Nat := none
  strings : Nat := 0
  bytesUsed : Nat := 0

namespace TextArena

def ofSizing (sizing : Sizing) : TextArena := { poolSize := sizing.poolSize }

/-- Opens a new pool for ordinary requests. -/
def openPool (arena : TextArena) : Nat × TextArena :=
  (arena.pools.size,
    { arena with
      pools := arena.pools.push { size := arena.poolSize }
      current := some arena.pools.size })

/-- A pool with `need` bytes to spare. A request above the ordinary size gets a pool
of its own, and the current pool goes on serving the smaller ones. -/
def reserve (arena : TextArena) (need : Nat) : Checked (Nat × TextArena) :=
  if arena.poolSize < need then
    .ok (arena.pools.size, { arena with pools := arena.pools.push { size := need } })
  else
    match arena.current with
    | none => .ok arena.openPool
    | some index => do
      let pool ← fetch arena.pools index
      return if need ≤ pool.remaining then (index, arena) else arena.openPool

/-- Copies `bytes` into the arena. -/
def store (arena : TextArena) (bytes : Bytes) : Checked (Except ArenaError (Stored × TextArena)) :=
  if bytes.isEmpty then .ok (.ok (.empty, arena))
  else if positionLimit ≤ bytes.length then .ok (.error (.oversized bytes.length))
  else do
    let need := headerSize + bytes.length
    let (index, arena) ← arena.reserve need
    let offset := (← fetch arena.pools index).used
    let pool ← position "arena pools" index
    let offset ← position "arena pool offset" offset
    return .ok (⟨pool, offset⟩,
      { arena with
        pools := arena.pools.modify index (·.append bytes)
        strings := arena.strings + 1
        bytesUsed := arena.bytesUsed + need })

/-- The bytes stored at `stored`. -/
def read (arena : TextArena) (stored : Stored) : Checked Bytes :=
  if stored.isEmpty then .ok []
  else do
    let pool ← fetch arena.pools stored.pool
    let header ← pool.slice stored.offset headerSize
    pool.slice (stored.offset + headerSize) (headerLength header)

def usage (arena : TextArena) : ArenaUsage where
  pools := arena.pools.size
  strings := arena.strings
  bytesUsed := arena.bytesUsed
  bytesReserved := arena.pools.foldl (fun total pool => total + pool.size) 0

end TextArena

end CanonIR
