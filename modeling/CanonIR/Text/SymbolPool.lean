import CanonIR.Text.TextArena
import CanonIR.Text.ReservedWord
import CanonIR.Text.Symbol

/-! Interning: equal texts get equal symbols. Stored texts are found again through a
table of buckets, each the head of a chain of entries in the order they came. Nothing
a caller can see depends on the hash function. -/

namespace CanonIR

structure PoolEntry where
  text : Stored
  hash : UInt64
  next : Option Nat

structure SymbolPool where
  /-- Spreads texts over the buckets. -/
  hash : Bytes → UInt64
  arena : TextArena
  entries : Array PoolEntry := #[]
  buckets : Array (Option Nat)
  maxLoad : Nat

/-- Outcome of a search along a chain. -/
inductive ChainSearch where
  | found (index : Nat)
  /-- The chain ends at `tail` without the text. -/
  | absent (tail : Option Nat)

namespace SymbolPool

def ofSizing (hash : Bytes → UInt64) (sizing : Sizing) : SymbolPool where
  hash := hash
  arena := .ofSizing sizing
  buckets := .replicate sizing.bucketCount none
  maxLoad := sizing.maxLoad

def size (pool : SymbolPool) : Nat := pool.entries.size

def bucketCount (pool : SymbolPool) : Nat := pool.buckets.size

def usage (pool : SymbolPool) : ArenaUsage := pool.arena.usage

/-- The bucket of a hash among `count`, a power of two. -/
def bucketOf (hash : UInt64) (count : Nat) : Nat := hash.toNat % count

/-- Follows a chain from `cursor`; `tail` is the entry before it. Hashes are compared
first, so that texts are seldom read. -/
def searchFrom (pool : SymbolPool) (bytes : Bytes) (hash : UInt64) :
    Nat → Option Nat → Option Nat → Checked ChainSearch
  | _, tail, none => .ok (.absent tail)
  | 0, _, some _ => .error .endlessWalk
  | fuel + 1, _, some index => do
    let entry ← fetch pool.entries index
    if entry.hash = hash then
      if (← pool.arena.read entry.text) = bytes then return .found index
    pool.searchFrom bytes hash fuel (some index) entry.next

def search (pool : SymbolPool) (bytes : Bytes) (hash : UInt64) : Checked ChainSearch := do
  let head ← fetch pool.buckets (bucketOf hash pool.bucketCount)
  pool.searchFrom bytes hash pool.size none head

/-- A bucket table under construction: `heads` and `tails` are the ends of the chains. -/
structure Relinking where
  entries : Array PoolEntry
  heads : Array (Option Nat)
  tails : Array (Option Nat)

/-- Makes entry `index` the last of its chain. -/
def Relinking.append : Relinking → Nat → Relinking
  | ⟨entries, heads, tails⟩, index =>
    match entries[index]? with
    | none => ⟨entries, heads, tails⟩
    | some entry =>
      let bucket := bucketOf entry.hash heads.size
      let ended := entries.modify index ({ · with next := none })
      match tails.getD bucket none with
      | some tail =>
        ⟨ended.modify tail ({ · with next := some index }), heads,
          tails.setIfInBounds bucket (some index)⟩
      | none =>
        ⟨ended, heads.setIfInBounds bucket (some index), tails.setIfInBounds bucket (some index)⟩

/-- Doubles the bucket table and links all entries anew, oldest first. -/
def grow (pool : SymbolPool) : SymbolPool :=
  let count := pool.bucketCount * 2
  let start : Relinking := ⟨pool.entries, .replicate count none, .replicate count none⟩
  let linked := (List.range pool.size).foldl Relinking.append start
  { pool with entries := linked.entries, buckets := linked.heads }

/-- Counts are 64-bit numbers. -/
def countLimit : Nat := 18446744073709551616

/-- The product of two counts, or the largest count where that is less. -/
def saturatingMul (first second : Nat) : Nat := min (first * second) (countLimit - 1)

/-- Whether the chains have become too long on average. -/
def isCrowded (pool : SymbolPool) : Bool :=
  saturatingMul pool.bucketCount pool.maxLoad < pool.size

/-- Puts a text that is stored already at the end of its chain. -/
def link : SymbolPool → Option Nat → PoolEntry → SymbolPool
  | ⟨hash, arena, entries, buckets, maxLoad⟩, some tail, entry =>
    let index := entries.size
    let linked := (entries.push entry).modify tail ({ · with next := some index })
    ⟨hash, arena, linked, buckets, maxLoad⟩
  | ⟨hash, arena, entries, buckets, maxLoad⟩, none, entry =>
    let heads := buckets.setIfInBounds (bucketOf entry.hash buckets.size) (some entries.size)
    ⟨hash, arena, entries.push entry, heads, maxLoad⟩

/-- Stores a text whose chain was searched in vain and ends at `tail`. -/
def add : SymbolPool → Bytes → UInt64 → Option Nat → Checked (Except ArenaError SymbolPool)
  | ⟨hash, arena, entries, buckets, maxLoad⟩, bytes, code, tail => do
    match ← arena.store bytes with
    | .error error => return .error error
    | .ok (text, arena) =>
      let pool : SymbolPool := ⟨hash, arena, entries, buckets, maxLoad⟩
      let linked := pool.link tail { text, hash := code, next := none }
      return .ok (if linked.isCrowded then linked.grow else linked)

/-- The symbol of `bytes`, stored on first use. -/
def intern (pool : SymbolPool) (bytes : Bytes) :
    Checked (Except InternError (Symbol × SymbolPool)) :=
  if bytes.isEmpty then .ok (.ok (.empty, pool))
  else match ReservedWord.find? bytes with
  | some word => .ok (.ok (.word word, pool))
  | none => do
    let hash := pool.hash bytes
    match ← pool.search bytes hash with
    | .found index => return .ok (.entry index, pool)
    | .absent tail =>
      let index := pool.size
      if Symbol.maxEntries ≤ index then return .error (.overflow index)
      match ← pool.add bytes hash tail with
      | .error error => return .error (.arena error)
      | .ok pool => return .ok (.entry index, pool)

/-- Interns for callers that take no refusal. -/
def internOrFault (pool : SymbolPool) (bytes : Bytes) : Checked (Symbol × SymbolPool) := do
  match ← pool.intern bytes with
  | .ok result => return result
  | .error error => throw (.refused error)

/-- The symbol of `bytes` if it has one. Stores nothing. -/
def get? (pool : SymbolPool) (bytes : Bytes) : Checked (Option Symbol) :=
  if bytes.isEmpty then .ok (some .empty)
  else match ReservedWord.find? bytes with
  | some word => .ok (some (.word word))
  | none => do
    match ← pool.search bytes (pool.hash bytes) with
    | .found index => return some (.entry index)
    | .absent _ => return none

/-- The bytes that `symbol` stands for. -/
def lookup (pool : SymbolPool) : Symbol → Checked Bytes
  | .empty => .ok []
  | .entry index => do pool.arena.read (← fetch pool.entries index).text
  | .word index =>
    match ReservedWord.bytes? index with
    | some bytes => .ok bytes
    | none => .error .outOfRange

end SymbolPool

/-- The symbol of a reserved word. -/
def Symbol.ofWord? (text : String) : Option Symbol :=
  (ReservedWord.find? (.ofString text)).map .word

/-- The symbol of a text that has to be a reserved word. -/
def Symbol.ofWord (text : String) : Checked Symbol :=
  match Symbol.ofWord? text with
  | some symbol => .ok symbol
  | none => .error (.notReservedWord text)

end CanonIR
