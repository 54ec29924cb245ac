/-!
# Splitting work

A range of bindings is split into contiguous chunks of nearly equal size, the larger ones first.
There are at most as many chunks as asked for and none is empty, except that an empty range is one
empty chunk.
-/

namespace Summand

/-- The integers from `start` up to `stop`, the latter not included. -/
structure Chunk where
  start : Int
  stop : Int
  deriving Repr, DecidableEq

namespace Chunk

def length (c : Chunk) : Nat := (c.stop - c.start).toNat

end Chunk

namespace Partition

/-- The number of chunks: at least one, and not more than there are elements. -/
def chunkCount (n parts : Int) : Int := max 1 (min parts n)

/-- Consecutive chunks from `start` on, of `base` elements each and one more in the first `extra`
of them. -/
def chunksFrom (start base : Int) : (extra count : Nat) → List Chunk
  | _, 0 => []
  | 0, count + 1 => ⟨start, start + base⟩ :: chunksFrom (start + base) base 0 count
  | extra + 1, count + 1 =>
    ⟨start, start + base + 1⟩ :: chunksFrom (start + base + 1) base extra count

end Partition

/-- The chunks of a range of `n` elements for the given number of parts. -/
def partition (n parts : Int) : List Chunk :=
  let count := Partition.chunkCount n parts
  Partition.chunksFrom 0 (Int.fdiv n count) (Int.fmod n count).toNat count.toNat

end Summand
