import Summand.Grid
import Summand.Memory

/-!
# Views of blocks

A view covers some of another block's rows, in the order of a slice. It shares their cells, but it
is a block of its own. The bounds of a slice may count from the end, and those outside of the block
are taken back to its ends.
-/

namespace Summand

/-- The positions that a slice with bounds and a step other than zero selects from a length. -/
def slicePositions (length : Nat) (start stop : Option Int) (step : Int) : List Nat :=
  let n : Int := length
  let clamp (low high x : Int) : Int :=
    let x := if x < 0 then x + n else x
    max low (min high x)
  let (first, count) :=
    if 0 < step then
      let first := (start.map (clamp 0 n)).getD 0
      let last := (stop.map (clamp 0 n)).getD n
      (first, Int.fdiv (last - first + step - 1) step)
    else
      let first := (start.map (clamp (-1) (n - 1))).getD (n - 1)
      let last := (stop.map (clamp (-1) (n - 1))).getD (-1)
      (first, Int.fdiv (first - last - step - 1) (-step))
  (List.range count.toNat).map fun k ↦ (first + Int.ofNat k * step).toNat

namespace Block

/-- The failure of a slice whose step is zero. -/
def zeroStep : Failure := .raised "ValueError" "slice step cannot be zero"

/-- The view of a block that a slice selects along its first axis. -/
def sliced (b : Block) (id : Nat) (start stop : Option Int) (step : Int) :
    Except Failure Block :=
  match b.shape with
  | [] => .error Grid.noAxis
  | rows :: rest =>
    if step = 0 then .error zeroStep
    else
      let width := Grid.volume rest
      let positions := slicePositions rows start stop step
      .ok { b with
        id
        shape := positions.length :: rest
        cells := positions.flatMap fun r ↦ Buffer.part (r * width) width b.cells }

end Block

end Summand
