import Summand.Partition

/-!
# Interleavings

Workers go through their chunks side by side, and nobody controls whose turn it is. An interleaving
says, for any chunks, in which order the workers take their turns. A worker with nothing left to do
lets its turn pass, so there may be more turns than needed, but every worker gets enough of them.
-/

namespace Summand

/-- An order in which workers take turns. -/
structure Interleaving where
  /-- The position of the worker whose turn it is, turn by turn. -/
  turns : List Chunk → List Nat
  /-- A worker gets at least as many turns as its chunk has elements. -/
  enough : ∀ {chunks : List Chunk} {position : Nat} {chunk : Chunk},
    chunks[position]? = some chunk → chunk.length ≤ (turns chunks).count position

namespace Interleaving

/-- The turns of workers that go through their chunks one after another, counted from a position. -/
def turnsFrom : (position : Nat) → List Chunk → List Nat
  | _, [] => []
  | position, chunk :: rest =>
    List.replicate chunk.length position ++ turnsFrom (position + 1) rest

theorem length_le_count_turnsFrom (start : Nat) {chunks : List Chunk} {position : Nat}
    {chunk : Chunk} (h : chunks[position]? = some chunk) :
    chunk.length ≤ (turnsFrom start chunks).count (start + position) := by
  induction chunks generalizing start position with
  | nil => simp at h
  | cons first rest ih =>
    rw [turnsFrom, List.count_append]
    cases position with
    | zero =>
      obtain rfl : first = chunk := by simpa using h
      simp
    | succ position =>
      have later : chunk.length ≤ (turnsFrom (start + 1) rest).count (start + 1 + position) :=
        ih (start + 1) (by simpa using h)
      rw [Nat.add_right_comm] at later
      exact Nat.le_trans later (Nat.le_add_left _ _)

/-- The workers finish one after another. -/
def sequential : Interleaving where
  turns := turnsFrom 0
  enough h := by simpa using length_le_count_turnsFrom 0 h

end Interleaving

end Summand
