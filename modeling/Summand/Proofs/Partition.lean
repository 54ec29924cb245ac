import Mathlib.Data.List.Basic
import Summand.Interleaving

/-!
# Chunks tile the range

The chunks of a partition stand side by side: each begins where the one before it ends, the first at
zero and the last one ends at the number of elements. So cutting a list into the chunks of its
length loses nothing and repeats nothing (`flatMap_cut_partition`), and no position lies in two
chunks (`Tile.position_unique`).

The elements that are left over after an equal division go to the first chunks, one to each. So the
chunks are as even as they can be, with the longer ones in front (`partition_tiles_evenly`).
-/

namespace Summand

variable {β : Type}

namespace Chunk

/-- The elements of a list that a chunk covers. -/
def cut (c : Chunk) (l : List β) : List β := (l.drop c.start.toNat).take c.length

theorem mem_of_mem_cut {c : Chunk} {l : List β} {a : β} (h : a ∈ c.cut l) : a ∈ l :=
  List.mem_of_mem_drop (List.mem_of_mem_take h)

/-- Chunks stand side by side from one bound to another. -/
inductive Tile : (first last : Nat) → List Chunk → Prop
  | nil (bound : Nat) : Tile bound bound []
  | cons {first middle last : Nat} {rest : List Chunk} (h : first ≤ middle)
      (tail : Tile middle last rest) : Tile first last (⟨first, middle⟩ :: rest)

namespace Tile

variable {first last : Nat} {chunks : List Chunk}

theorem le (h : Tile first last chunks) : first ≤ last := by
  induction h with
  | nil => exact Nat.le_refl _
  | cons h _ ih => exact Nat.le_trans h ih

/-- Every chunk lies between the bounds. -/
theorem bounds (h : Tile first last chunks) {c : Chunk} (hc : c ∈ chunks) :
    first ≤ c.start.toNat ∧ c.start.toNat ≤ c.stop.toNat ∧ c.stop.toNat ≤ last ∧
      c.length = c.stop.toNat - c.start.toNat := by
  induction h with
  | nil => simp at hc
  | @cons first middle last rest hle tail ih =>
    rcases List.mem_cons.1 hc with rfl | hc
    · have := tail.le
      refine ⟨by simp, by simpa using hle, by simpa using this, ?_⟩
      simp only [length]
      omega
    · obtain ⟨h₁, h₂, h₃, h₄⟩ := ih hc
      exact ⟨Nat.le_trans hle h₁, h₂, h₃, h₄⟩

/-- A later chunk begins no sooner than an earlier one ends. -/
theorem stop_le_start (h : Tile first last chunks) {p q : Nat} {c d : Chunk} (hpq : p < q)
    (hc : chunks[p]? = some c) (hd : chunks[q]? = some d) : c.stop.toNat ≤ d.start.toNat := by
  induction h generalizing p q with
  | nil => simp at hc
  | @cons first middle last rest hle tail ih =>
    -- The later chunk is one of the rest, and so is the earlier one unless it is the first of all.
    obtain ⟨q, rfl⟩ := Nat.exists_eq_succ_of_ne_zero (Nat.ne_of_gt (Nat.zero_lt_of_lt hpq))
    have hd : rest[q]? = some d := by simpa using hd
    obtain - | p := p
    · obtain rfl : (⟨first, middle⟩ : Chunk) = c := by simpa using hc
      exact (tail.bounds (List.mem_of_getElem? hd)).1
    · exact ih (Nat.lt_of_succ_lt_succ hpq) (by simpa using hc) hd

/-- No position lies in two chunks. -/
theorem position_unique (h : Tile first last chunks) {p q i : Nat} {c d : Chunk}
    (hc : chunks[p]? = some c) (hd : chunks[q]? = some d)
    (hic : c.start.toNat ≤ i ∧ i < c.stop.toNat) (hid : d.start.toNat ≤ i ∧ i < d.stop.toNat) :
    p = q := by
  rcases Nat.lt_trichotomy p q with hlt | rfl | hgt
  · have := h.stop_le_start hlt hc hd
    omega
  · rfl
  · have := h.stop_le_start hgt hd hc
    omega

/-- Every position between the bounds lies in a chunk. -/
theorem exists_chunk (h : Tile first last chunks) {i : Nat} (hi : first ≤ i ∧ i < last) :
    ∃ (p : Nat) (c : Chunk), chunks[p]? = some c ∧ c.start.toNat ≤ i ∧ i < c.stop.toNat := by
  induction h with
  | nil => omega
  | @cons first middle last rest hle tail ih =>
    rcases Nat.lt_or_ge i middle with hlt | hge
    · exact ⟨0, ⟨first, middle⟩, rfl, by simpa using hi.1, by simpa using hlt⟩
    · obtain ⟨p, c, hc, hi⟩ := ih ⟨hge, hi.2⟩
      exact ⟨p + 1, c, by simpa using hc, hi⟩

/-- Every position between the bounds lies in exactly one chunk. -/
theorem existsUnique_position (h : Tile first last chunks) {i : Nat} (hi : first ≤ i ∧ i < last) :
    ∃! p : Nat, ∃ c, chunks[p]? = some c ∧ c.start ≤ i ∧ (i : Int) < c.stop := by
  obtain ⟨p, c, hc, hle, hlt⟩ := h.exists_chunk hi
  refine ⟨p, ⟨c, hc, Int.toNat_le.1 hle, Int.lt_toNat.1 hlt⟩, ?_⟩
  rintro q ⟨d, hd, hle', hlt'⟩
  exact h.position_unique hd hc ⟨Int.toNat_le.2 hle', Int.lt_toNat.2 hlt'⟩ ⟨hle, hlt⟩

theorem head?_start (h : Tile first last chunks) (hne : chunks ≠ []) :
    chunks.head?.map Chunk.start = some (first : Int) := by
  cases h with
  | nil => exact absurd rfl hne
  | cons => rfl

theorem getLast?_stop (h : Tile first last chunks) (hne : chunks ≠ []) :
    chunks.getLast?.map Chunk.stop = some (last : Int) := by
  induction h with
  | nil => exact absurd rfl hne
  | cons _ tail ih =>
    cases tail with
    | nil => rfl
    | cons =>
      rw [List.getLast?_cons_cons]
      exact ih (List.cons_ne_nil _ _)

/-- Every chunk but the first begins where the one before it ends. -/
theorem isChain (h : Tile first last chunks) :
    chunks.IsChain fun c d ↦ d.start = c.stop := by
  induction h with
  | nil => exact .nil
  | cons _ tail ih =>
    cases tail with
    | nil => exact .singleton _
    | cons => exact .cons_cons rfl ih

/-- Cutting along the chunks loses nothing and repeats nothing. -/
theorem flatMap_cut (h : Tile first last chunks) (l : List β) :
    chunks.flatMap (·.cut l) = (l.drop first).take (last - first) := by
  induction h with
  | nil => simp
  | @cons first middle last rest hle tail ih =>
    have hlast := tail.le
    have hcut : cut ⟨first, middle⟩ l = (l.drop first).take (middle - first) := by
      rw [cut, length]
      simp
    rw [List.flatMap_cons, ih, hcut,
      show last - first = (middle - first) + (last - middle) by omega, List.take_add,
      List.drop_drop, show first + (middle - first) = middle by omega]

end Tile

/-- Chunks stand side by side from zero to `n` and each holds an element. Their lengths differ by
one at most, and none is longer than a chunk in front of it. -/
structure EvenTiling (n : Int) (chunks : List Chunk) : Prop where
  nonempty : ∀ c ∈ chunks, c.start < c.stop
  first : chunks.head?.map Chunk.start = some 0
  adjacent : chunks.IsChain fun c d ↦ d.start = c.stop
  last : chunks.getLast?.map Chunk.stop = some n
  /-- Each number below `n` is in exactly one chunk. -/
  covered : ∀ i : Nat, i < n →
    ∃! p : Nat, ∃ c, chunks[p]? = some c ∧ c.start ≤ i ∧ (i : Int) < c.stop
  balanced : ∀ c ∈ chunks, ∀ d ∈ chunks, c.length ≤ d.length + 1
  descending : chunks.Pairwise fun c d ↦ d.length ≤ c.length

end Chunk

namespace Partition

open Chunk

/-- Chunks of nearly equal size stand side by side. -/
theorem tile_chunksFrom (start base : Nat) (extra count : Nat) (h : extra ≤ count) :
    Tile start (start + base * count + extra) (chunksFrom start base extra count) := by
  induction count generalizing start extra with
  | zero =>
    obtain rfl : extra = 0 := by omega
    rw [chunksFrom]
    exact .nil start
  | succ count ih =>
    obtain - | extra := extra
    · rw [chunksFrom]
      have tail := ih (start + base) 0 (Nat.zero_le _)
      have hend : start + base + base * count + 0 = start + base * (count + 1) + 0 := by
        rw [Nat.mul_succ]
        omega
      rw [hend] at tail
      exact .cons (Nat.le_add_right _ _) tail
    · rw [chunksFrom]
      have tail := ih (start + base + 1) extra (by omega)
      have hend : start + base + 1 + base * count + extra =
          start + base * (count + 1) + (extra + 1) := by
        rw [Nat.mul_succ]
        omega
      rw [hend] at tail
      exact .cons (by omega) tail

@[simp] theorem length_chunksFrom (start base : Int) (extra count : Nat) :
    (chunksFrom start base extra count).length = count := by
  fun_induction chunksFrom start base extra count <;> simp_all

/-- A chunk holds `base` elements, and one more if it is one of the first `extra`. -/
theorem stop_sub_start_chunksFrom {start base : Int} {extra count p : Nat} {c : Chunk}
    (h : (chunksFrom start base extra count)[p]? = some c) :
    c.stop - c.start = base + if p < extra then 1 else 0 := by
  -- From one chunk to the rest, both the position and the number of longer chunks fall by one.
  fun_induction chunksFrom start base extra count generalizing p with
  | case1 => simp at h
  | case2 start count ih =>
    obtain - | p := p
    · obtain rfl : (⟨start, start + base⟩ : Chunk) = c := by simpa using h
      simp only [Nat.not_lt_zero, if_false]
      omega
    · simpa using ih (by simpa using h)
  | case3 start extra count ih =>
    obtain - | p := p
    · obtain rfl : (⟨start, start + base + 1⟩ : Chunk) = c := by simpa using h
      simp only [Nat.zero_lt_succ, if_true]
      omega
    · simpa using ih (by simpa using h)

/-- No two chunks differ by more than one element. -/
theorem balanced_chunksFrom {start base : Int} {extra count : Nat} {c d : Chunk}
    (hc : c ∈ chunksFrom start base extra count) (hd : d ∈ chunksFrom start base extra count) :
    c.length ≤ d.length + 1 := by
  obtain ⟨p, hp⟩ := List.mem_iff_getElem?.1 hc
  obtain ⟨q, hq⟩ := List.mem_iff_getElem?.1 hd
  have hsize := stop_sub_start_chunksFrom hp
  have hsize' := stop_sub_start_chunksFrom hq
  rw [Chunk.length, Chunk.length, hsize, hsize']
  split <;> split <;> omega

/-- No chunk is longer than one in front of it. -/
theorem descending_chunksFrom (start base : Int) (extra count : Nat) :
    (chunksFrom start base extra count).Pairwise fun c d ↦ d.length ≤ c.length := by
  rw [List.pairwise_iff_getElem]
  intro p q hp hq hpq
  have hsize := stop_sub_start_chunksFrom (List.getElem?_eq_getElem hp)
  have hsize' := stop_sub_start_chunksFrom (List.getElem?_eq_getElem hq)
  rw [Chunk.length, Chunk.length, hsize, hsize']
  split <;> split <;> omega

theorem one_le_chunkCount (n parts : Int) : 1 ≤ chunkCount n parts := Int.le_max_left _ _

theorem chunkCount_eq_min {n parts : Int} (hn : 1 ≤ n) (hparts : 1 ≤ parts) :
    chunkCount n parts = min parts n := by
  rw [chunkCount]
  omega

/-- An equal division leaves no chunk without elements. -/
theorem one_le_fdiv_chunkCount {n : Int} (hn : 1 ≤ n) (parts : Int) :
    1 ≤ Int.fdiv n (chunkCount n parts) := by
  have hpos := one_le_chunkCount n parts
  have hle : chunkCount n parts ≤ n := by
    rw [chunkCount]
    omega
  rw [Int.fdiv_eq_ediv_of_nonneg _ (by omega)]
  exact Int.le_ediv_of_mul_le (by omega) (by omega)

end Partition

open Summand.Partition

/-- The chunks of a partition tile the range. -/
theorem tile_partition (n : Nat) {parts : Nat} (h : 1 ≤ parts) :
    Chunk.Tile 0 n (partition n parts) := by
  have hcount : chunkCount n parts = ((max 1 (min parts n) : Nat) : Int) := by
    rw [chunkCount]
    omega
  have hpos : 0 < max 1 (min parts n) := by omega
  rw [partition, hcount]
  generalize max 1 (min parts n) = count at hpos
  -- Nothing is negative here, so quotient and remainder are those of natural numbers.
  have hdiv : Int.fdiv n count = ((n / count : Nat) : Int) :=
    Int.fdiv_eq_ediv_of_nonneg _ (Int.natCast_nonneg count)
  have hmod : (Int.fmod n count).toNat = n % count := by
    rw [Int.fmod_eq_emod_of_nonneg _ (Int.natCast_nonneg count), ← Int.natCast_emod,
      Int.toNat_natCast]
  simp only [hdiv, hmod, Int.toNat_natCast]
  have hmodlt : n % count < count := Nat.mod_lt _ hpos
  have tile := tile_chunksFrom 0 (n / count) (n % count) count (Nat.le_of_lt hmodlt)
  rw [Nat.zero_add, Nat.mul_comm, Nat.div_add_mod] at tile
  exact tile

theorem length_partition (n parts : Int) :
    ((partition n parts).length : Int) = chunkCount n parts := by
  have hpos := one_le_chunkCount n parts
  rw [partition, length_chunksFrom]
  omega

/-- There are no more chunks than parts. -/
theorem length_partition_le (n : Nat) {parts : Nat} (h : 1 ≤ parts) :
    (partition n parts).length ≤ parts := by
  have hlength := length_partition n parts
  rw [chunkCount] at hlength
  omega

/-- Cutting a list into the chunks of its length loses nothing and repeats nothing. -/
theorem flatMap_cut_partition (l : List β) {parts : Nat} (h : 1 ≤ parts) :
    (partition l.length parts).flatMap (·.cut l) = l := by
  rw [(tile_partition l.length h).flatMap_cut l]
  simp

/-! ### Even chunks -/

theorem partition_ne_nil (n parts : Int) : partition n parts ≠ [] := by
  have hlength := length_partition n parts
  have hpos := one_le_chunkCount n parts
  intro hnil
  rw [hnil, List.length_nil] at hlength
  omega

/-- If there are elements, every chunk of a partition has some. -/
theorem start_lt_stop_of_mem_partition {n parts : Int} (hn : 1 ≤ n) {c : Chunk}
    (hc : c ∈ partition n parts) : c.start < c.stop := by
  obtain ⟨p, hp⟩ := List.mem_iff_getElem?.1 hc
  have hbase := one_le_fdiv_chunkCount hn parts
  have hsize := stop_sub_start_chunksFrom hp
  split at hsize <;> omega

theorem evenTiling_partition {n parts : Int} (hn : 1 ≤ n) (hparts : 1 ≤ parts) :
    Chunk.EvenTiling n (partition n parts) := by
  have hne := partition_ne_nil n parts
  have hnonempty : ∀ c ∈ partition n parts, c.start < c.stop := fun _ ↦
    start_lt_stop_of_mem_partition hn
  obtain ⟨n, rfl⟩ := Int.eq_ofNat_of_zero_le (show 0 ≤ n by omega)
  obtain ⟨parts, rfl⟩ := Int.eq_ofNat_of_zero_le (show 0 ≤ parts by omega)
  have tile := tile_partition n (show 1 ≤ parts by omega)
  exact {
    nonempty := hnonempty
    first := tile.head?_start hne
    adjacent := tile.isChain
    last := tile.getLast?_stop hne
    covered := fun i hi ↦ tile.existsUnique_position ⟨Nat.zero_le i, by omega⟩
    balanced := fun _ hc _ hd ↦ balanced_chunksFrom hc hd
    descending := descending_chunksFrom _ _ _ _ }

/-- Without elements, or if no parts are asked for, nothing is split. -/
theorem partition_eq_single {n parts : Int} (h : n ≤ 0 ∨ parts ≤ 0) :
    partition n parts = [⟨0, n⟩] := by
  have hcount : chunkCount n parts = 1 := by
    rw [chunkCount]
    omega
  rw [partition, hcount, Int.fdiv_one, Int.fmod_one]
  show [(⟨0, 0 + n⟩ : Chunk)] = [⟨0, n⟩]
  rw [Int.zero_add]

/-- The range is tiled evenly by as many chunks as asked for, or by one for each element if there
are fewer elements. Without elements, or if no parts are asked for, the whole range is one chunk. -/
theorem partition_tiles_evenly (n parts : Int) :
    (1 ≤ n → 1 ≤ parts →
      ((partition n parts).length : Int) = min parts n ∧
        Chunk.EvenTiling n (partition n parts)) ∧
      (n ≤ 0 ∨ parts ≤ 0 → partition n parts = [⟨0, n⟩]) := by
  refine ⟨fun hn hparts ↦ ⟨?_, evenTiling_partition hn hparts⟩, partition_eq_single⟩
  rw [length_partition, chunkCount_eq_min hn hparts]

namespace Small

/-- Ten elements in three chunks, where one is left over, and nothing for four workers. -/
theorem chunks_of_ten :
    ((1 : Int) ≤ 10 ∧ (1 : Int) ≤ 3) ∧ ((0 : Int) ≤ 0 ∨ (4 : Int) ≤ 0) ∧
      ((partition 10 3).length : Int) = min 3 10 ∧ Chunk.EvenTiling 10 (partition 10 3) ∧
      partition 10 3 = [⟨0, 4⟩, ⟨4, 7⟩, ⟨7, 10⟩] ∧ partition 0 4 = [⟨0, 0⟩] := by
  obtain ⟨hlength, heven⟩ := (partition_tiles_evenly 10 3).1 (by decide) (by decide)
  have hempty := (partition_tiles_evenly 0 4).2 (.inl (Int.le_refl 0))
  exact ⟨by decide, by decide, hlength, heven, by decide, hempty⟩

end Small

end Summand
