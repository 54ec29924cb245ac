import Mathlib.Data.List.Basic
import Summand.Proofs.Progress
import Summand.Scaling

/-!
# What speedups compare

A timing series is made by adding points, each of which has the times of some numbers of workers
(`Scaling.Point`). The times of a number of workers are those of the points where it was measured,
in their order (`Scaling.times_ofPoints`), and speedups pair up the times of one worker with those
of another number in that order (`Scaling.speedups_ofPoints`).

So the speedups compare times of the same point as long as both numbers are measured at the same
points. Once a point has one of the two only, all later times are compared with those of other
points, since nothing of the point is left in the series that lacks it (`Small.shifted_speedups`).
-/

namespace Summand

namespace Scaling

/-! ### Points -/

/-- What is added to a timing series: the times of different numbers of workers for one size. -/
structure Point where
  size : Json
  times : List (Int × Number)
  baseline : Number
  nodup : (times.map Prod.fst).Nodup

namespace Point

/-- The time of a number of workers, if it was measured. -/
def time? (p : Point) (workers : Int) : Option Number := p.times.lookup workers

/-- The times of one worker and of a number of workers, if both were measured. -/
def pair? (p : Point) (workers : Int) : Option (Number × Number) :=
  (p.time? 1).bind fun single ↦ (p.time? workers).map fun time ↦ (single, time)

/-- At the point either both one worker and a number of workers were measured, or neither. -/
def Matches (p : Point) (workers : Int) : Prop :=
  (p.time? 1).isSome ↔ (p.time? workers).isSome

end Point

/-- A series with the times of another point. -/
def add (s : Scaling) (p : Point) : Scaling := s.addPoint p.size p.times p.baseline

/-- The series of some points. -/
def ofPoints (points : List Point) : Scaling := points.foldl add {}

/-- The times of a number of workers at the points where it was measured. -/
def measured (workers : Int) (points : List Point) : List Number :=
  points.filterMap fun p ↦ p.time? workers

/-- The times of one worker and of a number of workers at the points where both were measured. -/
def compared (workers : Int) (points : List Point) : List (Number × Number) :=
  points.filterMap fun p ↦ p.pair? workers

/-- The ratios of pairs of times. -/
def ratios (pairs : List (Number × Number)) : Except Failure (List Number) :=
  pairs.mapM fun (single, time) ↦ ratio single time

/-! ### Recording times -/

/-- The times that a table of series has for a number of workers; none if it has no series. -/
def recorded (workers : Int) (series : List (Int × List Number)) : List Number :=
  (series.lookup workers).getD []

theorem recorded_cons_self (workers : Int) (times : List Number)
    (series : List (Int × List Number)) :
    recorded workers ((workers, times) :: series) = times := by
  rw [recorded, List.lookup_cons_self, Option.getD_some]

theorem recorded_cons_of_ne {workers v : Int} (h : workers ≠ v) (times : List Number)
    (series : List (Int × List Number)) :
    recorded workers ((v, times) :: series) = recorded workers series := by
  have hkey : (workers == v) = false := beq_eq_false_iff_ne.2 h
  simp only [recorded, List.lookup_cons, hkey]

/-- A time is recorded behind those of its number of workers, and nowhere else. -/
theorem recorded_record (workers w : Int) (time : Number) (series : List (Int × List Number)) :
    recorded workers (record w time series) =
      recorded workers series ++ if workers = w then [time] else [] := by
  induction series with
  | nil =>
    by_cases h : workers = w
    · subst h
      simp [record, recorded]
    · rw [record, recorded_cons_of_ne h, if_neg h, List.append_nil]
  | cons entry rest ih =>
    obtain ⟨v, times⟩ := entry
    rw [record]
    by_cases hv : v = w
    · subst hv
      rw [if_pos rfl]
      by_cases h : workers = v
      · subst h
        rw [recorded_cons_self, recorded_cons_self, if_pos rfl]
      · rw [recorded_cons_of_ne h, recorded_cons_of_ne h, if_neg h, List.append_nil]
    · rw [if_neg hv]
      by_cases h : workers = v
      · subst h
        rw [recorded_cons_self, recorded_cons_self, if_neg hv, List.append_nil]
      · rw [recorded_cons_of_ne h, recorded_cons_of_ne h, ih]

/-- Recording the times of different numbers of workers adds at most one to each series. -/
theorem recorded_foldl_record (workers : Int) {times : List (Int × Number)}
    (hnodup : (times.map Prod.fst).Nodup) (series : List (Int × List Number)) :
    recorded workers (times.foldl (fun series entry ↦ record entry.1 entry.2 series) series) =
      recorded workers series ++ (times.lookup workers).toList := by
  induction times generalizing series with
  | nil => simp
  | cons entry rest ih =>
    obtain ⟨w, time⟩ := entry
    obtain ⟨hnew, hrest⟩ := List.nodup_cons.1 hnodup
    rw [List.foldl_cons, ih hrest, recorded_record]
    by_cases h : workers = w
    · subst h
      have hlookup : rest.lookup workers = none := by
        rw [List.lookup_eq_none_iff]
        intro p hp
        exact bne_iff_ne.2 fun heq ↦ hnew (List.mem_map.2 ⟨p, hp, heq.symm⟩)
      rw [if_pos rfl, hlookup, List.lookup_cons_self]
      simp
    · have hkey : (workers == w) = false := beq_eq_false_iff_ne.2 h
      rw [if_neg h, List.append_nil, List.lookup_cons, hkey]

/-- A series has the times of the points where its number of workers was measured. -/
theorem recorded_ofPoints (workers : Int) (points : List Point) :
    recorded workers (ofPoints points).series = measured workers points := by
  have key (points : List Point) (s : Scaling) :
      recorded workers (points.foldl add s).series =
        recorded workers s.series ++ measured workers points := by
    induction points generalizing s with
    | nil => simp [measured]
    | cons p points ih =>
      rw [List.foldl_cons, ih, add, addPoint, recorded_foldl_record workers p.nodup, measured,
        List.append_assoc, measured, List.filterMap_cons]
      rw [Point.time?]
      cases p.times.lookup workers <;> rfl
  exact (key points {}).trans (List.nil_append _)

theorem times_eq (s : Scaling) (workers : Int) : s.times workers =
    (s.series.lookup workers).elim (.error (.missingKey (.int workers))) .ok := by
  rw [times]
  induction s.series with
  | nil => rfl
  | cons entry rest ih =>
    obtain ⟨v, times⟩ := entry
    by_cases h : workers = v
    · subst h
      simp
    · have hkey : (workers == v) = false := beq_eq_false_iff_ne.2 h
      have hkey' : (v == workers) = false := beq_eq_false_iff_ne.2 (Ne.symm h)
      rw [List.find?_cons_of_neg (by simp [hkey']), List.lookup_cons, hkey]
      exact ih

/-- The times of a number of workers that was measured at some point. -/
theorem times_ofPoints {workers : Int} {points : List Point}
    (h : ∃ p ∈ points, (p.time? workers).isSome) :
    (ofPoints points).times workers = .ok (measured workers points) := by
  obtain ⟨p, hp, htime⟩ := h
  obtain ⟨time, htime⟩ := Option.isSome_iff_exists.1 htime
  have hmem : time ∈ measured workers points := List.mem_filterMap.2 ⟨p, hp, htime⟩
  have hrecorded := recorded_ofPoints workers points
  rw [times_eq]
  rw [recorded] at hrecorded
  cases hlookup : (ofPoints points).series.lookup workers with
  | none =>
    rw [hlookup, Option.getD_none] at hrecorded
    rw [← hrecorded] at hmem
    cases hmem
  | some times =>
    rw [hlookup, Option.getD_some] at hrecorded
    rw [hrecorded]
    rfl

/-! ### Aligned points -/

/-- As long as both numbers of workers are measured at the same points, the times that are paired up
are those of one point. -/
theorem zip_measured_append {workers : Int} {earlier : List Point}
    (h : ∀ p ∈ earlier, p.Matches workers) (later : List Point) :
    (measured 1 (earlier ++ later)).zip (measured workers (earlier ++ later)) =
      compared workers earlier ++ (measured 1 later).zip (measured workers later) := by
  induction earlier with
  | nil => rfl
  | cons p earlier ih =>
    have hp : p.Matches workers := h p List.mem_cons_self
    have htail := ih fun q hq ↦ h q (List.mem_cons_of_mem p hq)
    rw [Point.Matches] at hp
    simp only [measured, compared, List.cons_append, List.filterMap_cons, Point.pair?] at htail ⊢
    rcases hsingle : p.time? 1 with - | single <;> rcases htime : p.time? workers with - | time
    · exact htail
    · simp [hsingle, htime] at hp
    · simp [hsingle, htime] at hp
    · exact congrArg ((single, time) :: ·) htail

/-- Speedups pair up the times of one worker, in the order of the points where it was measured, with
those of the number of workers. There are as many as the number that was measured less often has
times. The first ones compare times of the same points, as long as at every point both were measured
or neither. -/
theorem speedups_ofPoints {workers : Int} {points : List Point}
    (hsingle : ∃ p ∈ points, (p.time? 1).isSome)
    (hworkers : ∃ p ∈ points, (p.time? workers).isSome) :
    (ofPoints points).speedups workers =
        ratios ((measured 1 points).zip (measured workers points)) ∧
      (∀ speedups, (ofPoints points).speedups workers = .ok speedups → speedups.length =
        min (points.countP fun p ↦ (p.time? 1).isSome)
          (points.countP fun p ↦ (p.time? workers).isSome)) ∧
      ∀ earlier later, points = earlier ++ later → (∀ p ∈ earlier, p.Matches workers) →
        (ofPoints points).speedups workers = ratios (compared workers earlier ++
          (measured 1 later).zip (measured workers later)) := by
  have hlength (w : Int) : (measured w points).length = points.countP fun p ↦ (p.time? w).isSome :=
    List.length_filterMap_eq_countP
  have heq : (ofPoints points).speedups workers =
      ratios ((measured 1 points).zip (measured workers points)) := by
    rw [speedups, times_ofPoints hsingle, times_ofPoints hworkers]
    rfl
  refine ⟨heq, fun speedups hspeedups ↦ ?_, fun earlier later hpoints h ↦ ?_⟩
  · rw [heq] at hspeedups
    rw [length_of_mapM hspeedups, List.length_zip, hlength, hlength]
  · rw [heq, hpoints, zip_measured_append h]

end Scaling

namespace Small

open Scaling

/-- Ten milliseconds with one worker and five with two. -/
def smallSize : Point := ⟨.int 10, [(1, .real 10.0), (2, .real 5.0)], .real 0.0, by decide⟩

/-- A size for which two workers were not measured. -/
def skippedSize : Point := ⟨.int 20, [(1, .real 100.0)], .real 0.0, by decide⟩

def largeSize : Point := ⟨.int 30, [(1, .real 1000.0), (2, .real 500.0)], .real 0.0, by decide⟩

/-- The first speedup compares times of one point, and the second one times of two points. -/
theorem speedups_of_gap :
    (ofPoints [smallSize, skippedSize, largeSize]).speedups 2 = ratios (compared 2 [smallSize] ++
        [(.real 100.0, .real 500.0)]) ∧
      ((ofPoints [smallSize, skippedSize, largeSize]).speedups 2).toOption.any
        (· == [2, .real 0.2]) := by
  have hsingle : ∃ p ∈ [smallSize, skippedSize, largeSize], (p.time? 1).isSome :=
    ⟨smallSize, by simp, rfl⟩
  have hworkers : ∃ p ∈ [smallSize, skippedSize, largeSize], (p.time? 2).isSome :=
    ⟨smallSize, by simp, rfl⟩
  obtain ⟨-, -, haligned⟩ := speedups_ofPoints hsingle hworkers
  have hlater : (measured 1 [skippedSize, largeSize]).zip (measured 2 [skippedSize, largeSize]) =
      [(.real 100.0, .real 500.0)] := rfl
  have hmatches : ∀ p ∈ [smallSize], p.Matches 2 := by
    intro p hp
    rw [List.mem_singleton.1 hp]
    exact ⟨fun _ ↦ rfl, fun _ ↦ rfl⟩
  have hspeedups := haligned [smallSize] [skippedSize, largeSize] rfl hmatches
  rw [hlater] at hspeedups
  refine ⟨hspeedups, ?_⟩
  decide +kernel

/-- At both points where one and two workers were measured two are twice as fast. The time of one
worker at a point in between is compared with that of two workers at the last one. -/
theorem shifted_speedups :
    ¬∀ (workers : Int) (points : List Point), (∃ p ∈ points, (p.time? 1).isSome) →
      (∃ p ∈ points, (p.time? workers).isSome) →
        (ofPoints points).speedups workers = ratios (compared workers points) := by
  intro h
  have heq := h 2 [smallSize, skippedSize, largeSize] ⟨smallSize, by simp, rfl⟩
    ⟨smallSize, by simp, rfl⟩
  have hne :
      ((ofPoints [smallSize, skippedSize, largeSize]).speedups 2).toOption.any (· == [2, 2]) ≠
        (ratios (compared 2 [smallSize, skippedSize, largeSize])).toOption.any (· == [2, 2]) := by
    decide +kernel
  exact hne (by rw [heq])

end Small

end Summand
