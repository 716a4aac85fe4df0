import Mathlib.Data.List.Perm.Basic
import Iris.Library.Rect
import Iris.Library.Run
import Iris.Vnc.Frame

/-!
Owns the rectangles of tiles changed since a generation, merged into runs across and stacked
runs down: they cover exactly the pixels of those tiles inside the area asked for.
-/

namespace Iris.Vnc

open Library List Rect

/-- The rectangles so far. `opened` are those that ended on the previous tile row and `next`
those that end on this one, by index. -/
structure Merge where
  out : List Rect := []
  opened : List Nat := []
  next : List Nat := []

def runRect (f : Frame) (ty : Nat) (run : Nat × Nat) : Rect where
  x := run.1 * tile
  y := ty * tile
  w := min (run.2 * tile) f.w - run.1 * tile
  h := min ((ty + 1) * tile) f.h - ty * tile

/-- A run goes under the open rectangle of its column, or starts one. -/
def Merge.add (m : Merge) (r : Rect) : Merge :=
  let column i := (m.out.getD i r).x = r.x ∧ (m.out.getD i r).w = r.w
  match m.opened.findIdx? fun i => column i with
  | some p =>
    let i := m.opened.getD p 0
    let above := m.out.getD i r
    { out := m.out.set i { above with h := above.h + r.h }
      opened := m.opened.eraseIdx p
      next := m.next ++ [i] }
  | none => { m with out := m.out ++ [r], next := m.next ++ [m.out.length] }

def rowRects (f : Frame) (seen ty : Nat) : List Rect :=
  (Runs.runs (fun tx => seen < f.tileGen.getD (ty * f.tilesX + tx) 0) f.tilesX 0).map (runRect f ty)

def addRow (f : Frame) (seen : Nat) (m : Merge) (ty : Nat) : Merge :=
  let m := (rowRects f seen ty).foldl Merge.add { m with next := [] }
  { m with opened := m.next, next := [] }

/-- Tiles changed since `seen` inside `area`. -/
def dirtyRects (f : Frame) (seen : Nat) (area : Rect) : List Rect :=
  let m := (range (divCeil f.h tile)).foldl (addRow f seen) {}
  m.out.filterMap fun r => r.meet area

/-! ### Merging -/

namespace Merge
variable {m : Merge} {top bottom : Nat}

/-- Open rectangles are apart and end where the row starts; those of the row end with it. -/
structure Aligned (m : Merge) (top bottom : Nat) : Prop where
  apart : (m.opened ++ m.next).Nodup
  above : ∀ i ∈ m.opened, ∃ r, m.out[i]? = some r ∧ r.y + r.h = top
  here : ∀ i ∈ m.next, ∃ r, m.out[i]? = some r ∧ r.y + r.h = bottom

section
variable (aligned : m.Aligned top bottom)
include aligned

theorem add_new (ends : r.y + r.h = bottom) :
    ({ m with out := m.out ++ [r], next := m.next ++ [m.out.length] } : Merge).Aligned
      top bottom := by
  have inside {i : Nat} {o : Rect} (there : m.out[i]? = some o) : i < m.out.length :=
    (List.getElem?_eq_some_iff.mp there).1
  have kept {i : Nat} {o : Rect} (there : m.out[i]? = some o) : (m.out ++ [r])[i]? = some o := by
    rw [getElem?_append_left (inside there)]
    exact there
  refine ⟨?_, fun i member => ?_, fun i member => ?_⟩
  · rw [← append_assoc]
    refine nodup_append.mpr ⟨aligned.apart, by simp, fun i member last new => ?_⟩
    obtain rfl := mem_singleton.mp new
    rintro rfl
    rcases mem_append.mp member with opened | next
    · obtain ⟨o, there, -⟩ := aligned.above _ opened
      exact absurd (inside there) (lt_irrefl _)
    · obtain ⟨o, there, -⟩ := aligned.here _ next
      exact absurd (inside there) (lt_irrefl _)
  · obtain ⟨o, there, end_⟩ := aligned.above i member
    exact ⟨o, kept there, end_⟩
  · rcases mem_append.mp member with next | last
    · obtain ⟨o, there, end_⟩ := aligned.here i next
      exact ⟨o, kept there, end_⟩
    · obtain rfl := mem_singleton.mp last
      exact ⟨r, by simp, ends⟩

/-- The open rectangle `i` goes on under row `r`, and no other changes. -/
theorem add_under {r : Rect} {p : Nat} (opened : m.opened[p]? = some i)
    (there : m.out[i]? = some above) (ends : above.y + (above.h + r.h) = bottom) :
    ({ out := m.out.set i { above with h := above.h + r.h }
       opened := m.opened.eraseIdx p
       next := m.next ++ [i] } : Merge).Aligned top bottom := by
  obtain ⟨valid, rfl⟩ := List.getElem?_eq_some_iff.mp opened
  have moved : (m.opened.eraseIdx p ++ m.next ++ [m.opened[p]]).Nodup := by
    refine (Perm.nodup_iff ?_).mpr aligned.apart
    refine (perm_append_singleton _ _).trans ?_
    exact Perm.append_right m.next (getElem_cons_eraseIdx_perm valid)
  have kept {j : Nat} (member : j ∈ m.opened.eraseIdx p ++ m.next) :
      (m.out.set m.opened[p] { above with h := above.h + r.h })[j]? = m.out[j]? := by
    refine getElem?_set_ne fun same => ?_
    exact (nodup_append.mp moved).2.2 j member _ (mem_singleton_self _) same.symm
  refine ⟨append_assoc _ _ _ ▸ moved, fun j member => ?_, fun j member => ?_⟩
  · rw [kept (mem_append_left _ member)]
    exact aligned.above j (mem_of_mem_eraseIdx member)
  rcases mem_append.mp member with next | last
  · rw [kept (mem_append_right _ next)]
    exact aligned.here j next
  · obtain rfl := mem_singleton.mp last
    have inside := (List.getElem?_eq_some_iff.mp there).1
    exact ⟨_, getElem?_set_self inside, ends⟩

/-- A run added under what is open: the rectangles stay aligned, and one more of them contains
each point of the run. -/
theorem add_aligned (starts : r.y = top)
    (ends : r.y + r.h = bottom) : (m.add r).Aligned top bottom ∧
      ∀ x y, count (m.add r).out x y =
        count m.out x y + if r.Contains x y then 1 else 0 := by
  rw [add]
  split
  next p found =>
    obtain ⟨valid, column, -⟩ := findIdx?_eq_some_iff_getElem.mp found
    have opened : m.opened[p]? = some m.opened[p] := getElem?_eq_getElem valid
    obtain ⟨above, there, touching⟩ := aligned.above _ (getElem_mem valid)
    have place : m.opened.getD p 0 = m.opened[p] := by simp [valid]
    have found : m.out.getD m.opened[p] r = above := by simp [there]
    simp only [found, decide_eq_true_eq] at column
    simp only [place, found]
    exact ⟨add_under aligned opened there (by omega),
      fun x y => count_set_stacked there column (by omega)⟩
  · exact ⟨add_new aligned ends, fun x y => count_append⟩

end

theorem foldl_add_aligned (rows : ∀ r ∈ rects, r.y = top ∧ r.y + r.h = bottom)
    (aligned : m.Aligned top bottom) : (rects.foldl add m).Aligned top bottom ∧
      ∀ x y, count (rects.foldl add m).out x y =
        count m.out x y + count rects x y := by
  induction rects generalizing m with
  | nil => exact ⟨aligned, fun x y => rfl⟩
  | cons r rest inductionHypothesis =>
    obtain ⟨starts, ends⟩ := rows r (by simp)
    obtain ⟨added, counted⟩ := add_aligned aligned starts ends
    obtain ⟨final, all⟩ := inductionHypothesis (forall_mem_cons.mp rows).2 added
    refine ⟨final, fun x y => ?_⟩
    rw [foldl_cons, all, counted, count_cons]
    omega

end Merge

/-! ### Coverage -/

section
variable {f : Frame} {seen x y : Nat}

theorem contains_runRect :
    (runRect f ty run).Contains x y ↔
      (run.1 ≤ x / tile ∧ x / tile < run.2) ∧ (x < f.w ∧ y < f.h) ∧ y / tile = ty := by
  simp only [Contains, runRect, tile]
  omega

/-- The runs of a tile row cover the pixels of its newer tiles. -/
theorem covers_rowRects (tiled : f.tilesX = divCeil f.w tile) :
    Covers (rowRects f seen ty) x y ↔
      (x < f.w ∧ y < f.h) ∧ y / tile = ty ∧ seen < f.genAt x y := by
  have member := @Runs.mem_runs (fun tx => seen < f.tileGen.getD (ty * f.tilesX + tx) 0) f.tilesX
    0 (x / tile)
  simp only [Nat.zero_le, true_and, decide_eq_true_eq] at member
  simp only [Covers, rowRects, mem_map, exists_exists_and_eq_and, contains_runRect]
  constructor
  · rintro ⟨run, there, across, inside, rfl⟩
    exact ⟨inside, rfl, (member.mp ⟨run, there, across⟩).2⟩
  · rintro ⟨inside, rfl, newer⟩
    have column : x / tile < f.tilesX := tiled ▸ div_lt_divCeil inside.1
    obtain ⟨run, there, across⟩ := member.mpr ⟨column, newer⟩
    exact ⟨run, there, across, inside, rfl⟩

theorem count_rowRects_le : count (rowRects f seen ty) x y ≤ 1 := by
  rw [Rect.count, rowRects, countP_map]
  refine Nat.le_trans (countP_mono_left fun run _ inside => ?_) (Runs.countP_runs_le (x / tile))
  simp only [Function.comp_apply, decide_eq_true_eq, contains_runRect] at inside ⊢
  exact inside.1

/-- After some tile rows, what is open ends with the last of them, and the rectangles cover the
newer tiles of all of them. -/
structure Merged (f : Frame) (seen k : Nat) (m : Merge) : Prop where
  aligned : m.Aligned (min (k * tile) f.h) (min (k * tile) f.h)
  closed : m.next = []
  covers : ∀ x y, Covers m.out x y ↔
    (x < f.w ∧ y < f.h) ∧ y / tile < k ∧ seen < f.genAt x y

variable (tiled : f.tilesX = divCeil f.w tile)
include tiled

theorem addRow_merged (inside : k < divCeil f.h tile)
    (merged : Merged f seen k m) (once : ∀ x y, count m.out x y ≤ 1) :
    Merged f seen (k + 1) (addRow f seen m k) ∧
      ∀ x y, count (addRow f seen m k).out x y ≤ 1 := by
  have high := lt_of_lt_divCeil inside
  have top : min (k * tile) f.h = k * tile := Nat.min_eq_left (Nat.le_of_lt high)
  have apart : m.opened.Nodup := (nodup_append.mp merged.aligned.apart).1
  have start : ({ m with next := [] } : Merge).Aligned (k * tile) (min ((k + 1) * tile) f.h) :=
    ⟨by simpa using apart, top ▸ merged.aligned.above, by simp⟩
  have rows : ∀ r ∈ rowRects f seen k, r.y = k * tile ∧ r.y + r.h = min ((k + 1) * tile) f.h := by
    intro r member
    obtain ⟨run, -, rfl⟩ := mem_map.mp member
    refine ⟨rfl, ?_⟩
    simp only [runRect, tile] at high ⊢
    omega
  obtain ⟨aligned, counted⟩ := Merge.foldl_add_aligned rows start
  rw [addRow]
  refine ⟨⟨⟨?_, aligned.here, by simp⟩, rfl, fun x y => ?_⟩, fun x y => ?_⟩
  · simpa using (nodup_append.mp aligned.apart).2.1
  · rw [covers_iff_count, counted, Nat.add_pos_iff_pos_or_pos, ← covers_iff_count,
      ← covers_iff_count, merged.covers, covers_rowRects tiled, Nat.lt_succ_iff_lt_or_eq]
    tauto
  · -- A point of this tile row is in none of those before.
    rw [counted]
    have before := merged.covers x y
    have row := @covers_rowRects f seen x y k tiled
    rw [covers_iff_count] at before row
    have atMost := once x y
    have atMost' := @count_rowRects_le f seen x y k
    dsimp only at before ⊢
    omega

theorem out_merged :
    let m := (range (divCeil f.h tile)).foldl (addRow f seen) {}
    Merged f seen (divCeil f.h tile) m ∧ ∀ x y, count m.out x y ≤ 1 := by
  have none : Merged f seen 0 {} := by
    refine ⟨⟨by simp, by simp, by simp⟩, rfl, fun x y => ?_⟩
    exact iff_of_false covers_nil fun ⟨_, before, _⟩ => absurd before (Nat.not_lt_zero _)
  exact Run.foldl_range_invariant
    (fun k m => Merged f seen k m ∧ ∀ x y, count m.out x y ≤ 1)
    ⟨none, fun _ _ => Nat.zero_le 1⟩ fun k inside m merged =>
      addRow_merged tiled inside merged.1 merged.2

/-- The rectangles cover exactly the pixels of the tiles changed since, inside the area. -/
theorem covers_dirtyRects :
    Covers (dirtyRects f seen area) x y ↔
      ((x < f.w ∧ y < f.h) ∧ seen < f.genAt x y) ∧ area.Contains x y := by
  rw [dirtyRects, covers_clipped, (out_merged tiled).1.covers]
  refine and_congr_left fun _ => ?_
  constructor
  · exact fun ⟨inside, _, newer⟩ => ⟨inside, newer⟩
  · exact fun ⟨inside, newer⟩ => ⟨inside, div_lt_divCeil inside.2, newer⟩

end

/-- Rectangles with points, no point in two of them, that have just the pixels of the area in
tiles newer than `seen`. -/
structure Exact (f : Frame) (seen : Nat) (area : Rect) (rects : List Rect) : Prop where
  nonempty : ∀ r ∈ rects, 0 < r.w ∧ 0 < r.h
  apart : rects.Pairwise Apart
  inside : ∀ r ∈ rects, ∀ x y, r.Contains x y → (x < f.w ∧ y < f.h) ∧ area.Contains x y
  covers : ∀ x y, Covers rects x y ↔
    ((x < f.w ∧ y < f.h) ∧ seen < f.genAt x y) ∧ area.Contains x y

theorem dirtyRects_exact {f : Frame} {seen : Nat} {area : Rect}
    (tiled : f.tilesX = divCeil f.w tile) :
    Exact f seen area (dirtyRects f seen area) where
  nonempty r member := by
    obtain ⟨whole, -, met⟩ := mem_filterMap.mp member
    exact meet_pos met
  apart := pairwise_apart fun x y =>
    Nat.le_trans count_clipped_le ((out_merged tiled).2 x y)
  inside r member x y here := by
    have covered := (covers_dirtyRects tiled).mp ⟨r, member, here⟩
    exact ⟨covered.1.1, covered.2⟩
  covers x y := covers_dirtyRects tiled

/-- Two tiles by two, all but the second newer than 1. -/
def fourTiles : Frame := { w := 100, h := 70, tileGen := [9, 0, 2, 2], tilesX := 2 }

theorem dirtyRects_exact_fourTiles :
    Exact fourTiles 1 ⟨10, 10, 200, 200⟩ (dirtyRects fourTiles 1 ⟨10, 10, 200, 200⟩) :=
  dirtyRects_exact rfl

end Iris.Vnc
