import Mathlib.Tactic.Ring

/-!
Owns the frame the VNC server publishes: its pixels, the generation each of its tiles last
changed in, the comparison of a composed frame with it tile by tile, and what publishing one
says of every pixel.
-/

namespace Iris.Vnc

open List

abbrev Pixel := BitVec 32

def tile : Nat := 64

/-- The last frame and which of its tiles changed when, row by row. -/
structure Frame where
  w : Nat := 0
  h : Nat := 0
  px : List Pixel := []
  tileGen : List Nat := []
  tilesX : Nat := 0
  gen : Nat := 0
  sizeGen : Nat := 0
deriving DecidableEq, Repr

def divCeil (a b : Nat) : Nat := (a + b - 1) / b

def row (px : List Pixel) (w y : Nat) : List Pixel := (px.drop (y * w)).take w

def segment (pixels : List Pixel) (x0 x1 : Nat) : List Pixel := (pixels.drop x0).take (x1 - x0)

/-- One row of a tile compared. Rows that agree as a whole are passed over, and a tile found to
differ stays so. -/
def compareRow (w : Nat) (cur prev : List Pixel) (tx : Nat) (dirty : Bool) (y : Nat) : Bool :=
  let a := row cur w y
  let b := row prev w y
  if a = b then dirty
  else if dirty then dirty
  else
    let x0 := tx * tile
    let x1 := min (x0 + tile) w
    segment a x0 x1 != segment b x0 x1

/-- Whether a tile differs, after its rows are compared in order. -/
def dirtyTile (w h : Nat) (cur prev : List Pixel) (tx ty : Nat) : Bool :=
  (range' (ty * tile) (min (ty * tile + tile) h - ty * tile)).foldl
    (compareRow w cur prev tx) false

/-- The tiles that differ, row by row; all of them after a change of size. -/
def dirtyTiles (resized : Bool) (w h : Nat) (cur prev : List Pixel) : List Bool :=
  (range (divCeil w tile * divCeil h tile)).map fun i =>
    resized || dirtyTile w h cur prev (i % divCeil w tile) (i / divCeil w tile)

/-- Compare a composed frame with the published one, and publish it if anything moved. -/
def publish (old : Frame) (w h : Nat) (cur : List Pixel) : Frame :=
  let resized : Bool := (old.w, old.h) ≠ (w, h)
  let dirty := dirtyTiles resized w h cur old.px
  if !resized && !dirty.any id then old
  else
    let gen := old.gen + 1
    { w, h, gen
      px := cur
      tileGen :=
        if resized then replicate (divCeil w tile * divCeil h tile) gen
        else zipWith (fun g d => if d then gen else g) old.tileGen dirty
      tilesX := divCeil w tile
      sizeGen := old.sizeGen + if resized then 1 else 0 }

namespace Frame

def pixel (f : Frame) (x y : Nat) : Option Pixel := f.px[y * f.w + x]?

def genAt (f : Frame) (x y : Nat) : Nat :=
  f.tileGen.getD (y / tile * f.tilesX + x / tile) 0

/-- The tiles cover the frame, and each changed in some generation up to the frame's. -/
structure Tiled (f : Frame) : Prop where
  across : f.tilesX = divCeil f.w tile
  count : f.tileGen.length = f.tilesX * divCeil f.h tile
  started : ∀ gen ∈ f.tileGen, 0 < gen
  reached : ∀ gen ∈ f.tileGen, gen ≤ f.gen

end Frame

/-! ### Tiles and pixels -/

section
variable {a x y : Nat}

theorem div_lt_divCeil (inside : x < a) : x / tile < divCeil a tile := by
  rw [divCeil, tile]
  omega

theorem lt_of_lt_divCeil (inside : k < divCeil a tile) : k * tile < a := by
  rw [divCeil] at inside
  rw [tile] at inside ⊢
  omega

theorem index_lt {tx : Nat} (column : tx < n) (line : ty < m) : ty * n + tx < n * m := by
  calc ty * n + tx < ty * n + n := Nat.add_lt_add_left column _
    _ = n * (ty + 1) := by rw [Nat.mul_comm, Nat.mul_succ]
    _ ≤ n * m := Nat.mul_le_mul_left n line

theorem getElem?_row {w : Nat} (inside : x < w) : (row px w y)[x]? = px[y * w + x]? := by
  rw [row, getElem?_take_of_lt inside, getElem?_drop]

theorem getElem?_segment (after : x0 ≤ x) (before : x < x1) :
    (segment pixels x0 x1)[x - x0]? = pixels[x]? := by
  rw [segment, getElem?_take_of_lt (by omega), getElem?_drop,
    Nat.add_sub_cancel' after]

end

section
variable {w h : Nat} {cur prev : List Pixel}

theorem foldl_compareRow_true (ys : List Nat) :
    ys.foldl (compareRow w cur prev tx) true = true := by
  refine foldlRecOn ys _ (motive := (· = true)) rfl fun dirty same y _ => ?_
  rw [same, compareRow, if_pos rfl, ite_self]

/-- A tile found clean agrees in every row that was compared. -/
theorem clean_of_foldl {x : Nat} (column : x / tile = tx) (across : x < w) {ys : List Nat}
    (clean : ys.foldl (compareRow w cur prev tx) false = false) :
    ∀ y ∈ ys, cur[y * w + x]? = prev[y * w + x]? := by
  induction ys with
  | nil => simp
  | cons y ys inductionHypothesis =>
    rw [foldl_cons] at clean
    cases first : compareRow w cur prev tx false y with
    | true =>
      rw [first, foldl_compareRow_true] at clean
      cases clean
    | false =>
      rw [first] at clean
      intro z member
      rcases mem_cons.mp member with rfl | later
      · rw [← getElem?_row across, ← @getElem?_row _ _ prev _ across]
        rw [compareRow] at first
        split at first
        next same => rw [same]
        · have same := by simpa using first
          have left : tx * tile ≤ x := by
            rw [← column]
            exact Nat.div_mul_le_self x tile
          have right : x < min (tx * tile + tile) w := by
            rw [tile] at column ⊢
            omega
          rw [← getElem?_segment left right, same, getElem?_segment left right]
      · exact inductionHypothesis clean z later

theorem pixel_of_clean {y : Nat} (across : x < w) (down : y < h)
    (clean : dirtyTile w h cur prev (x / tile) (y / tile) = false) :
    cur[y * w + x]? = prev[y * w + x]? := by
  refine clean_of_foldl rfl across clean y ?_
  rw [mem_range'_1]
  rw [tile]
  omega

theorem dirtyTiles_length (resized : Bool) :
    (dirtyTiles resized w h cur prev).length = divCeil w tile * divCeil h tile := by
  rw [dirtyTiles, length_map, length_range]

theorem getElem?_dirtyTiles (column : tx < divCeil w tile) (line : ty < divCeil h tile) :
    (dirtyTiles false w h cur prev)[ty * divCeil w tile + tx]? =
      some (dirtyTile w h cur prev tx ty) := by
  rw [dirtyTiles, getElem?_map, getElem?_range (index_lt column line), Option.map_some,
    Nat.mul_comm ty, Nat.mul_add_mod, Nat.mod_eq_of_lt column,
    Nat.mul_add_div (Nat.zero_lt_of_lt column), Nat.div_eq_of_lt column, Nat.add_zero,
    Bool.false_or]

end

/-! ### Publishing -/

namespace Frame

theorem empty_tiled : Tiled {} where
  across := rfl
  count := rfl
  started := by simp
  reached := by simp

variable {f : Frame} (tiled : f.Tiled) {x y : Nat} (across : x < f.w) (down : y < f.h)
include tiled across down

theorem Tiled.getElem?_genAt :
    f.tileGen[y / tile * divCeil f.w tile + x / tile]? = some (f.genAt x y) := by
  have inside := index_lt (div_lt_divCeil across) (div_lt_divCeil down)
  rw [← tiled.across, ← tiled.count] at inside
  rw [genAt, ← tiled.across, getD_eq_getElem?_getD, getElem?_eq_getElem inside,
    Option.getD_some]

theorem Tiled.genAt_pos : 0 < f.genAt x y :=
  tiled.started _ (mem_of_getElem? (tiled.getElem?_genAt across down))

theorem Tiled.genAt_le : f.genAt x y ≤ f.gen :=
  tiled.reached _ (mem_of_getElem? (tiled.getElem?_genAt across down))

end Frame

/-- What publishing says of every pixel: its tile is newer than all that was published, or it is
the pixel that was there, in a tile of the same generation. -/
structure Published (old new : Frame) : Prop where
  later : old.gen ≤ new.gen
  each : ∀ x < new.w, ∀ y < new.h, old.gen < new.genAt x y ∨
    (x < old.w ∧ y < old.h) ∧ new.genAt x y = old.genAt x y ∧ new.pixel x y = old.pixel x y

theorem Published.refl (f : Frame) : Published f f where
  later := Nat.le_refl f.gen
  each _ across _ down := .inr ⟨⟨across, down⟩, rfl, rfl⟩

def resizedFrame (old : Frame) (w h : Nat) (cur : List Pixel) : Frame where
  w := w
  h := h
  px := cur
  tileGen := replicate (divCeil w tile * divCeil h tile) (old.gen + 1)
  tilesX := divCeil w tile
  gen := old.gen + 1
  sizeGen := old.sizeGen + 1

def changedFrame (old : Frame) (cur : List Pixel) : Frame :=
  { old with
    px := cur
    tileGen := zipWith (fun g d => if d then old.gen + 1 else g) old.tileGen
      (dirtyTiles false old.w old.h cur old.px)
    tilesX := divCeil old.w tile
    gen := old.gen + 1 }

theorem publish_cases :
    publish old w h cur = resizedFrame old w h cur ∨ (old.w = w ∧ old.h = h) ∧
        (publish old w h cur = old ∨ publish old w h cur = changedFrame old cur) := by
  by_cases same : (old.w, old.h) = (w, h)
  · obtain ⟨rfl, rfl⟩ := Prod.mk.inj same
    by_cases moved : (dirtyTiles false old.w old.h cur old.px).any id = true
    · simp [publish, changedFrame, moved]
    · simp [publish, moved]
  · simp [publish, resizedFrame, same]

theorem resizedFrame_tiled :
    (resizedFrame old w h cur).Tiled where
  across := rfl
  count := by simp [resizedFrame]
  started gen member := by
    rw [eq_of_mem_replicate member]
    exact Nat.succ_pos _
  reached gen member := by
    rw [eq_of_mem_replicate member]
    exact le_rfl

theorem resizedFrame_published :
    Published old (resizedFrame old w h cur) where
  later := Nat.le_succ _
  each x across y down := by
    have there := resizedFrame_tiled.getElem?_genAt across down
    rw [eq_of_mem_replicate (mem_of_getElem? there)]
    exact .inl (Nat.lt_succ_self _)

section
variable {old : Frame} {cur : List Pixel} (tiled : old.Tiled)
include tiled

theorem getElem?_changedFrame (across : x < old.w) (down : y < old.h) :
    (changedFrame old cur).tileGen[y / tile * divCeil old.w tile + x / tile]? =
      some (if dirtyTile old.w old.h cur old.px (x / tile) (y / tile) then old.gen + 1
        else old.genAt x y) := by
  rw [changedFrame, getElem?_zipWith, tiled.getElem?_genAt across down,
    getElem?_dirtyTiles (div_lt_divCeil across) (div_lt_divCeil down)]

omit tiled in
theorem of_mem_changedFrame (member : gen ∈ (changedFrame old cur).tileGen) :
    gen = old.gen + 1 ∨ gen ∈ old.tileGen := by
  rw [changedFrame, ← map_uncurry_zip_eq_zipWith] at member
  obtain ⟨⟨before, dirty⟩, paired, rfl⟩ := mem_map.mp member
  cases dirty with
  | true => exact .inl rfl
  | false => exact .inr (of_mem_zip paired).1

theorem changedFrame_tiled : (changedFrame old cur).Tiled where
  across := rfl
  count := by
    rw [changedFrame, length_zipWith, dirtyTiles_length, tiled.count, tiled.across]
    exact Nat.min_self _
  started gen member := by
    rcases of_mem_changedFrame member with rfl | before
    · exact Nat.succ_pos _
    · exact tiled.started gen before
  reached gen member := by
    rcases of_mem_changedFrame member with rfl | before
    · exact le_rfl
    · exact Nat.le_succ_of_le (tiled.reached gen before)

theorem changedFrame_published : Published old (changedFrame old cur) where
  later := Nat.le_succ _
  each x across y down := by
    have there := (changedFrame_tiled tiled).getElem?_genAt across down
    have given := @getElem?_changedFrame old cur tiled x y across down
    have same := Option.some.inj (there.symm.trans given)
    rw [same]
    split
    · exact .inl (Nat.lt_succ_self _)
    next clean =>
      have clean := eq_false_of_ne_true clean
      exact .inr ⟨⟨across, down⟩, rfl, pixel_of_clean across down clean⟩

end

theorem publish_tiled (tiled : old.Tiled) : (publish old w h cur).Tiled := by
  rcases publish_cases with resized | ⟨-, kept | changed⟩
  · rw [resized]
    exact resizedFrame_tiled
  · rw [kept]
    exact tiled
  · rw [changed]
    exact changedFrame_tiled tiled

theorem publish_published (tiled : old.Tiled) (w h : Nat) (cur : List Pixel) :
    Published old (publish old w h cur) := by
  rcases publish_cases with resized | ⟨-, kept | changed⟩
  · rw [resized]
    exact resizedFrame_published
  · rw [kept]
    exact Published.refl old
  · rw [changed]
    exact changedFrame_published tiled

end Iris.Vnc
