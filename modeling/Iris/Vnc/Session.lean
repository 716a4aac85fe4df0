import Iris.Vnc.Damage

/-!
Owns one viewer's session: its requests, what is sent next, the picture of a viewer that
applies every rectangle it is sent, and when a viewer left waiting shows the published frame.
-/

namespace Iris.Vnc

open Library

structure Request where
  incremental : Bool
  rect : Rect
deriving DecidableEq, Repr

def encDesktopSize : Int := -223

def encQemuExtKey : Int := -258

structure Client where
  desktopSize : Bool := false
  extKey : Bool := false
  extKeyAcked : Bool := false
  request : Option Request := none
  seenGen : Nat := 0
  sizeGen : Nat
deriving DecidableEq, Repr

/-- A placeholder size is a size change still to send. -/
def Client.new (f : Frame) : Client where
  sizeGen := if 0 < f.w then f.sizeGen else 2 ^ 64 - 1

def Client.setEncodings (c : Client) (desktopSize ext : Bool) : Client :=
  { c with
    desktopSize
    extKeyAcked := if ext && !c.extKey then false else c.extKeyAcked
    extKey := ext }

def clip (r : Rect) (f : Frame) : Option Rect :=
  let x1 := min (r.x + r.w) f.w
  let y1 := min (r.y + r.h) f.h
  if r.x < x1 ∧ r.y < y1 then some { x := r.x, y := r.y, w := x1 - r.x, h := y1 - r.y } else none

def full (f : Frame) : Rect := { x := 0, y := 0, w := f.w, h := f.h }

/-- The pseudo-rectangle that says extended keys are understood, once. -/
def Client.ackExtKey (c : Client) : List (Rect × Int) × Client :=
  if c.extKey && !c.extKeyAcked then
    ([({ x := 0, y := 0, w := 0, h := 0 }, encQemuExtKey)], { c with extKeyAcked := true })
  else ([], c)

def updateRects (f : Frame) (c : Client) (req : Request) : List Rect :=
  if c.sizeGen ≠ f.sizeGen then [full f]
  else if !req.incremental then (clip req.rect f).toList
  else if c.seenGen < f.gen then dirtyRects f c.seenGen req.rect
  else []

/-- What is sent: pseudo-rectangles with their encodings, and rectangles of pixels. -/
abbrev Update := List (Rect × Int) × List Rect

def cannotResize (f : Frame) : String :=
  "the screen is now " ++ toString f.w ++ "x" ++ toString f.h ++
    " and the viewer cannot resize: reconnect"

/-- What to send next, or nothing to keep waiting. A request nothing changed for stands. -/
def nextUpdate (f : Frame) (c : Client) : Except String (Option Update) × Client :=
  match c.request with
  | none => (.ok none, c)
  | some req =>
    if f.w = 0 then (.ok none, c)
    else
      let (pseudo, c) := c.ackExtKey
      if c.sizeGen ≠ f.sizeGen ∧ c.desktopSize = false then (.error (cannotResize f), c)
      else
        let pseudo :=
          if c.sizeGen ≠ f.sizeGen then pseudo ++ [(full f, encDesktopSize)] else pseudo
        let rects := updateRects f c req
        let seen := { c with seenGen := f.gen, sizeGen := f.sizeGen }
        if rects = [] ∧ pseudo = [] then (.ok none, seen)
        else (.ok (some (pseudo, rects)), { seen with request := none })

/-! ### The viewer -/

/-- What a viewer shows, where it has been told. -/
abbrev Picture := Nat → Nat → Option Pixel

/-- A change of size leaves nothing to show. -/
def resize (picture : Picture) (pseudo : Rect × Int) : Picture :=
  if pseudo.2 = encDesktopSize then fun _ _ => none else picture

def paint (f : Frame) (picture : Picture) (r : Rect) : Picture :=
  fun x y => if r.Contains x y then f.pixel x y else picture x y

def applyUpdate (f : Frame) (picture : Picture) (update : Update) : Picture :=
  update.2.foldl (paint f) (update.1.foldl resize picture)

/-! ### Runs -/

structure Composed where
  w : Nat
  h : Nat
  px : List Pixel
  whole : px.length = w * h

def publishAll (frames : List Composed) : Frame :=
  frames.foldl (fun f composed => publish f composed.w composed.h composed.px) {}

/-- `ended` is why the session was closed. -/
structure Session where
  frame : Frame
  client : Client
  picture : Picture
  ended : Option String := none

inductive Op
  | publish (composed : Composed)
  | encodings (desktopSize ext : Bool)
  | request (req : Request)
  /-- The sender looks whether there is anything to send. -/
  | poll

namespace Session

def connect (frame : Frame) : Session where
  frame := frame
  client := Client.new frame
  picture := fun _ _ => none

def poll (s : Session) : Session :=
  if s.ended.isSome then s
  else
    match nextUpdate s.frame s.client with
    | (.ok none, c) => { s with client := c }
    | (.ok (some update), c) =>
      { s with client := c, picture := applyUpdate s.frame s.picture update }
    | (.error why, c) => { s with client := c, ended := some why }

def step (s : Session) : Op → Session
  | .publish composed =>
    { s with frame := publish s.frame composed.w composed.h composed.px }
  | .encodings desktopSize ext => { s with client := s.client.setEncodings desktopSize ext }
  | .request req => { s with client := { s.client with request := some req } }
  | .poll => s.poll

/-- A request the sender looks at covers every pixel of the tiles changed since the viewer's
generation, unless the whole screen is sent anyway. -/
def Covering (s : Session) : Op → Prop
  | .poll => s.client.sizeGen = s.frame.sizeGen → ∀ req ∈ s.client.request,
      ∀ x < s.frame.w, ∀ y < s.frame.h, s.client.seenGen < s.frame.genAt x y →
        req.rect.Contains x y
  | _ => True

end Session

/-! ### What is sent -/

section
variable {f : Frame} {c : Client} {req : Request} {x y : Nat}

theorem contains_clip (r : Rect) :
    (∃ part ∈ clip r f, part.Contains x y) ↔ r.Contains x y ∧ x < f.w ∧ y < f.h := by
  simp only [clip, Rect.Contains, Option.mem_def]
  split
  · simp only [Option.some.injEq, exists_eq_left']
    omega
  · simp only [reduceCtorEq, false_and, exists_false, false_iff]
    omega

/-- The pixels sent: all of them after a change of size, otherwise those asked for, of an
incremental request only those of newer tiles. -/
theorem covers_updateRects (tiled : f.Tiled) (across : x < f.w) (down : y < f.h) :
    Rect.Covers (updateRects f c req) x y ↔ c.sizeGen ≠ f.sizeGen ∨
      req.rect.Contains x y ∧ (req.incremental = true → c.seenGen < f.genAt x y) := by
  rw [updateRects]
  split
  next resized =>
    exact iff_of_true ⟨full f, by simp, by simp [Rect.Contains, full, across, down]⟩ (.inl resized)
  next same =>
    rw [or_iff_right same]
    split
    next whole =>
      have all : req.incremental = false := by simpa using whole
      have clipped := @contains_clip f x y req.rect
      simp only [Rect.Covers, Option.mem_toList, all, reduceCtorEq, false_implies, and_true]
      simpa [across, down] using clipped
    next incremental =>
      have newer : req.incremental = true := by simpa using incremental
      simp only [newer, true_implies]
      split
      · rw [covers_dirtyRects tiled.across]
        tauto
      next seen =>
        refine iff_of_false Rect.covers_nil fun wanted => seen ?_
        exact Nat.lt_of_lt_of_le wanted.2 (tiled.genAt_le across down)

end

section
variable {f : Frame} {c : Client} {req : Request} {x y : Nat}

theorem ackExtKey_client : (c.ackExtKey.2.seenGen = c.seenGen ∧ c.ackExtKey.2.sizeGen = c.sizeGen) ∧
    c.ackExtKey.2.desktopSize = c.desktopSize := by
  rw [Client.ackExtKey]
  split <;> exact ⟨⟨rfl, rfl⟩, rfl⟩

theorem ackExtKey_resize (picture : Picture) : c.ackExtKey.1.foldl resize picture = picture := by
  rw [Client.ackExtKey]
  split <;> rfl

/-- A pixel that was right, or is in a rectangle, is right after the rectangles are applied. -/
theorem foldl_paint (right : picture x y = f.pixel x y ∨ Rect.Covers rects x y) :
    rects.foldl (paint f) picture x y = f.pixel x y := by
  induction rects generalizing picture with
  | nil => exact right.resolve_right Rect.covers_nil
  | cons r rest inductionHypothesis =>
    apply inductionHypothesis
    rw [paint, Rect.covers_cons] at *
    split
    · exact .inl rfl
    next outside => exact right.imp_right fun covered => covered.resolve_left outside

theorem updateRects_ackExtKey : updateRects f c.ackExtKey.2 req = updateRects f c req := by
  rw [updateRects, updateRects, ackExtKey_client.1.1, ackExtKey_client.1.2]

/-- What the sender can find: nothing asked for or no frame yet, a size it cannot tell the viewer
of, nothing to send for a request, or an update. In the last two the viewer has seen the frame. -/
inductive Next (f : Frame) (c : Client) : Except String (Option Update) × Client → Prop
  | idle (quiet : c.request = none ∨ f.w = 0) : Next f c (.ok none, c)
  | refused {c' : Client} (same : c'.seenGen = c.seenGen) : Next f c (.error (cannotResize f), c')
  | standing {c' : Client} {req : Request} (request : c.request = some req)
      (seen : c'.seenGen = f.gen) (nothing : updateRects f c req = []) : Next f c (.ok none, c')
  | sent {c' : Client} {req : Request} {pseudo : List (Rect × Int)}
      (request : c.request = some req) (seen : c'.seenGen = f.gen)
      (kept : c.sizeGen = f.sizeGen → ∀ picture : Picture, pseudo.foldl resize picture = picture) :
      Next f c (.ok (some (pseudo, updateRects f c req)), c')

theorem nextUpdate_next (f : Frame) (c : Client) : Next f c (nextUpdate f c) := by
  unfold nextUpdate
  split
  case h_1 quiet => exact .idle (.inl quiet)
  case h_2 req request =>
    split
    case isTrue quiet => exact .idle (.inr quiet)
    have client := @ackExtKey_client c
    have keys := @ackExtKey_resize c
    have rects := @updateRects_ackExtKey f c req
    generalize c.ackExtKey = acked at client keys rects
    obtain ⟨pseudo, c'⟩ := acked
    obtain ⟨⟨seen, size⟩, -⟩ := client
    simp only at seen size keys rects ⊢
    rw [rects, size]
    split
    · exact .refused seen
    generalize given : (if c.sizeGen ≠ f.sizeGen then pseudo ++ [(full f, encDesktopSize)]
      else pseudo) = all
    split
    next nothing => exact .standing request rfl nothing.1
    · refine .sent request rfl fun same picture => ?_
      rw [← given, if_neg (not_not_intro same)]
      exact keys picture

end

namespace Session
variable {s : Session}

/-- What the sender keeps and what it does: it leaves all as it is, or the viewer has seen the
frame and has been sent the rectangles due to a request. -/
theorem poll_cases (s : Session) : s.poll.frame = s.frame ∧
    (s.poll.picture = s.picture ∧ s.poll.client.seenGen = s.client.seenGen ∨
      ∃ req pseudo, s.client.request = some req ∧ s.poll.client.seenGen = s.frame.gen ∧
        s.poll.picture = applyUpdate s.frame s.picture
          (pseudo, updateRects s.frame s.client req) ∧
        (s.client.sizeGen = s.frame.sizeGen → pseudo.foldl resize s.picture = s.picture)) := by
  rw [poll]
  split
  · exact ⟨rfl, .inl ⟨rfl, rfl⟩⟩
  have next := nextUpdate_next s.frame s.client
  generalize nextUpdate s.frame s.client = result at next
  cases next with
  | idle quiet => exact ⟨rfl, .inl ⟨rfl, rfl⟩⟩
  | refused same => exact ⟨rfl, .inl ⟨rfl, same⟩⟩
  | standing request seen nothing =>
    refine ⟨rfl, .inr ⟨_, [], request, seen, ?_, fun _ => rfl⟩⟩
    rw [nothing]
    rfl
  | sent request seen kept =>
    exact ⟨rfl, .inr ⟨_, _, request, seen, rfl, fun same => kept same s.picture⟩⟩

/-- The viewer shows the frame in every tile that is no newer than what it has seen. -/
structure Current (s : Session) : Prop where
  tiled : s.frame.Tiled
  seen : s.client.seenGen ≤ s.frame.gen
  shown : ∀ x < s.frame.w, ∀ y < s.frame.h, s.frame.genAt x y ≤ s.client.seenGen →
    s.picture x y = s.frame.pixel x y

theorem publishAll_tiled : (publishAll frames).Tiled := by
  refine List.foldlRecOn frames _ Frame.empty_tiled fun f tiled composed _ => ?_
  exact publish_tiled tiled

theorem connect_current (tiled : f.Tiled) : (connect f).Current where
  tiled := tiled
  seen := Nat.zero_le _
  shown _ across _ down old := absurd (tiled.genAt_pos across down) (Nat.not_lt_of_le old)

section
variable (current : s.Current)
include current

theorem publish_current : (s.step (.publish composed)).Current := by
  have published := publish_published current.tiled composed.w composed.h composed.px
  have seen := current.seen
  refine ⟨publish_tiled current.tiled, Nat.le_trans seen published.later,
    fun x across y down old => ?_⟩
  rcases published.each x across y down with newer | ⟨⟨across, down⟩, gen, pixel⟩
  · exact absurd (Nat.lt_of_lt_of_le newer old) (Nat.not_lt_of_le seen)
  · refine (current.shown x across y down ?_).trans pixel.symm
    exact gen ▸ old

/-- After a request that covers what has changed, the viewer shows the whole frame. -/
theorem applyUpdate_shows (covering : s.Covering .poll) (request : s.client.request = some req)
    (kept : s.client.sizeGen = s.frame.sizeGen → pseudo.foldl resize s.picture = s.picture)
    (across : x < s.frame.w) (down : y < s.frame.h) :
    applyUpdate s.frame s.picture (pseudo, updateRects s.frame s.client req) x y =
      s.frame.pixel x y := by
  apply foldl_paint
  rw [covers_updateRects current.tiled across down]
  by_cases same : s.client.sizeGen = s.frame.sizeGen
  · rw [kept same]
    by_cases old : s.frame.genAt x y ≤ s.client.seenGen
    · exact .inl (current.shown x across y down old)
    · have newer := not_le.mp old
      exact .inr (.inr ⟨covering same req request x across y down newer, fun _ => newer⟩)
  · exact .inr (.inl same)

theorem poll_current (covering : s.Covering .poll) : (s.step .poll).Current := by
  obtain ⟨frame, idle | ⟨req, pseudo, request, seen, picture, kept⟩⟩ := poll_cases s
  · refine ⟨?_, ?_, ?_⟩
    · exact frame ▸ current.tiled
    · rw [step, frame, idle.2]
      exact current.seen
    · rw [step, frame, idle.1, idle.2]
      exact current.shown
  · refine ⟨?_, ?_, ?_⟩
    · exact frame ▸ current.tiled
    · rw [step, frame, seen]
    · rw [step, frame, picture]
      intro x across y down _
      exact applyUpdate_shows current covering request kept across down

theorem step_current (covering : s.Covering op) : (s.step op).Current := by
  cases op with
  | publish composed => exact publish_current current
  | encodings desktopSize ext | request req => exact { current with }
  | poll => exact poll_current current covering

theorem Current.of_unanswered (request : s.client.request = some req)
    (whole : ∀ x < s.frame.w, ∀ y < s.frame.h, req.rect.Contains x y)
    (unanswered : (nextUpdate s.frame s.client).1 = .ok none) (across : x < s.frame.w)
    (down : y < s.frame.h) : s.picture x y = s.frame.pixel x y := by
  have next := nextUpdate_next s.frame s.client
  generalize nextUpdate s.frame s.client = result at next unanswered
  cases next with
  | idle quiet =>
    rcases quiet with none | empty
    · exact absurd (request.symm.trans none) (by simp)
    · exact absurd (empty ▸ across) (Nat.not_lt_zero x)
  | refused same => cases unanswered
  | standing asked seen nothing =>
    cases request.symm.trans asked
    have uncovered := (covers_updateRects current.tiled across down).not.mp
      (nothing ▸ Rect.covers_nil)
    apply current.shown x across y down
    apply Nat.le_of_not_lt
    intro newer
    exact uncovered (.inr ⟨whole x across y down, fun _ => newer⟩)
  | sent asked seen kept => cases unanswered

end

/-- In every run whose requests, when the sender looks at them, cover what has changed: a viewer
whose incremental request for the whole screen is left unanswered shows the published frame. -/
theorem unanswered_shows_frame (before : List Composed) (ops : List Op)
    (covering : Run.Along step Covering (connect (publishAll before)) ops) (req : Request) :
    let s := ops.foldl step (connect (publishAll before))
    s.client.request = some req → req.incremental = true →
      (∀ x < s.frame.w, ∀ y < s.frame.h, req.rect.Contains x y) →
      (nextUpdate s.frame s.client).1 = .ok none →
      ∀ x < s.frame.w, ∀ y < s.frame.h, s.picture x y = s.frame.pixel x y := by
  intro s request _ whole unanswered x across y down
  have current : s.Current := covering.keeps (fun _ _ current holds => step_current current holds)
    (connect_current publishAll_tiled)
  exact current.of_unanswered request whole unanswered across down

instance (s : Session) : (op : Op) → Decidable (s.Covering op)
  | .poll => inferInstanceAs (Decidable (_ → _))
  | .publish _ => isTrue trivial
  | .encodings _ _ => isTrue trivial
  | .request _ => isTrue trivial

/-- Two tiles side by side: black, with one pixel of the second in a colour. -/
def twoTiles (colour : Pixel) : Composed where
  w := 128
  h := 1
  px := (List.replicate 128 0).set 100 colour
  whole := by simp

def wholeScreen : Rect := { x := 0, y := 0, w := 128, h := 1 }

/-- A viewer with the whole first frame, then a second frame, a request for part of the screen,
and an incremental request for all of it. -/
def asksForPart (incremental : Bool) (part : Rect) : List Op :=
  [.request { incremental := false, rect := wholeScreen }, .poll, .publish (twoTiles 1),
    .request { incremental, rect := part }, .poll,
    .request { incremental := true, rect := wholeScreen }]

/-- The part holds the tile that changed. -/
theorem changedPart_shows_frame :
    let s := (asksForPart true { x := 64, y := 0, w := 64, h := 1 }).foldl step
      (connect (publishAll [twoTiles 0]))
    (nextUpdate s.frame s.client).1 = .ok none ∧
      ∀ x < s.frame.w, ∀ y < s.frame.h, s.picture x y = s.frame.pixel x y := by
  have unanswered : (nextUpdate
      ((asksForPart true { x := 64, y := 0, w := 64, h := 1 }).foldl step
        (connect (publishAll [twoTiles 0]))).frame
      ((asksForPart true { x := 64, y := 0, w := 64, h := 1 }).foldl step
        (connect (publishAll [twoTiles 0]))).client).1 = .ok none := by decide +kernel
  refine ⟨unanswered, ?_⟩
  exact unanswered_shows_frame [twoTiles 0] _ (by decide +kernel)
    { incremental := true, rect := wholeScreen } (by decide +kernel) rfl (by decide +kernel)
    unanswered

/-- In every such run, a viewer that has seen the frame's generation shows the frame. -/
theorem seen_shows_frame (before : List Composed) (ops : List Op)
    (covering : Run.Along step Covering (connect (publishAll before)) ops) :
    let s := ops.foldl step (connect (publishAll before))
    s.client.seenGen = s.frame.gen →
      ∀ x < s.frame.w, ∀ y < s.frame.h, s.picture x y = s.frame.pixel x y := by
  intro s seen x across y down
  have current : s.Current := covering.keeps (fun _ _ current holds => step_current current holds)
    (connect_current publishAll_tiled)
  exact current.shown x across y down (seen ▸ current.tiled.genAt_le across down)

theorem seen_shows_second :
    let s := (asksForPart true wholeScreen).foldl step (connect (publishAll [twoTiles 0]))
    ∀ x < s.frame.w, ∀ y < s.frame.h, s.picture x y = s.frame.pixel x y :=
  seen_shows_frame [twoTiles 0] _ (by decide +kernel) (by decide +kernel)

/-- The part holds the other tile. The viewer is left waiting with the old pixel, whether it
asked for changes or for all of the part. -/
theorem otherPart_keeps_pixel :
    let s incremental := (asksForPart incremental { x := 0, y := 0, w := 64, h := 1 }).foldl step
      (connect (publishAll [twoTiles 0]))
    (∀ b, (s b).client.request = some { incremental := true, rect := wholeScreen } ∧
      (nextUpdate (s b).frame (s b).client).1 = .ok none) ∧
      ∀ b, (s b).picture 100 0 = some 0 ∧ (s b).frame.pixel 100 0 = some 1 := by
  decide +kernel

end Session

end Iris.Vnc
