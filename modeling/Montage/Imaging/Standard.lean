import Montage.Imaging
import Montage.Picture.Pixmap

/-!
# A library for rasters

The operations of `Imaging` in floating-point numbers: bilinear interpolation, a filter with the
weights of a bell curve, and the usual conversions of colours. Each result is rounded once, to the
nearest sample. `Imaging.standard` puts them together; it knows the formats without loss and no
others, and writes every image as a pixmap.
-/

namespace Montage

namespace Raster

/-- The whole number from 0 to 255 nearest to a number, the even one of two. -/
def toSample (v : Float) : UInt8 :=
  let below := v.floor
  let rest := v - below
  let whole := below.toUInt64.toNat
  let rounded :=
    if rest < 0.5 then whole
    else if 0.5 < rest then whole + 1
    else whole + whole % 2
  if v ≤ 0 then 0 else UInt8.ofNat (min rounded 255)

/-! ## Interpolation -/

/-- Where the place `i` of a target axis lies on the source axis. The corners of the source go to
the corners of the target, and all places between are spread evenly. -/
def sourcePlace (source target i : Nat) : Float :=
  let step := if target ≤ 1 then 1 else (source - 1).toFloat / (target - 1).toFloat
  let place := i.toFloat * step
  let last := (source - 1).toFloat
  if last < place then last else place

/-- The number of the sample at or before a place, and the weights of that sample and the next
one. -/
def neighbours (place : Float) : Nat × Float × Float :=
  let before := place.floor
  let near := 1 - (place - before)
  (before.toUInt64.toNat, near, 1 - near)

/-- The raster interpolated between the four samples around each place. -/
def interpolate (r : Raster) (height width : Nat) : Raster :=
  generate height width r.channels fun y x c =>
    let (row, upper, lower) := neighbours (sourcePlace r.height height y)
    let (column, left, right) := neighbours (sourcePlace r.width width x)
    let sample (dy dx : Nat) : Float :=
      (r.get (min (row + dy) (r.height - 1)) (min (column + dx) (r.width - 1)) c).toNat.toFloat
    toSample (sample 0 0 * upper * left + sample 0 1 * upper * right + sample 1 0 * lower * left +
      sample 1 1 * lower * right)

theorem sameChannel_interpolate {r q : Raster} {c : Nat} (hshape : r.SameShape q)
    (hheight : 0 < r.height) (hwidth : 0 < r.width) (hc : c < r.depth) (h : r.SameChannel c q)
    (height width : Nat) :
    (r.interpolate height width).SameChannel c (q.interpolate height width) := by
  unfold interpolate
  rw [hshape.height, hshape.width, hshape.channels]
  have hsample (row column : Nat) :
      r.get (min row (r.height - 1)) (min column (r.width - 1)) c =
        q.get (min row (r.height - 1)) (min column (r.width - 1)) c :=
    h _ (by omega) _ (by omega)
  refine sameChannel_generate hc fun y _ x _ => ?_
  simp only [hsample]

/-! ## Filters -/

/-- The place in a row of `n` samples that stands for any place, the row being mirrored at both
ends. -/
def mirrored (n : Nat) (i : Int) : Nat :=
  if n ≤ 1 then 0
  else
    let period : Int := 2 * n - 2
    let place := (i % period).toNat
    if place < n then place else 2 * n - 2 - place

/-- The weights of the places from the middle out to a radius; both sides are alike. The weights of
all places together make one. -/
def weights (sigma : Float) (radius : Nat) : Array Float :=
  let width := -0.5 / (sigma * sigma)
  let curve := Array.ofFn fun (k : Fin (radius + 1)) =>
    Float.exp (width * (k.val.toFloat * k.val.toFloat))
  let sides := (curve.toList.drop 1).foldl (fun total w => total + (w + w)) 0
  let sum := sides + curve[0]?.getD 1
  curve.map (· / sum)

/-- The weighted mean around a place of a row of `n` samples. -/
def mean (weights : Array Float) (n : Nat) (row : Nat → Float) (i : Nat) : Float :=
  let radius := weights.size - 1
  let middle := row i * weights[0]?.getD 1
  (List.range radius).foldl
    (fun total j =>
      let k := radius - j
      let pair := row (mirrored n (i - k)) + row (mirrored n (i + k))
      total + pair * weights[k]?.getD 0)
    middle

/-- A plane of numbers blurred down its columns. -/
def blurColumns (weights : Array Float) (height width : Nat) (plane : Array Float) : Array Float :=
  Array.ofFn fun (i : Fin (height * width)) =>
    mean weights height (fun y => plane[y * width + i % width]?.getD 0) (i / width)

/-- A plane of numbers blurred along its rows. -/
def blurRows (weights : Array Float) (height width : Nat) (plane : Array Float) : Array Float :=
  Array.ofFn fun (i : Fin (height * width)) =>
    mean weights width (fun x => plane[i / width * width + x]?.getD 0) (i % width)

/-- The samples of one channel as a plane of numbers. -/
def plane (r : Raster) (c : Nat) : Array Float :=
  Array.ofFn fun (i : Fin (r.height * r.width)) =>
    (r.get (i / r.width) (i % r.width) c).toNat.toFloat

/-- The raster blurred with weights for both axes, first down the columns and then along the
rows. -/
def blurWith (down across : Array Float) (r : Raster) : Raster :=
  let planes := Array.ofFn fun (c : Fin r.depth) =>
    blurRows across r.height r.width (blurColumns down r.height r.width (r.plane c))
  generate r.height r.width r.channels fun y x c =>
    toSample ((planes[c]?.getD #[])[y * r.width + x]?.getD 0)

/-- The widths below which a blur leaves all samples as they are. -/
def tiniestSigma : Binary64 :=
  .ofRatio false 1 1000000000000000

/-- The raster blurred with a bell curve out to a radius for each axis. -/
def gaussian (sigma : Binary64) (down across : Nat) (r : Raster) : Raster :=
  if tiniestSigma.less sigma then
    blurWith (weights sigma.toFloat down) (weights sigma.toFloat across) r
  else r

theorem sameShape_gaussian (sigma : Binary64) (down across : Nat) (r : Raster) :
    r.SameShape (gaussian sigma down across r) := by
  unfold gaussian
  split <;> exact ⟨rfl, rfl, rfl⟩

/-- A channel that is the same is the same plane of numbers. -/
theorem plane_eq {r q : Raster} {c : Nat} (hshape : r.SameShape q) (h : r.SameChannel c q) :
    q.plane c = r.plane c := by
  unfold plane
  refine Array.ext (by simp [hshape.height, hshape.width]) fun i hi hi' => ?_
  have hplace : i < r.height * r.width := by simpa using hi'
  have hwidth : 0 < r.width := Nat.pos_of_ne_zero fun hzero => by simp [hzero] at hplace
  have hrow : i / r.width < r.height := (Nat.div_lt_iff_lt_mul hwidth).2 hplace
  have hsample := h _ hrow _ (Nat.mod_lt i hwidth)
  simp only [Array.getElem_ofFn, hshape.width, hsample]

theorem sameChannel_gaussian {r q : Raster} {c : Nat} (hshape : r.SameShape q) (hc : c < r.depth)
    (h : r.SameChannel c q) (sigma : Binary64) (down across : Nat) :
    (gaussian sigma down across r).SameChannel c (gaussian sigma down across q) := by
  unfold gaussian
  split
  · have hdepth : q.depth = r.depth := congrArg (·.getD 1) hshape.channels
    have hc' : c < q.depth := hdepth ▸ hc
    unfold blurWith
    rw [hshape.height, hshape.width, hshape.channels]
    refine sameChannel_generate hc fun y _ x _ => ?_
    simp only [Array.getElem?_ofFn, hc, hc', dif_pos, Option.getD_some, plane_eq hshape h]
  · exact h

/-! ## Colours -/

/-- The brightness of a pixel, in which green counts most and blue least. -/
def brightness (red green blue : UInt8) : UInt8 :=
  UInt8.ofNat
    ((19595 * red.toNat + 38470 * green.toNat + 7471 * blue.toNat + 32768) / 65536)

/-- A sample of a pixel in other colours. A new opacity is full. -/
def convertSample (source target : Colours) (pixel : Nat → UInt8) (c : Nat) : UInt8 :=
  match source, target with
  | .grey, .grey => pixel 0
  | .grey, _ => if c = 3 then 255 else pixel 0
  | .rgb, .rgba => if c = 3 then 255 else pixel c
  | .rgb, .grey => brightness (pixel 0) (pixel 1) (pixel 2)
  | .rgba, .grey => brightness (pixel 0) (pixel 1) (pixel 2)
  | _, _ => pixel c

theorem convertSample_self (colours : Colours) (pixel : Nat → UInt8) {c : Nat}
    (hc : c < colours.channels.getD 1) : convertSample colours colours pixel c = pixel c := by
  cases colours with
  | grey =>
    obtain rfl : c = 0 := Nat.lt_one_iff.1 hc
    rfl
  | rgb | rgba => rfl

end Raster

/-! ## Formats -/

namespace Codec

/-- The formats without loss. -/
def lossless : List Codec :=
  [{ name := "PNG", modes := [.grey, .greyAlpha, .rgb, .rgba], refusal := unwritable "PNG" },
   { name := "TIFF", modes := [.grey, .greyAlpha, .rgb, .rgba], refusal := unwritable "TIFF" },
   { name := "BMP", modes := [.grey, .rgb, .rgba], refusal := unwritable "BMP",
     keepsOpacity := false }]
where
  /-- The words for a mode that a format does not have. -/
  unwritable (format : String) (mode : ImageFile.Mode) : String :=
    "cannot write mode " ++ mode.name ++ " as " ++ format

/-- The format without loss that has a name. -/
def lossless? (name : String) : Option Codec :=
  lossless.find? (·.name == name)

theorem name_of_lossless? {name : String} {codec : Codec} (h : lossless? name = some codec) :
    codec.name = name := by
  unfold lossless? at h
  have hname := List.find?_some h
  exact beq_iff_eq.1 hname

theorem exists_lossless? {name : String} (h : name ∈ ["PNG", "TIFF", "BMP"]) : ∃ codec,
    lossless? name = some codec ∧ (codec.keepsOpacity = false ↔ name = "BMP") ∧
      ∀ mode ∈ [.grey, .greyAlpha, .rgb, .rgba],
        mode ∈ codec.modes ↔ ¬ (mode = .greyAlpha ∧ name = "BMP") := by
  simp only [List.mem_cons, List.not_mem_nil, or_false] at h
  obtain rfl | rfl | rfl := h
  all_goals exact ⟨_, rfl, by decide, by decide⟩

end Codec

/-- The library for rasters. -/
@[reducible]
def Imaging.standard : Imaging where
  resample := Raster.interpolate
  height_resample _ _ _ := rfl
  width_resample _ _ _ := rfl
  channels_resample _ _ _ := rfl
  sameChannel_resample := Raster.sameChannel_interpolate
  gaussian := Raster.gaussian
  sameShape_gaussian := Raster.sameShape_gaussian
  sameChannel_gaussian := Raster.sameChannel_gaussian
  convertSample := Raster.convertSample
  convertSample_self := Raster.convertSample_self
  codec? := Codec.lossless?
  name_of_codec? := Codec.name_of_lossless?
  exists_codec? := Codec.exists_lossless?
  bytes image := (Pixmap.write image.raster).data.toList

end Montage
