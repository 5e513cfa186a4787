/-!
# Rasters

A raster is a rectangle of samples from 0 to 255. It is flat, with one sample for each pixel and no
channel axis, or it has a number of channels. Samples are stored row by row, pixel by pixel,
channel by channel. Every operation builds its result with `generate` from a function of the
coordinates; the main statements, `get_generate` and `ext_get`, say that a raster is that function
on its rectangle.
-/

namespace Montage

/-- A rectangle of samples. -/
structure Raster where
  /-- The number of rows. -/
  height : Nat
  /-- The number of columns. -/
  width : Nat
  /-- The number of channels; a flat raster has no channel axis. -/
  channels : Option Nat
  /-- The samples, row by row. -/
  samples : Array UInt8
  /-- There is one sample for each channel of each pixel. -/
  size_samples : samples.size = height * width * channels.getD 1
  deriving DecidableEq

namespace Raster

/-- The number of samples of a pixel. -/
def depth (r : Raster) : Nat :=
  r.channels.getD 1

/-- The height, the width, and the number of channels where there is a channel axis. -/
def shape (r : Raster) : List Nat :=
  [r.height, r.width] ++ r.channels.toList

/-- The raster whose sample in row `y`, column `x` and channel `c` is `f y x c`. -/
def generate (height width : Nat) (channels : Option Nat) (f : Nat → Nat → Nat → UInt8) : Raster :=
  let depth := channels.getD 1
  ⟨height, width, channels,
    Array.ofFn fun (i : Fin (height * width * depth)) =>
      f (i / depth / width) (i / depth % width) (i % depth),
    Array.size_ofFn⟩

/-- The sample in row `y`, column `x` and channel `c`, zero outside the rectangle. -/
def get (r : Raster) (y x c : Nat) : UInt8 :=
  r.samples[(y * r.width + x) * r.depth + c]?.getD 0

/-- Two rasters have as many rows, columns and channels. -/
structure SameShape (r q : Raster) : Prop where
  /-- The heights are the same. -/
  height : q.height = r.height
  /-- The widths are the same. -/
  width : q.width = r.width
  /-- The channels are as many, on an axis of their own or not. -/
  channels : q.channels = r.channels

/-- Two rasters have the same samples in a channel. -/
def SameChannel (c : Nat) (r q : Raster) : Prop :=
  ∀ y < r.height, ∀ x < r.width, r.get y x c = q.get y x c

/-- The raster without rows. -/
def empty : Raster :=
  generate 0 0 none fun _ _ _ => 0

/-- The place of a sample is within the samples. -/
theorem index_lt {h w d y x c : Nat} (hy : y < h) (hx : x < w) (hc : c < d) :
    (y * w + x) * d + c < h * w * d := by
  have h1 : y * w + x + 1 ≤ h * w :=
    calc y * w + x + 1 ≤ y * w + w := by omega
      _ = (y + 1) * w := (Nat.succ_mul y w).symm
      _ ≤ h * w := Nat.mul_le_mul_right w hy
  calc (y * w + x) * d + c < (y * w + x) * d + d := by omega
    _ = (y * w + x + 1) * d := (Nat.succ_mul _ d).symm
    _ ≤ h * w * d := Nat.mul_le_mul_right d h1

/-- A generated raster has the samples it was generated from. -/
theorem get_generate {h w : Nat} {channels : Option Nat} {f : Nat → Nat → Nat → UInt8} {y x c : Nat}
    (hy : y < h) (hx : x < w) (hc : c < channels.getD 1) :
    (generate h w channels f).get y x c = f y x c := by
  have hi := index_lt hy hx hc
  have hw : 0 < w := by omega
  have hd : 0 < channels.getD 1 := by omega
  have e1 : ((y * w + x) * channels.getD 1 + c) / channels.getD 1 = y * w + x := by
    rw [Nat.mul_comm, Nat.mul_add_div hd, Nat.div_eq_of_lt hc, Nat.add_zero]
  have e2 : ((y * w + x) * channels.getD 1 + c) % channels.getD 1 = c := by
    rw [Nat.mul_comm, Nat.mul_add_mod, Nat.mod_eq_of_lt hc]
  have e3 : (y * w + x) / w = y := by
    rw [Nat.mul_comm, Nat.mul_add_div hw, Nat.div_eq_of_lt hx, Nat.add_zero]
  have e4 : (y * w + x) % w = x := by
    rw [Nat.mul_comm, Nat.mul_add_mod, Nat.mod_eq_of_lt hx]
  simp only [get, generate, depth, Array.getElem?_ofFn, hi, dif_pos, Option.getD_some, e1, e2, e3,
    e4]

/-- Rasters of one shape with the same samples are equal. -/
theorem ext_get {r q : Raster} (hh : r.height = q.height) (hw : r.width = q.width)
    (hc : r.channels = q.channels)
    (h : ∀ y < r.height, ∀ x < r.width, ∀ c < r.depth, r.get y x c = q.get y x c) : r = q := by
  obtain ⟨rh, rw', rc, rs, rsize⟩ := r
  obtain ⟨qh, qw, qc, qs, qsize⟩ := q
  simp only at hh hw hc
  subst hh hw hc
  congr 1
  refine Array.ext (by omega) fun i hi hi' => ?_
  have hi2 : i < rh * rw' * rc.getD 1 := by omega
  have hd : 0 < rc.getD 1 := Nat.pos_of_ne_zero fun h0 => by simp [h0] at hi2
  have hp : i / rc.getD 1 < rh * rw' := (Nat.div_lt_iff_lt_mul hd).2 hi2
  have hpos : 0 < rw' := Nat.pos_of_ne_zero fun h0 => by simp [h0] at hp
  have hrow : i / rc.getD 1 / rw' < rh := (Nat.div_lt_iff_lt_mul hpos).2 hp
  have hsame := h (i / rc.getD 1 / rw') hrow (i / rc.getD 1 % rw') (Nat.mod_lt _ hpos)
    (i % rc.getD 1) (Nat.mod_lt _ hd)
  have hplace :
      (i / rc.getD 1 / rw' * rw' + i / rc.getD 1 % rw') * rc.getD 1 + i % rc.getD 1 = i := by
    rw [Nat.div_add_mod', Nat.div_add_mod']
  simp only [get, depth, hplace, Array.getElem?_eq_getElem hi, Array.getElem?_eq_getElem hi',
    Option.getD_some] at hsame
  exact hsame

/-- Rasters that are generated alike in a channel have the same samples there. -/
theorem sameChannel_generate {h w c : Nat} {channels : Option Nat} {f g : Nat → Nat → Nat → UInt8}
    (hc : c < channels.getD 1) (heq : ∀ y < h, ∀ x < w, f y x c = g y x c) :
    SameChannel c (generate h w channels f) (generate h w channels g) := by
  intro y hy x hx
  have hy' : y < h := hy
  have hx' : x < w := hx
  rw [get_generate hy' hx' hc, get_generate hy' hx' hc]
  exact heq y hy x hx

/-- Rasters that are generated from the same samples are equal. -/
theorem generate_congr {h w : Nat} {channels : Option Nat} {f g : Nat → Nat → Nat → UInt8}
    (heq : ∀ y < h, ∀ x < w, ∀ c < channels.getD 1, f y x c = g y x c) :
    generate h w channels f = generate h w channels g := by
  refine ext_get rfl rfl rfl fun y hy x hx c hc => ?_
  have hf := get_generate (f := f) hy hx hc
  have hg := get_generate (f := g) hy hx hc
  exact hf.trans ((heq y hy x hx c hc).trans hg.symm)

end Raster

end Montage
