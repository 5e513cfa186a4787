import Montage.Imaging.Standard
import Montage.Picture.Encode
import Montage.Proofs.Raster.Compositing
import Montage.Settings

/-!
# What the allowed formats keep

The formats that a result may be written in are meant to keep every sample. What an image becomes in
a format is first told by equations for the steps of writing it (`encode_eq_ok_iff`); then each of
the three formats is looked up. `encode_kept` is the main statement: a name of another format is
refused, every image with pixels and colours is written, and what is written is a copy of the image
in all cases but one. A bitmap of an image with opacity has its colours only
(`encode_bitmap_opacity`).
-/

namespace Montage

variable {format : String} {mode : ImageFile.Mode} {r : Raster} {image : EncodedImage}

/-- An image file that reads back as the raster that was written. -/
structure EncodedImage.IsCopy (image : EncodedImage) (r : Raster) : Prop where
  /-- The samples mean what the shape of the raster says. -/
  mode : ImageFile.Mode.ofChannels? r.channels = some image.mode
  /-- The samples. -/
  raster : image.raster = r

/-- An image file that reads back as the colours of the raster that was written, without opacity. -/
structure EncodedImage.IsOpaqueCopy (image : EncodedImage) (r : Raster) : Prop where
  /-- The samples are colours. -/
  mode : image.mode = .rgb
  /-- The same rows. -/
  height : image.raster.height = r.height
  /-- The same columns. -/
  width : image.raster.width = r.width
  /-- Three channels are left. -/
  channels : image.raster.channels = some 3
  /-- The colours of each pixel. -/
  colours : ∀ y < r.height, ∀ x < r.width, ∀ c < 3, image.raster.get y x c = r.get y x c

/-! ## The steps of writing -/

section Library

variable [Imaging]

/-- A format takes the modes that it has. -/
theorem encodeAs_eq_ok_iff : encodeAs format mode r = .ok image ↔
    format ≠ "" ∧ ∃ codec, Imaging.codec? format = some codec ∧ mode ∈ codec.modes ∧
      image = codec.write mode r := by
  unfold encodeAs
  by_cases hname : format = ""
  · simp [hname]
  · cases hfound : Imaging.codec? format with
    | none => simp [hname]
    | some codec =>
      by_cases hmode : mode ∈ codec.modes
      · simp [hname, hmode, eq_comm]
      · simp [hname, hmode]

/-- An image is written if the format is allowed and takes it, and it has pixels. -/
theorem encode_eq_ok_iff {allowed : List String} {name : String} :
    r.encode allowed name = .ok image ↔
      Text.uppercase name ∈ allowed ∧ r.height ≠ 0 ∧ r.width ≠ 0 ∧
        ∃ mode, ImageFile.Mode.ofChannels? r.channels = some mode ∧
          encodeAs (Text.uppercase name) mode r = .ok image := by
  unfold Raster.encode
  by_cases hallowed : Text.uppercase name ∈ allowed
  · cases hmode : ImageFile.Mode.ofChannels? r.channels with
    | none => simp [hallowed]
    | some mode =>
      cases hencode : encodeAs (Text.uppercase name) mode r with
      | error fault => simp [hallowed, hencode]
      | ok written =>
        by_cases hempty : r.height = 0 ∨ r.width = 0
        · have hpixels : ¬ (r.height ≠ 0 ∧ r.width ≠ 0 ∧ written = image) :=
            fun h => hempty.elim h.1 h.2.1
          simp [hallowed, hempty, hencode, hpixels]
        · have hpixels := not_or.1 hempty
          simp [hallowed, hpixels, hencode]
  · simp [hallowed]

/-- A format that is not allowed is refused by its upper-case name. -/
theorem encode_of_not_mem {allowed : List String} {name : String}
    (h : Text.uppercase name ∉ allowed) :
    r.encode allowed name = .error (.notLossless (Text.uppercase name) allowed) := by
  simp [Raster.encode, h]

/-! ## The three formats -/

/-- What the allowed formats take, and whether opacity can be read from them. -/
theorem codec?_of_mem (h : format ∈ losslessFormats) : format ≠ "" ∧ ∃ codec,
    Imaging.codec? format = some codec ∧ codec.name = format ∧
      [.grey, .rgb, .rgba] ⊆ codec.modes ∧ (codec.keepsOpacity = false ↔ format = "BMP") := by
  obtain ⟨codec, hfound, hopacity, hmodes⟩ := Imaging.exists_codec? h
  have hne : format ≠ "" := by
    rintro rfl
    exact absurd h (by decide)
  refine ⟨hne, codec, hfound, Imaging.name_of_codec? hfound, fun mode hmode => ?_, hopacity⟩
  have hknown : mode ∈ [.grey, .greyAlpha, .rgb, .rgba] ∧ mode ≠ .greyAlpha := by
    revert mode
    decide
  exact (hmodes mode hknown.1).2 fun h => hknown.2 h.1

omit [Imaging] in
/-- A raster with colours has a mode that all formats have. -/
theorem exists_mode_of_supported (h : r.Supported) : ∃ mode ∈ [.grey, .rgb, .rgba],
    ImageFile.Mode.ofChannels? r.channels = some mode := by
  obtain h | h | h := h
  all_goals
    rw [h]
    exact ⟨_, by decide, rfl⟩

omit [Imaging] in
/-- Only rasters of four channels have opacity besides colours. -/
theorem channels_eq_of_rgba (h : ImageFile.Mode.ofChannels? r.channels = some mode) :
    mode = .rgba ↔ r.channels = some 4 := by
  unfold ImageFile.Mode.ofChannels? at h
  split at h <;> cases h
  all_goals
    rename_i hchannels
    simp [hchannels]

omit [Imaging] in
/-- An image that is written without loss of opacity. -/
theorem isCopy_write {codec : Codec} (hmode : ImageFile.Mode.ofChannels? r.channels = some mode)
    (h : ¬ (mode = .rgba ∧ codec.keepsOpacity = false)) : (codec.write mode r).IsCopy r := by
  rw [Codec.write, if_neg (by simpa using h)]
  exact ⟨hmode, rfl⟩

omit [Imaging] in
/-- An image that loses its opacity when it is written. -/
theorem isOpaqueCopy_write {codec : Codec} (h : codec.keepsOpacity = false) :
    (codec.write .rgba r).IsOpaqueCopy r := by
  rw [Codec.write, if_pos (by simpa using h)]
  exact ⟨rfl, rfl, rfl, rfl, fun y hy x hx c hc => Raster.get_generate hy hx hc⟩

/-- What becomes of a raster in the format of a name, in any case of its letters. A name whose
upper-case form is not allowed is refused. Every raster with pixels and colours is written in a
format that is allowed. A written file reads back as the raster, unless that is a bitmap and the
raster has opacity, which the bitmap has not. -/
theorem encode_kept (name : String) (r : Raster) :
    (Text.uppercase name ∉ losslessFormats → r.encode losslessFormats name =
      .error (.notLossless (Text.uppercase name) losslessFormats)) ∧
    (Text.uppercase name ∈ losslessFormats → r.Supported → r.height ≠ 0 → r.width ≠ 0 →
      ∃ image, r.encode losslessFormats name = .ok image ∧
        image.format = Text.uppercase name) ∧
    ∀ image, r.encode losslessFormats name = .ok image →
      if Text.uppercase name = "BMP" ∧ r.channels = some 4 then image.IsOpaqueCopy r
      else image.IsCopy r := by
  refine ⟨encode_of_not_mem, fun hallowed hsupported hheight hwidth => ?_, fun image himage => ?_⟩
  · obtain ⟨hne, codec, hfound, hname, hmodes, -⟩ := codec?_of_mem hallowed
    obtain ⟨mode, hmode, hchannels⟩ := exists_mode_of_supported hsupported
    have hwritten : encodeAs (Text.uppercase name) mode r = .ok (codec.write mode r) :=
      encodeAs_eq_ok_iff.2 ⟨hne, codec, hfound, hmodes hmode, rfl⟩
    refine ⟨codec.write mode r, encode_eq_ok_iff.2
      ⟨hallowed, hheight, hwidth, mode, hchannels, hwritten⟩, ?_⟩
    unfold Codec.write
    split <;> exact hname
  · -- The codec that has written it is the one that the format's entry tells about.
    obtain ⟨hallowed, -, -, mode, hmode, hencode⟩ := encode_eq_ok_iff.1 himage
    obtain ⟨-, codec, hfound, -, rfl⟩ := encodeAs_eq_ok_iff.1 hencode
    obtain ⟨-, codec', hfound', -, -, hopacity⟩ := codec?_of_mem hallowed
    obtain rfl : codec' = codec := Option.some.inj (hfound'.symm.trans hfound)
    split
    · rename_i hbitmap
      obtain rfl := (channels_eq_of_rgba hmode).2 hbitmap.2
      exact isOpaqueCopy_write (hopacity.2 hbitmap.1)
    · rename_i hother
      refine isCopy_write hmode fun h => hother ?_
      exact ⟨hopacity.1 h.2, (channels_eq_of_rgba hmode).1 h.1⟩

end Library

attribute [local instance] Imaging.standard

/-- Names in small letters: a picture of one pixel without opacity can be read back from a bitmap,
and is not written as a JPEG file. -/
theorem encode_kept_small :
    let r : Raster := ⟨1, 1, some 3, #[1, 2, 3], rfl⟩
    Text.uppercase "bmp" ∈ losslessFormats ∧ Text.uppercase "jpeg" ∉ losslessFormats ∧
      r.encode losslessFormats "jpeg" = .error (.notLossless "JPEG" losslessFormats) ∧
      ∃ image, r.encode losslessFormats "bmp" = .ok image ∧ image.raster = r ∧
        image.mode = .rgb := by
  intro r
  have hbmp : Text.uppercase "bmp" = "BMP" := by decide +kernel
  have hjpeg : Text.uppercase "jpeg" = "JPEG" := by decide +kernel
  have hallowed : Text.uppercase "bmp" ∈ losslessFormats := by
    rw [hbmp]
    decide
  have hother : Text.uppercase "jpeg" ∉ losslessFormats := by
    rw [hjpeg]
    decide
  have hrefused := (encode_kept "jpeg" r).1 hother
  obtain ⟨image, himage, -⟩ :=
    (encode_kept "bmp" r).2.1 hallowed (.inr (.inl rfl)) (by decide) (by decide)
  have hcopy := (encode_kept "bmp" r).2.2 image himage
  rw [if_neg (fun h => absurd h.2 (by decide))] at hcopy
  rw [hjpeg] at hrefused
  exact ⟨hallowed, hother, hrefused, image, himage, hcopy.raster,
    (Option.some.inj hcopy.mode).symm⟩

/-- A picture of one pixel with opacity, written as a bitmap: the file has three channels where the
picture has four. -/
theorem encode_bitmap_opacity :
    let r : Raster := ⟨1, 1, some 4, #[1, 2, 3, 4], rfl⟩
    r.Supported ∧ "BMP" ∈ losslessFormats ∧ ∃ image, r.encode losslessFormats "BMP" = .ok image ∧
      image.raster.shape = [1, 1, 3] ∧ image.raster.samples = #[1, 2, 3] ∧ image.raster ≠ r := by
  intro r
  have hname : Text.uppercase "BMP" = "BMP" := by decide +kernel
  have hallowed : Text.uppercase "BMP" ∈ losslessFormats := by
    rw [hname]
    decide
  have hwritten : encodeAs (Text.uppercase "BMP") .rgba r =
      .ok ⟨"BMP", .rgb, ImageFile.dropOpacity r⟩ := by
    rw [hname]
    rfl
  have hencode : r.encode losslessFormats "BMP" = .ok ⟨"BMP", .rgb, ImageFile.dropOpacity r⟩ :=
    encode_eq_ok_iff.2 ⟨hallowed, by decide, by decide, .rgba, rfl, hwritten⟩
  exact ⟨.inr (.inr rfl), by decide, _, hencode, rfl, by decide +kernel,
    fun h => absurd (congrArg Raster.channels h) (by decide)⟩

end Montage
