import Identicon.Plane
import Identicon.Proofs.Channels
import Identicon.Proofs.Filling

/-!
# Merging planes

The image of three planes holds their bytes next to each other: of the three bytes at `3 * i`, the
one in the place of a channel is byte `i` of the plane of that channel. Planes of the same size
merge into an image of that size.

Zipping cuts its lists to the length of the shortest, so that bytes would be lost without notice if
planes of one size could have different numbers of them. Planes that have as many bytes as pixels
(`Plane.IsFull`) are read back from the image (`Image.plane`), whatever their size.
-/

namespace Identicon

variable {α β : Type}

/-- A list made of blocks of the same length is indexed block by block. -/
theorem getElem?_flatMap_of_length {f : α → List β} {n : ℕ} (hf : ∀ a, (f a).length = n)
    (l : List α) (i : ℕ) {k : ℕ} (hk : k < n) :
    (l.flatMap f)[n * i + k]? = l[i]?.bind fun a => (f a)[k]? := by
  induction l generalizing i with
  | nil => rfl
  | cons a l ih =>
    rw [List.flatMap_cons]
    cases i with
    | zero =>
      rw [Nat.mul_zero, Nat.zero_add, List.getElem?_append_left (by rw [hf]; exact hk)]
      rfl
    | succ i =>
      have hplace : n * (i + 1) + k - n = n * i + k := by rw [Nat.mul_succ]; omega
      rw [List.getElem?_append_right (by rw [hf, Nat.mul_succ]; omega), hf, hplace, ih]
      rfl

theorem length_flatMap_of_length {f : α → List β} {n : ℕ} (hf : ∀ a, (f a).length = n)
    (l : List α) : (l.flatMap f).length = n * l.length := by
  rw [List.length_flatMap, List.map_congr_left fun a _ => hf a, List.map_const', List.sum_replicate,
    smul_eq_mul, Nat.mul_comm]

/-- The bytes of an image, pixel by pixel. -/
def mergedBytes (planes : Channels Plane) : Array UInt8 :=
  ((planes.red.bytes.zip planes.green.bytes).zip planes.blue.bytes).flatMap
    fun ((r, g), b) => #[r, g, b]

/-- The bytes of a pixel. -/
def pixelBytes (p : (UInt8 × UInt8) × UInt8) : List UInt8 :=
  [p.1.1, p.1.2, p.2]

theorem length_pixelBytes (p : (UInt8 × UInt8) × UInt8) : (pixelBytes p).length = 3 := rfl

theorem toList_mergedBytes (planes : Channels Plane) :
    (mergedBytes planes).toList =
      ((planes.red.bytes.toList.zip planes.green.bytes.toList).zip planes.blue.bytes.toList).flatMap
        pixelBytes := by
  rw [mergedBytes, Array.toList_flatMap, Array.toList_zip, Array.toList_zip]
  rfl

/-- Three planes of the same size, with exactly as many bytes as pixels. -/
structure Mergeable (planes : Channels Plane) (width height : ℕ) : Prop where
  width_eq : ∀ c, (planes.get c).width = width
  height_eq : ∀ c, (planes.get c).height = height
  size_eq : ∀ c, (planes.get c).bytes.size = width * height

/-- Three squares of the same size can be merged, whatever their bytes. -/
theorem mergeable_of_squareOf {planes : Channels Plane} {side : ℕ}
    {byte : Channel → ℕ → ℕ → UInt8}
    (h : ∀ c, planes.get c = ⟨side, side, squareOf side (byte c)⟩) :
    Mergeable planes side side := by
  refine ⟨?_, ?_, ?_⟩
  · intro c
    rw [h]
  · intro c
    rw [h]
  · intro c
    rw [h, size_squareOf]

namespace Mergeable

variable {planes : Channels Plane} {width height : ℕ}

theorem size_mergedBytes (h : Mergeable planes width height) :
    (mergedBytes planes).size = 3 * (width * height) := by
  have hr : planes.red.bytes.size = width * height := h.size_eq .red
  have hg : planes.green.bytes.size = width * height := h.size_eq .green
  have hb : planes.blue.bytes.size = width * height := h.size_eq .blue
  rw [← Array.length_toList, toList_mergedBytes, length_flatMap_of_length length_pixelBytes,
    List.length_zip, List.length_zip, Array.length_toList, Array.length_toList,
    Array.length_toList, hr, hg, hb, min_self, min_self]

theorem exists_getElem?_eq_some (h : Mergeable planes width height) {i : ℕ} (hi : i < width * height)
    (c : Channel) : ∃ b, (planes.get c).bytes[i]? = some b := by
  rw [← h.size_eq c] at hi
  exact ⟨_, Array.getElem?_eq_getElem hi⟩

/-- The byte of a pixel in the place of a channel is the byte of the plane of that channel. -/
theorem getElem?_mergedBytes (h : Mergeable planes width height) {i : ℕ} (hi : i < width * height)
    (c : Channel) : (mergedBytes planes)[3 * i + c.index]? = (planes.get c).bytes[i]? := by
  obtain ⟨r, hr⟩ := h.exists_getElem?_eq_some hi .red
  obtain ⟨g, hg⟩ := h.exists_getElem?_eq_some hi .green
  obtain ⟨b, hb⟩ := h.exists_getElem?_eq_some hi .blue
  have hplace : c.index < 3 := by cases c <;> decide
  -- the planes are equally long, so that zipping them cuts nothing off
  have hzip : ((planes.red.bytes.toList.zip planes.green.bytes.toList).zip
      planes.blue.bytes.toList)[i]? = some ((r, g), b) := by
    rw [List.getElem?_zip_eq_some, List.getElem?_zip_eq_some]
    simp only [Array.getElem?_toList]
    exact ⟨⟨hr, hg⟩, hb⟩
  rw [← Array.getElem?_toList, toList_mergedBytes,
    getElem?_flatMap_of_length length_pixelBytes _ i hplace, hzip, Option.bind_some]
  cases c with
  | red => exact hr.symm
  | green => exact hg.symm
  | blue => exact hb.symm

/-- A byte of a plane stands in the image. -/
theorem getElem?_mergedBytes_of_eq_some (h : Mergeable planes width height) {i : ℕ} {c : Channel}
    {b : UInt8} (hb : (planes.get c).bytes[i]? = some b) :
    (mergedBytes planes)[3 * i + c.index]? = some b := by
  have hi : i < width * height := by
    rw [← h.size_eq c]
    exact (Array.getElem?_eq_some_iff.mp hb).1
  rw [h.getElem?_mergedBytes hi, hb]

/-- Planes of the same size merge. -/
theorem mergePlanes_eq (h : Mergeable planes width height) :
    mergePlanes planes = .ok ⟨width, height, mergedBytes planes⟩ := by
  have hwr : planes.red.width = width := h.width_eq .red
  have hwg : planes.green.width = width := h.width_eq .green
  have hwb : planes.blue.width = width := h.width_eq .blue
  have hhr : planes.red.height = height := h.height_eq .red
  have hhg : planes.green.height = height := h.height_eq .green
  have hhb : planes.blue.height = height := h.height_eq .blue
  have himage : Image.ofBytes? width height (mergedBytes planes) =
      some ⟨width, height, mergedBytes planes⟩ := if_pos h.size_mergedBytes.ge
  unfold mergePlanes
  rw [hwr, hwg, hwb, hhr, hhg, hhb]
  simp only [ne_eq, not_true_eq_false, or_self, if_false]
  rw [mergedBytes] at himage
  rw [himage, mergedBytes]

/-- Each pixel has a byte in each plane. -/
theorem place_lt (h : Mergeable planes width height) {px py : ℕ} (hpx : px < width)
    (hpy : py < height) (c : Channel) : py * width + px < (planes.get c).bytes.size := by
  rw [h.size_eq, Nat.mul_comm width]
  exact row_mul_add_lt hpy hpx

end Mergeable

/-! ## Reading the planes back -/

/-- As many bytes as pixels. -/
def Plane.IsFull (p : Plane) : Prop :=
  p.bytes.size = p.width * p.height

/-- The planes have the same width and the same height. -/
def SameSize (planes : Channels Plane) : Prop :=
  ∀ c, (planes.get c).width = planes.red.width ∧ (planes.get c).height = planes.red.height

/-- The plane of a channel in an image. -/
def Image.plane (image : Image) (c : Channel) : Plane where
  width := image.width
  height := image.height
  bytes := (Array.range (image.width * image.height)).map fun i =>
    image.bytes.getD (3 * i + c.index) 0

/-- The plane that an image was merged from is read back. -/
theorem Mergeable.plane_merged {planes : Channels Plane} {width height : ℕ}
    (h : Mergeable planes width height) (c : Channel) :
    (⟨width, height, mergedBytes planes⟩ : Image).plane c = planes.get c := by
  have hbytes : ((Array.range (width * height)).map fun i =>
      (mergedBytes planes).getD (3 * i + c.index) 0) = (planes.get c).bytes := by
    apply Array.ext_getElem?
    intro i
    rw [Array.getElem?_map, Array.getElem?_range]
    split_ifs with hi
    · obtain ⟨b, hb⟩ := h.exists_getElem?_eq_some hi c
      rw [Option.map_some, Array.getD_eq_getD_getElem?, h.getElem?_mergedBytes hi, hb,
        Option.getD_some]
    · rw [Option.map_none, Array.getElem?_eq_none (by rw [h.size_eq]; omega)]
  rw [Image.plane, hbytes, ← h.width_eq c, ← h.height_eq c]

section Full

variable {planes planes' : Channels Plane}

theorem SameSize.mergeable (h : SameSize planes) (hfull : ∀ c, (planes.get c).IsFull) :
    Mergeable planes planes.red.width planes.red.height where
  width_eq c := (h c).1
  height_eq c := (h c).2
  size_eq c := by rw [hfull c, (h c).1, (h c).2]

/-- Nothing but the size of the planes is checked before they are merged. -/
theorem mergePlanes_of_not_sameSize (h : ¬ SameSize planes) :
    mergePlanes planes = .error .planesDiffer := by
  unfold mergePlanes
  rw [if_pos]
  contrapose! h
  obtain ⟨hgreen, hblue⟩ := h
  intro c
  cases c with
  | red => exact ⟨rfl, rfl⟩
  | green => exact Prod.mk.inj hgreen
  | blue => exact Prod.mk.inj hblue

/-- Full planes merge if they have the same size, and otherwise they are refused for that reason. -/
theorem mergePlanes_cases (hfull : ∀ c, (planes.get c).IsFull) :
    (SameSize planes ∧
      mergePlanes planes = .ok ⟨planes.red.width, planes.red.height, mergedBytes planes⟩) ∨
    (¬ SameSize planes ∧ mergePlanes planes = .error .planesDiffer) := by
  by_cases h : SameSize planes
  · exact .inl ⟨h, (h.mergeable hfull).mergePlanes_eq⟩
  · exact .inr ⟨h, mergePlanes_of_not_sameSize h⟩

/-- If full planes merge at all, they have the same size and become the image made by zipping. -/
theorem mergeable_of_mergePlanes_eq_ok (hfull : ∀ c, (planes.get c).IsFull) {image : Image}
    (h : mergePlanes planes = .ok image) :
    Mergeable planes planes.red.width planes.red.height ∧
      image = ⟨planes.red.width, planes.red.height, mergedBytes planes⟩ := by
  rcases mergePlanes_cases hfull with ⟨hsame, hok⟩ | ⟨-, herror⟩
  · exact ⟨hsame.mergeable hfull, Except.ok.inj (h.symm.trans hok)⟩
  · cases h.symm.trans herror

/-- Full planes are read back from their image. -/
theorem plane_of_mergePlanes_eq_ok (hfull : ∀ c, (planes.get c).IsFull) {image : Image}
    (h : mergePlanes planes = .ok image) (c : Channel) : image.plane c = planes.get c := by
  obtain ⟨hmergeable, rfl⟩ := mergeable_of_mergePlanes_eq_ok hfull h
  exact hmergeable.plane_merged c

/-- **Merging loses nothing.** Full planes merge exactly if they have the same size, and are refused
for that reason if they do not; that an image is incomplete is never the reason. The image has the
size of the planes and three bytes to a pixel, of which the one in the place of a channel is the byte
of that channel's plane. Each plane is therefore read back from the image, and images are equal only
if their planes are. -/
theorem mergePlanes_lossless (hfull : ∀ c, (planes.get c).IsFull)
    (hfull' : ∀ c, (planes'.get c).IsFull) :
    ((∃ image, mergePlanes planes = .ok image) ↔ SameSize planes) ∧
    (¬ SameSize planes → ∃ e, mergePlanes planes = .error e ∧ e.kind = .evaluation ∧
      e.detail = "merge_planes expects three planes of identical size") ∧
    (∀ e, mergePlanes planes = .error e → e.detail ≠ "rgb buffer does not match plane size") ∧
    ∀ image, mergePlanes planes = .ok image →
      image.width = planes.red.width ∧ image.height = planes.red.height ∧
      image.bytes.size = 3 * (image.width * image.height) ∧
      (∀ i < image.width * image.height, ∀ c,
        ∃ b, (planes.get c).bytes[i]? = some b ∧ image.bytes[3 * i + c.index]? = some b) ∧
      (∀ c, image.plane c = planes.get c) ∧
      ∀ image', mergePlanes planes' = .ok image' →
        (image = image' ↔ ∀ c, planes.get c = planes'.get c) := by
  refine ⟨⟨?_, ?_⟩, ?_, ?_, ?_⟩
  · rintro ⟨image, himage⟩
    obtain ⟨hmergeable, -⟩ := mergeable_of_mergePlanes_eq_ok hfull himage
    exact fun c => ⟨hmergeable.width_eq c, hmergeable.height_eq c⟩
  · intro hsame
    exact ⟨_, (hsame.mergeable hfull).mergePlanes_eq⟩
  · intro hdiffer
    exact ⟨_, mergePlanes_of_not_sameSize hdiffer, rfl, rfl⟩
  · intro e he
    rcases mergePlanes_cases hfull with ⟨-, hok⟩ | ⟨-, herror⟩
    · cases he.symm.trans hok
    · obtain rfl := Except.error.inj (herror.symm.trans he)
      decide
  · intro image himage
    obtain ⟨hmergeable, rfl⟩ := mergeable_of_mergePlanes_eq_ok hfull himage
    have hplane := plane_of_mergePlanes_eq_ok hfull himage
    refine ⟨rfl, rfl, hmergeable.size_mergedBytes, ?_, hplane, ?_⟩
    · intro i hi c
      obtain ⟨b, hb⟩ := hmergeable.exists_getElem?_eq_some hi c
      exact ⟨b, hb, hmergeable.getElem?_mergedBytes_of_eq_some hb⟩
    · intro image' himage'
      constructor
      · rintro rfl c
        rw [← hplane c, plane_of_mergePlanes_eq_ok hfull' himage' c]
      · intro hplanes
        rw [← Channels.ext_get hplanes, himage] at himage'
        exact Except.ok.inj himage'

/-- Two pixels side by side, all bytes of which are different; planes that are exchanged make another
image. -/
theorem mergePlanes_lossless_two_pixels :
    let red : Plane := ⟨2, 1, #[1, 2]⟩
    let green : Plane := ⟨2, 1, #[3, 4]⟩
    let blue : Plane := ⟨2, 1, #[5, 6]⟩
    (∀ c, ((⟨red, green, blue⟩ : Channels Plane).get c).IsFull) ∧
    (∀ c, ((⟨green, red, blue⟩ : Channels Plane).get c).IsFull) ∧
    ∃ image image', mergePlanes ⟨red, green, blue⟩ = .ok image ∧
      mergePlanes ⟨green, red, blue⟩ = .ok image' ∧ image.bytes.size = 6 ∧
      image.bytes[5]? = some 6 ∧ image.plane .green = green ∧ image ≠ image' := by
  intro red green blue
  have hfull : ∀ c, ((⟨red, green, blue⟩ : Channels Plane).get c).IsFull := by
    intro c
    cases c <;> rfl
  have hfull' : ∀ c, ((⟨green, red, blue⟩ : Channels Plane).get c).IsFull := by
    intro c
    cases c <;> rfl
  have hsame : SameSize ⟨red, green, blue⟩ := fun c => by cases c <;> exact ⟨rfl, rfl⟩
  have hsame' : SameSize ⟨green, red, blue⟩ := fun c => by cases c <;> exact ⟨rfl, rfl⟩
  obtain ⟨hok, -, -, himage⟩ := mergePlanes_lossless hfull hfull'
  obtain ⟨image, h⟩ := hok.mpr hsame
  obtain ⟨image', h'⟩ := (mergePlanes_lossless hfull' hfull).1.mpr hsame'
  obtain ⟨hwidth, hheight, hsize, hbytes, hplane, heq⟩ := himage image h
  rw [hwidth, hheight] at hsize hbytes
  obtain ⟨b, hb, hbyte⟩ := hbytes 1 (by decide) .blue
  obtain rfl := Option.some.inj (hb.symm.trans (rfl : blue.bytes[1]? = some 6))
  refine ⟨hfull, hfull', image, image', h, h', hsize, hbyte, hplane .green, ?_⟩
  intro hne
  exact absurd ((heq image' h').mp hne .red) (by decide)

end Full

end Identicon
