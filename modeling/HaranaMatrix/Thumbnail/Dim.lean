import Mathlib

/-!
# The size of a thumbnail

`Dim::scaled` (`server-thumbnail/src/dim.rs`) fits a picture into a request. It compares the two ratios as cross products of `u32`
values that saturate. `Proportional` is the size it is for, in exact arithmetic; the two agree as long as the product of the tighter
axis is below the largest `u32`, and for every picture within a pixel budget of that size.
-/

namespace HaranaMatrix.Thumbnail

inductive Method where
  | crop
  | scale
  | custom (name : String)
deriving DecidableEq, Repr

/-- `Error`, without the errors of the image decoder. -/
inductive Error where
  | pastPixelBudget (width height : UInt32) (budget : UInt64)
  | invalidDimensions
deriving DecidableEq, Repr

structure Dim where
  width : UInt32
  height : UInt32
  method : Method
deriving DecidableEq, Repr

/-- The product of two `Saturating<u32>`. -/
def satMul (a b : UInt32) : UInt32 := UInt32.ofNat (min (a.toNat * b.toNat) (2 ^ 32 - 1))

def checkedDiv (a b : UInt32) : Except Error UInt32 := if b = 0 then .error .invalidDimensions else .ok (a / b)

namespace Dim

/-- `Dim::new`; the method defaults to scaling. -/
def new (width height : UInt32) (method : Option Method) : Dim := ⟨width, height, method.getD .scale⟩

def crop (d : Dim) : Bool := d.method = .crop

def scaled (d source : Dim) : Except Error Dim := do
  let width := min d.width source.width
  let height := min d.height source.height
  -- whichever axis is the tighter constraint sets the scale
  let widthIsTighter := satMul width source.height < satMul height source.width
  let (x, y) ←
    if widthIsTighter then do
      let y ← checkedDiv (satMul width source.height) source.width
      .ok (width, y)
    else do
      let x ← checkedDiv (satMul height source.width) source.height
      .ok (x, height)
  .ok ⟨x, y, .scale⟩

end Dim

/-- What is used of the `image` crate. -/
structure Images (Image : Type) where
  width : Image → UInt32
  height : Image → UInt32
  resizeToFill : Image → UInt32 → UInt32 → Image
  thumbnailExact : Image → UInt32 → UInt32 → Image

def defaultMaxPixels : UInt64 := 50000000

/-- The check of `decode` on the size that a header declares. -/
def checkPixels (width height : UInt32) (maxPixels : UInt64) : Except Error Unit :=
  let pixels := UInt64.ofNat (min (width.toNat * height.toNat) (2 ^ 64 - 1))
  if maxPixels < pixels then .error (.pastPixelBudget width height maxPixels) else .ok ()

/-- `generate`, scaled or cropped to the request, and never enlarged. -/
def generate {Image : Type} (images : Images Image) (image : Image) (requested : Dim) : Except Error Image :=
  let source := Dim.new (images.width image) (images.height image) none
  if requested.crop then
    let width := min requested.width (images.width image)
    let height := min requested.height (images.height image)
    .ok (images.resizeToFill image width height)
  else do
    let d ← requested.scaled source
    .ok (images.thumbnailExact image d.width d.height)

/-! ## The exact size -/

/-- **The largest size of the ratio of the source that fits.** The axis with the smaller ratio has
its bound, and the other one is the floor of the proportional value. -/
def Proportional (w h sw sh x y : ℕ) : Prop :=
  x ≤ min w sw ∧ y ≤ min h sh ∧
    ((x = min w sw ∧ y = x * sh / sw ∧ min w sw * sh ≤ min h sh * sw) ∨
      (y = min h sh ∧ x = y * sw / sh ∧ min h sh * sw ≤ min w sw * sh))

instance (w h sw sh x y : ℕ) : Decidable (Proportional w h sw sh x y) :=
  inferInstanceAs (Decidable (_ ∧ _ ∧ _))

/-- The product of the tighter axis is not cut off, or the quotient does not depend on it. -/
def Scalable (w h sw sh : ℕ) : Prop :=
  (min w sw * sh < min h sh * sw → min w sw * sh < 2 ^ 32 - 1) ∧
    (min h sh * sw ≤ min w sw * sh → min h sh * sw / sh ≤ (2 ^ 32 - 1) / sh)

instance (w h sw sh : ℕ) : Decidable (Scalable w h sw sh) :=
  inferInstanceAs (Decidable ((_ → _) ∧ (_ → _)))

/-- `scaled`, with products that stop at `m`. -/
def scaledNat (m w h sw sh : ℕ) : ℕ × ℕ :=
  if min (min w sw * sh) m < min (min h sh * sw) m then (min w sw, min (min w sw * sh) m / sw)
  else (min (min h sh * sw) m / sh, min h sh)

section Exact

variable {w h sw sh : ℕ}

lemma proportional_width (hw : 0 < sw) (hlt : min w sw * sh < min h sh * sw) :
    Proportional w h sw sh (min w sw) (min w sw * sh / sw) :=
  ⟨le_rfl, ((Nat.div_lt_iff_lt_mul hw).2 hlt).le, .inl ⟨rfl, rfl, hlt.le⟩⟩

lemma proportional_height (hle : min h sh * sw ≤ min w sw * sh) :
    Proportional w h sw sh (min h sh * sw / sh) (min h sh) :=
  ⟨Nat.div_le_of_le_mul (by rwa [Nat.mul_comm sh]), le_rfl, .inr ⟨rfl, rfl, hle⟩⟩

lemma not_proportional_height (hw : 0 < sw) (hlt : min w sw * sh < min h sh * sw) (x : ℕ) :
    ¬ Proportional w h sw sh x (min h sh) := by
  rintro ⟨-, -, ⟨rfl, hy, -⟩ | ⟨-, -, hle⟩⟩
  · have := (Nat.div_lt_iff_lt_mul hw).2 hlt
    omega
  · omega

/-- **Products that stop at `m`** lead to the exact size when the tighter product is below `m`, or
when they give the same quotient. -/
theorem scaledNat_proportional_iff (hw : 0 < sw) (hh : 0 < sh) (m : ℕ) :
    Proportional w h sw sh (scaledNat m w h sw sh).1 (scaledNat m w h sw sh).2 ↔
      (min w sw * sh < min h sh * sw → min w sw * sh < m) ∧
        (min h sh * sw ≤ min w sw * sh → min h sh * sw / sh ≤ m / sh) := by
  by_cases hlt : min w sw * sh < min h sh * sw
  · have hnot : ¬ min h sh * sw ≤ min w sw * sh := not_le.2 hlt
    simp only [hlt, hnot, forall_const, false_imp_iff, and_true]
    by_cases hm : min w sw * sh < m
    · have hbranch : min (min w sw * sh) m < min (min h sh * sw) m := by omega
      rw [scaledNat, if_pos hbranch, min_eq_left hm.le]
      exact iff_of_true (proportional_width hw hlt) hm
    · have hbranch : ¬ min (min w sw * sh) m < min (min h sh * sw) m := by omega
      rw [scaledNat, if_neg hbranch]
      exact iff_of_false (not_proportional_height hw hlt _) hm
  · have hle := not_lt.1 hlt
    have hbranch : ¬ min (min w sw * sh) m < min (min h sh * sw) m := by omega
    have hmono : Monotone fun a => a / sh := fun a b hab => Nat.div_le_div_right hab
    have hdiv : min (min h sh * sw) m / sh = min (min h sh * sw / sh) (m / sh) := hmono.map_min
    simp only [hlt, hle, forall_const, false_imp_iff, true_and]
    rw [scaledNat, if_neg hbranch]
    simp only [hdiv]
    constructor
    · rintro ⟨-, -, ⟨hx, -, hle'⟩ | ⟨-, hx, -⟩⟩
      · -- the two ratios are equal
        have heq : min h sh * sw / sh = min w sw := by
          rw [le_antisymm hle hle', Nat.mul_div_cancel _ hh]
        omega
      · omega
    · intro hm
      rw [min_eq_left hm]
      exact proportional_height hle

end Exact

/-! ## The program -/

section Program

variable {a b : UInt32}

lemma toNat_satMul (a b : UInt32) : (satMul a b).toNat = min (a.toNat * b.toNat) (2 ^ 32 - 1) := by
  exact Nat.mod_eq_of_lt (by omega)

lemma toNat_min (a b : UInt32) : (min a b).toNat = min a.toNat b.toNat := by
  change (if a ≤ b then a else b).toNat = _
  rw [Nat.min_def]
  simp only [UInt32.le_iff_toNat_le]
  split <;> rfl

lemma checkedDiv_eq (hb : b ≠ 0) : checkedDiv a b = .ok (a / b) := if_neg hb

lemma scaled_eq (d : Dim) {source : Dim} (hw : 0 < source.width) (hh : 0 < source.height) :
    ∃ r, d.scaled source = .ok r ∧ r.method = .scale ∧ (r.width.toNat, r.height.toNat) =
      scaledNat (2 ^ 32 - 1) d.width.toNat d.height.toNat source.width.toNat source.height.toNat := by
  have hw' : source.width ≠ 0 := (UInt32.pos_iff_ne_zero).1 hw
  have hh' : source.height ≠ 0 := (UInt32.pos_iff_ne_zero).1 hh
  unfold Dim.scaled scaledNat
  simp only [checkedDiv_eq hw', checkedDiv_eq hh', UInt32.lt_iff_toNat_lt, toNat_satMul, toNat_min]
  split
  · refine ⟨_, rfl, rfl, ?_⟩
    simp [toNat_satMul, toNat_min]
  · refine ⟨_, rfl, rfl, ?_⟩
    simp [toNat_satMul, toNat_min]

/-- **When `scaled` keeps the ratio.** It returns a size for every source that is not empty, and the
size is the exact one if and only if the product of the tighter axis does not saturate, or saturates
without a change of the quotient. -/
theorem scaled_proportional_iff (d source : Dim) (hw : 0 < source.width) (hh : 0 < source.height) :
    ∃ r, d.scaled source = .ok r ∧ r.method = .scale ∧
      (Proportional d.width.toNat d.height.toNat source.width.toNat source.height.toNat r.width.toNat r.height.toNat ↔
        Scalable d.width.toNat d.height.toNat source.width.toNat source.height.toNat) := by
  obtain ⟨r, hr, hmethod, hsize⟩ := scaled_eq d hw hh
  have hiff := scaledNat_proportional_iff (w := d.width.toNat) (h := d.height.toNat)
    (UInt32.lt_iff_toNat_lt.1 hw) (UInt32.lt_iff_toNat_lt.1 hh) (2 ^ 32 - 1)
  rw [← hsize] at hiff
  exact ⟨r, hr, hmethod, hiff⟩

theorem scaled_proportional_iff_photo :
    Scalable 320 240 800 400 ∧ ∃ r, (Dim.new 320 240 none).scaled (Dim.new 800 400 none) = .ok r ∧
      Proportional 320 240 800 400 r.width.toNat r.height.toNat := by
  have hscalable : Scalable 320 240 800 400 := by decide
  obtain ⟨r, hr, -, hiff⟩ := scaled_proportional_iff (Dim.new 320 240 none) (Dim.new 800 400 none) (by decide) (by decide)
  exact ⟨hscalable, r, hr, hiff.2 hscalable⟩

/-- A picture that is twice as wide as high: both products are cut off at the same value, so the
height binds although the width is tighter, and the thumbnail is almost a square. -/
theorem scaled_saturated :
    (Dim.new 65536 65536 none).scaled (Dim.new 131072 65536 none) = .ok ⟨65535, 65536, .scale⟩ ∧
      ¬ Proportional 65536 65536 131072 65536 65535 65536 ∧
        Proportional 65536 65536 131072 65536 65536 32768 := by
  decide

/-! ## Pictures within a budget -/

lemma scaled_of_scalable (d source : Dim) (hw : 0 < source.width) (hh : 0 < source.height)
    (hs : Scalable d.width.toNat d.height.toNat source.width.toNat source.height.toNat) :
    ∃ r, d.scaled source = .ok r ∧
      Proportional d.width.toNat d.height.toNat source.width.toNat source.height.toNat r.width.toNat r.height.toNat := by
  obtain ⟨r, hr, -, hsize⟩ := scaled_eq d hw hh
  have hproportional := (scaledNat_proportional_iff (UInt32.lt_iff_toNat_lt.1 hw) (UInt32.lt_iff_toNat_lt.1 hh) _).2 hs
  rw [← hsize] at hproportional
  exact ⟨r, hr, hproportional⟩

lemma scalable_of_pixels {w h sw sh : ℕ} (hpixels : sw * sh < 2 ^ 32 - 1) : Scalable w h sw sh := by
  have hheight : min h sh * sw ≤ sw * sh := by
    rw [Nat.mul_comm sw]
    exact Nat.mul_le_mul_right _ (min_le_right _ _)
  exact ⟨fun _ => by omega, fun _ => Nat.div_le_div_right (by omega)⟩

lemma pixels_le_of_checkPixels {maxPixels : UInt64} (h : checkPixels a b maxPixels = .ok ()) :
    a.toNat * b.toNat ≤ maxPixels.toNat := by
  have ha := a.toNat_lt
  have hb := b.toNat_lt
  have hprod : a.toNat * b.toNat < 2 ^ 64 := by
    calc a.toNat * b.toNat < 2 ^ 32 * 2 ^ 32 := Nat.mul_lt_mul'' ha hb
      _ = 2 ^ 64 := by norm_num
  have hmin : min (a.toNat * b.toNat) (2 ^ 64 - 1) = a.toNat * b.toNat := by omega
  rw [checkPixels, hmin] at h
  split at h
  · cases h
  next hle =>
    rw [UInt64.lt_iff_toNat_lt, UInt64.toNat_ofNat', Nat.mod_eq_of_lt hprod, not_lt] at hle
    exact hle

/-- **The thumbnail of a picture within a budget below the largest `u32` has the ratio of the
picture.** -/
theorem generate_within_budget {Image : Type} (images : Images Image)
    (hexact : ∀ image w h, images.width (images.thumbnailExact image w h) = w ∧
      images.height (images.thumbnailExact image w h) = h)
    {image : Image} {maxPixels : UInt64} (hw : 0 < images.width image) (hh : 0 < images.height image)
    (hpixels : checkPixels (images.width image) (images.height image) maxPixels = .ok ())
    (hmax : maxPixels.toNat < 2 ^ 32 - 1) {requested : Dim} (hcrop : requested.crop = false) :
    ∃ thumbnail, generate images image requested = .ok thumbnail ∧
      Proportional requested.width.toNat requested.height.toNat (images.width image).toNat (images.height image).toNat
        (images.width thumbnail).toNat (images.height thumbnail).toNat := by
  have hle := pixels_le_of_checkPixels hpixels
  obtain ⟨r, hr, hproportional⟩ :=
    scaled_of_scalable requested (Dim.new (images.width image) (images.height image) none)
    hw hh (scalable_of_pixels (lt_of_le_of_lt hle hmax))
  refine ⟨images.thumbnailExact image r.width r.height, ?_, ?_⟩
  · simp only [generate, hcrop, Bool.false_eq_true, if_false, hr]
    rfl
  · rw [(hexact _ _ _).1, (hexact _ _ _).2]
    exact hproportional

/-- Pictures as their sizes. -/
def sizes : Images (UInt32 × UInt32) := ⟨Prod.fst, Prod.snd, fun _ w h => (w, h), fun _ w h => (w, h)⟩

theorem generate_within_budget_wide : ∃ thumbnail,
    generate sizes (10000, 4000) (Dim.new 800 600 none) = .ok thumbnail ∧
      Proportional 800 600 10000 4000 thumbnail.1.toNat thumbnail.2.toNat := by
  have hpixels : checkPixels (sizes.width (10000, 4000)) (sizes.height (10000, 4000)) defaultMaxPixels = .ok () := rfl
  exact generate_within_budget sizes (fun _ _ _ => ⟨rfl, rfl⟩) (by decide) (by decide) hpixels (by decide) rfl

end Program

end HaranaMatrix.Thumbnail
