import Vsector.Impl.Index.Quantize

/-!
# The error of scalar quantisation

`sq8_ok`: what is read back of a vector is within half a step of it, exact at
its least and its greatest elements and throughout a constant vector, and the
codes keep the order of the elements.
-/

namespace Vsector.Index

open Framework

theorem clip_bounds (x : ℤ) : 0 ≤ clip x ∧ clip x ≤ 255 := by
  unfold clip
  omega

theorem clip_mono : Monotone clip := by
  intro x y h
  unfold clip
  omega

theorem clip_eq_self {x : ℤ} (h0 : 0 ≤ x) (h1 : x ≤ 255) : clip x = x := by
  unfold clip
  omega

theorem sq8Code_le (scale zp x : ℚ) : sq8Code scale zp x ≤ 255 := by
  have := clip_bounds (roundHalfEven ((x - zp) / scale))
  unfold sq8Code
  omega

theorem sq8Code_mono {scale : ℚ} (hs : 0 < scale) (zp : ℚ) : Monotone (sq8Code scale zp) := by
  intro x y h
  have hd : (x - zp) / scale ≤ (y - zp) / scale :=
    div_le_div_of_nonneg_right (sub_le_sub_right h zp) hs.le
  exact Int.toNat_le_toNat (clip_mono (roundHalfEven_mono hd))

/-- Between the least element and the greatest nothing is clipped. -/
theorem sq8Code_cast {scale zp x : ℚ} (hs : 0 < scale) (h0 : zp ≤ x) (h1 : x ≤ zp + 255 * scale) :
    ((sq8Code scale zp x : ℕ) : ℤ) = roundHalfEven ((x - zp) / scale) := by
  have hlow : (0 : ℤ) ≤ roundHalfEven ((x - zp) / scale) := by
    have hd : ((0 : ℤ) : ℚ) ≤ (x - zp) / scale := by
      push_cast
      exact div_nonneg (sub_nonneg.mpr h0) hs.le
    exact (roundHalfEven_intCast (0 : ℤ)).symm.le.trans (roundHalfEven_mono hd)
  have hhigh : roundHalfEven ((x - zp) / scale) ≤ 255 := by
    have hd : (x - zp) / scale ≤ ((255 : ℤ) : ℚ) := by
      rw [div_le_iff₀ hs]
      push_cast
      linarith
    exact (roundHalfEven_mono hd).trans (roundHalfEven_intCast (255 : ℤ)).le
  rw [sq8Code, clip_eq_self hlow hhigh, Int.toNat_of_nonneg hlow]

theorem abs_decoded_sub_le {scale zp x : ℚ} (hs : 0 < scale) (h0 : zp ≤ x)
    (h1 : x ≤ zp + 255 * scale) :
    |(sq8Code scale zp x : ℚ) * scale + zp - x| ≤ scale / 2 := by
  have hcast : (sq8Code scale zp x : ℚ) = (roundHalfEven ((x - zp) / scale) : ℚ) := by
    exact_mod_cast congrArg (fun n : ℤ => (n : ℚ)) (sq8Code_cast hs h0 h1)
  have hround := abs_roundHalfEven_sub_le ((x - zp) / scale)
  calc |(sq8Code scale zp x : ℚ) * scale + zp - x|
      = |((roundHalfEven ((x - zp) / scale) : ℚ) - (x - zp) / scale) * scale| := by
        congr 1
        rw [hcast]
        field_simp
        ring
    _ = |(roundHalfEven ((x - zp) / scale) : ℚ) - (x - zp) / scale| * scale := by
      rw [abs_mul, abs_of_pos hs]
    _ ≤ 1 / 2 * scale := mul_le_mul_of_nonneg_right hround hs.le
    _ = scale / 2 := by ring

theorem decoded_least {scale zp : ℚ} : (sq8Code scale zp zp : ℚ) * scale + zp = zp := by
  have h : roundHalfEven ((0 : ℚ)) = 0 := by simpa using roundHalfEven_intCast (K := ℚ) 0
  simp [sq8Code, h, clip]

theorem decoded_greatest {scale : ℚ} (zp : ℚ) (hs : 0 < scale) :
    (sq8Code scale zp (zp + 255 * scale) : ℚ) * scale + zp = zp + 255 * scale := by
  have hq : (zp + 255 * scale - zp) / scale = ((255 : ℤ) : ℚ) := by
    field_simp
    push_cast
    ring
  rw [sq8Code, hq, roundHalfEven_intCast]
  simp [clip]
  ring

/-- What is read back of `v`, and how its codes are ordered. -/
structure Sq8Faithful (v : List ℚ) (q : Sq8) : Prop where
  length : q.codes.length = v.length
  codes : ∀ c ∈ q.codes, c ≤ 255
  error : ∀ (i : Nat) (x y : ℚ), v[i]? = some x → (sq8Dequantize q)[i]? = some y →
    |y - x| ≤ q.scale / 2
  constant : (∀ x ∈ v, ∀ y ∈ v, x = y) → sq8Dequantize q = v
  ordered : ∀ (i j : Nat) (x y : ℚ) (c d : Nat), v[i]? = some x → v[j]? = some y →
    q.codes[i]? = some c →
    q.codes[j]? = some d → x ≤ y → c ≤ d
  least : ∀ (i : Nat) (x : ℚ), v[i]? = some x → (∀ y ∈ v, x ≤ y) → (sq8Dequantize q)[i]? = some x
  greatest : ∀ (i : Nat) (x : ℚ), v[i]? = some x → (∀ y ∈ v, y ≤ x) → (sq8Dequantize q)[i]? = some x

/-- A quantisation element by element. -/
theorem faithful_of_map {v : List ℚ} {scale zp : ℚ} {code : ℚ → Nat} (hcode : ∀ x ∈ v, code x ≤ 255)
    (herror : ∀ x ∈ v, |(code x : ℚ) * scale + zp - x| ≤ scale / 2)
    (hmono : ∀ x ∈ v, ∀ y ∈ v, x ≤ y → code x ≤ code y)
    (hconst : (∀ x ∈ v, ∀ y ∈ v, x = y) → ∀ x ∈ v, (code x : ℚ) * scale + zp = x)
    (hleast : ∀ x ∈ v, (∀ y ∈ v, x ≤ y) → (code x : ℚ) * scale + zp = x)
    (hgreatest : ∀ x ∈ v, (∀ y ∈ v, y ≤ x) → (code x : ℚ) * scale + zp = x) :
    Sq8Faithful v ⟨v.map code, scale, zp⟩ := by
  have hdeq : sq8Dequantize ⟨v.map code, scale, zp⟩ = v.map fun x => (code x : ℚ) * scale + zp := by
    simp [sq8Dequantize]
  refine ⟨List.length_map .., ?_, ?_, ?_, ?_, ?_, ?_⟩
  · intro c hc
    obtain ⟨x, hx, rfl⟩ := List.mem_map.mp hc
    exact hcode x hx
  · intro i x y hx hy
    rw [hdeq, List.getElem?_map, hx] at hy
    cases hy
    exact herror x (List.mem_of_getElem? hx)
  · intro h
    rw [hdeq]
    exact (List.map_congr_left (hconst h)).trans (List.map_id v)
  · intro i j x y c d hx hy hc hd hxy
    rw [List.getElem?_map, hx] at hc
    rw [List.getElem?_map, hy] at hd
    cases hc
    cases hd
    exact hmono x (List.mem_of_getElem? hx) y (List.mem_of_getElem? hy) hxy
  · intro i x hx h
    rw [hdeq, List.getElem?_map, hx]
    exact congrArg some (hleast x (List.mem_of_getElem? hx) h)
  · intro i x hx h
    rw [hdeq, List.getElem?_map, hx]
    exact congrArg some (hgreatest x (List.mem_of_getElem? hx) h)

theorem faithful_of_constant {v : List ℚ} {vmin : ℚ} (h : ∀ x ∈ v, x = vmin) :
    Sq8Faithful v ⟨v.map fun _ => 0, 1, vmin⟩ := by
  have hread : ∀ x ∈ v, ((0 : ℕ) : ℚ) * 1 + vmin = x := fun x hx => by rw [h x hx]; simp
  refine faithful_of_map (fun _ _ => Nat.zero_le _) (fun x hx => ?_) (fun _ _ _ _ _ => le_refl _)
    (fun _ => hread) (fun x hx _ => hread x hx) fun x hx _ => hread x hx
  rw [hread x hx, sub_self, abs_zero]
  norm_num

theorem faithful_of_spread {v : List ℚ} {vmin vmax : ℚ} (hmin : vmin ∈ v) (hmax : vmax ∈ v)
    (hlow : ∀ x ∈ v, vmin ≤ x) (hhigh : ∀ x ∈ v, x ≤ vmax) (hne : vmax ≠ vmin) :
    Sq8Faithful v ⟨v.map (sq8Code ((vmax - vmin) / 255) vmin), (vmax - vmin) / 255, vmin⟩ := by
  have hlt : vmin < vmax := lt_of_le_of_ne (hlow vmax hmax) hne.symm
  have hs : 0 < (vmax - vmin) / 255 := div_pos (sub_pos.mpr hlt) (by norm_num)
  have htop : vmin + 255 * ((vmax - vmin) / 255) = vmax := by ring
  refine faithful_of_map (fun x _ => sq8Code_le _ _ x) (fun x hx => ?_)
    (fun x _ y _ hxy => sq8Code_mono hs _ hxy)
    (fun h => absurd (h vmax hmax vmin hmin) hne) (fun x hx h => ?_) fun x hx h => ?_
  · exact abs_decoded_sub_le hs (hlow x hx) (htop.symm ▸ hhigh x hx)
  · rw [le_antisymm (h vmin hmin) (hlow x hx)]
    exact decoded_least
  · rw [le_antisymm (hhigh x hx) (h vmax hmax)]
    have hdecoded := decoded_greatest vmin hs
    rwa [htop] at hdecoded

/-- What `sq8_dequantize` reads back of the codes of a vector that is not empty. -/
theorem sq8_ok {v : List ℚ} (hv : v ≠ []) : ∃ q, sq8Quantize v = .ok q ∧ Sq8Faithful v q := by
  obtain ⟨vmin, hmin⟩ := Option.isSome_iff_exists.mp (List.isSome_min?_iff.mpr hv)
  obtain ⟨vmax, hmax⟩ := Option.isSome_iff_exists.mp (List.isSome_max?_iff.mpr hv)
  obtain ⟨hminMem, hlow⟩ := List.min?_eq_some_iff.mp hmin
  obtain ⟨hmaxMem, hhigh⟩ := List.max?_eq_some_iff.mp hmax
  simp only [sq8Quantize, hmin, hmax]
  by_cases he : vmax = vmin
  · rw [if_pos he]
    refine ⟨_, rfl, faithful_of_constant fun x hx => ?_⟩
    exact le_antisymm (he ▸ hhigh x hx) (hlow x hx)
  · rw [if_neg he]
    exact ⟨_, rfl, faithful_of_spread hminMem hmaxMem hlow hhigh he⟩

theorem sq8_ok_three : ([0, 1, 1 / 2] : List ℚ) ≠ [] ∧
    ∃ q, sq8Quantize [0, 1, 1 / 2] = .ok q ∧ Sq8Faithful [0, 1, 1 / 2] q :=
  ⟨by decide, sq8_ok (by decide)⟩

end Vsector.Index
