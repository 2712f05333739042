import Mathlib

/-!
# Length-prefixed frames

A frame is a header of fixed size followed by a payload whose length the
header announces. `parse` reads frames one after the other, as a reader of
an append-only log does: it stops at the first header or payload that the
data cut off, and skips a frame that `decode` rejects.

* `parse_frames`: frames followed by any bytes parse to their values
  followed by what those bytes parse to;
* `parse_partial`: a proper prefix of a frame parses to nothing;
* `take_frames`, `parse_take`: the first `k` bytes of frames are the frames
  that fit (`fits`) and a proper prefix of one more, and parse to the former;
* `prefix_fits`: no prefix of the frames that fits is longer.
-/

namespace Framework

/-- A format of frames of `β` with values in `α`. -/
structure FrameFormat (β α : Type*) where
  headerSize : Nat
  headerSize_pos : 0 < headerSize
  /-- The length of the payload a header announces. -/
  payloadLength : List β → Nat
  /-- The value of a header and its payload, or `none` for a frame to skip. -/
  decode : List β → List β → Option α

namespace FrameFormat

variable {α β : Type*} (F : FrameFormat β α)

/-- `parse` with a bound on the number of frames read. -/
def parseFuel : Nat → List β → List α
  | 0, _ => []
  | n + 1, data =>
    if data.length < F.headerSize then []
    else
      let header := data.take F.headerSize
      let body := data.drop F.headerSize
      if body.length < F.payloadLength header then []
      else
        (F.decode header (body.take (F.payloadLength header))).toList ++
          parseFuel n (body.drop (F.payloadLength header))

/-- The values of the frames in `data`; every frame takes at least a byte. -/
def parse (data : List β) : List α := F.parseFuel data.length data

theorem parseFuel_congr {n m : Nat} {data : List β} (hn : data.length ≤ n) (hm : data.length ≤ m) :
    F.parseFuel n data = F.parseFuel m data := by
  induction n generalizing m data with
  | zero =>
    have h := F.headerSize_pos
    cases m with
    | zero => rfl
    | succ m => simp only [parseFuel]; rw [if_pos (by omega)]
  | succ n ih =>
    cases m with
    | zero =>
      have h := F.headerSize_pos
      simp only [parseFuel]; rw [if_pos (by omega)]
    | succ m =>
      have h := F.headerSize_pos
      simp only [parseFuel]
      split
      · rfl
      · split
        · rfl
        · congr 1
          refine ih ?_ ?_ <;> simp only [List.length_drop] <;> omega

theorem parse_short {data : List β} (h : data.length < F.headerSize) : F.parse data = [] := by
  unfold parse
  cases hd : data.length with
  | zero => rfl
  | succ n => simp only [parseFuel]; rw [if_pos h]

@[simp] theorem parse_nil : F.parse [] = [] := F.parse_short (by simpa using F.headerSize_pos)

theorem parse_cut {data : List β} (h : F.headerSize ≤ data.length)
    (hl : data.length - F.headerSize < F.payloadLength (data.take F.headerSize)) :
    F.parse data = [] := by
  have h0 := F.headerSize_pos
  unfold parse
  obtain ⟨n, hn⟩ : ∃ n, data.length = n + 1 := ⟨data.length - 1, by omega⟩
  rw [hn]
  simp only [parseFuel]
  rw [if_neg (by omega), if_pos (by simpa only [List.length_drop] using hl)]

theorem parse_step {header payload rest : List β} (hh : header.length = F.headerSize)
    (hp : F.payloadLength header = payload.length) :
    F.parse (header ++ (payload ++ rest)) = (F.decode header payload).toList ++ F.parse rest := by
  have h0 := F.headerSize_pos
  unfold parse
  obtain ⟨n, hn⟩ : ∃ n, (header ++ (payload ++ rest)).length = n + 1 :=
    ⟨(header ++ (payload ++ rest)).length - 1, by simp only [List.length_append]; omega⟩
  rw [hn]
  simp only [parseFuel]
  rw [if_neg (by rw [List.length_append]; omega), ← hh, List.take_left, List.drop_left, hp,
    if_neg (by rw [List.length_append]; omega), List.take_left, List.drop_left]
  congr 1
  refine F.parseFuel_congr ?_ (Nat.le_refl _)
  simp only [List.length_append] at hn; omega

/-- `bytes` is a whole frame of value `a`. -/
def IsFrame (bytes : List β) (a : α) : Prop :=
  ∃ header payload, bytes = header ++ payload ∧ header.length = F.headerSize ∧
    F.payloadLength header = payload.length ∧ F.decode header payload = some a

/-- A proper prefix of a header and the payload it announces: what a cut leaves of a frame. -/
def IsPartial (bytes : List β) : Prop :=
  ∃ rest header payload, rest ≠ [] ∧ bytes ++ rest = header ++ payload ∧
    header.length = F.headerSize ∧ F.payloadLength header = payload.length

variable {F}

theorem parse_frame {bytes : List β} {a : α} (h : F.IsFrame bytes a) (rest : List β) :
    F.parse (bytes ++ rest) = a :: F.parse rest := by
  obtain ⟨header, payload, rfl, hh, hp, hd⟩ := h
  rw [List.append_assoc, F.parse_step hh hp, hd]
  rfl

theorem parse_partial {bytes : List β} (h : F.IsPartial bytes) : F.parse bytes = [] := by
  obtain ⟨rest, header, payload, hne, he, hh, hp⟩ := h
  have hr : 0 < rest.length := List.length_pos_iff.mpr hne
  have hl := congrArg List.length he
  simp only [List.length_append] at hl
  rcases Nat.lt_or_ge bytes.length F.headerSize with hs | hs
  · exact F.parse_short hs
  · -- The header is whole, so it announces the payload that is cut.
    have ht : bytes.take F.headerSize = header := by
      have := congrArg (List.take F.headerSize) he
      rwa [List.take_append_of_le_length hs, ← hh, List.take_left, hh] at this
    exact F.parse_cut hs (by rw [ht, hp]; omega)

variable {enc : α → List β}

/-- Frames followed by any bytes. -/
theorem parse_frames {es : List α} (h : ∀ e ∈ es, F.IsFrame (enc e) e) (t : List β) :
    F.parse (es.flatMap enc ++ t) = es ++ F.parse t := by
  induction es with
  | nil => rfl
  | cons e es ih =>
    rw [List.flatMap_cons, List.append_assoc, parse_frame (h e List.mem_cons_self),
      ih fun e' he => h e' (List.mem_cons_of_mem _ he), List.cons_append]

/-- The longest prefix of `es` whose encodings fit into `k`. -/
def fits (enc : α → List β) : Nat → List α → List α
  | _, [] => []
  | k, e :: es => if (enc e).length ≤ k then e :: fits enc (k - (enc e).length) es else []

theorem isPrefix_fits (k : Nat) (es : List α) : fits enc k es <+: es := by
  induction es generalizing k with
  | nil => exact List.prefix_refl _
  | cons e es ih =>
    simp only [fits]
    split
    · exact List.prefix_cons_inj e |>.mpr (ih _)
    · exact List.nil_prefix

theorem length_fits_le (k : Nat) (es : List α) : ((fits enc k es).flatMap enc).length ≤ k := by
  induction es generalizing k with
  | nil => exact Nat.zero_le k
  | cons e es ih =>
    simp only [fits]
    split
    · have hes := ih (k - (enc e).length)
      rw [List.flatMap_cons, List.length_append]
      omega
    · exact Nat.zero_le k

theorem prefix_fits {k : Nat} {es p : List α} (hp : p <+: es) (hk : (p.flatMap enc).length ≤ k) :
    p <+: fits enc k es := by
  induction es generalizing k p with
  | nil => exact hp
  | cons e es ih =>
    cases p with
    | nil => exact List.nil_prefix
    | cons a p =>
      obtain ⟨rfl, htail⟩ := List.cons_prefix_cons.mp hp
      rw [List.flatMap_cons, List.length_append] at hk
      rw [fits, if_pos (by omega)]
      exact List.cons_prefix_cons.mpr ⟨rfl, ih htail (by omega)⟩

theorem fits_append {k : Nat} {es es' : List α} (h : (es.flatMap enc).length ≤ k) :
    fits enc k (es ++ es') = es ++ fits enc (k - (es.flatMap enc).length) es' := by
  induction es generalizing k with
  | nil => rfl
  | cons e es ih =>
    simp only [List.flatMap_cons, List.length_append] at h
    simp only [List.cons_append, fits, List.flatMap_cons, List.length_append]
    rw [if_pos (by omega), ih (by omega), Nat.sub_sub]

theorem fits_min (k : Nat) (es : List α) :
    fits enc (min k (es.flatMap enc).length) es = fits enc k es := by
  induction es generalizing k with
  | nil => rfl
  | cons e es ih =>
    simp only [List.flatMap_cons, List.length_append, fits]
    by_cases h : (enc e).length ≤ k
    · rw [if_pos h, if_pos (by omega), ← ih (k - (enc e).length)]
      congr 2; omega
    · rw [if_neg h, if_neg (by omega)]

/-- The first `k` bytes of frames: the frames that fit and what is left of one more. -/
theorem take_frames {es : List α} (h : ∀ e ∈ es, F.IsFrame (enc e) e) (k : Nat) :
    ∃ t, (es.flatMap enc).take k = (fits enc k es).flatMap enc ++ t ∧ (t = [] ∨ F.IsPartial t) := by
  induction es generalizing k with
  | nil => exact ⟨[], by simp [fits], .inl rfl⟩
  | cons e es ih =>
    simp only [List.flatMap_cons, fits]
    split
    · rename_i hk
      obtain ⟨t, ht, hp⟩ := ih (fun e' he => h e' (List.mem_cons_of_mem _ he)) (k - (enc e).length)
      refine ⟨t, ?_, hp⟩
      rw [List.take_append, List.take_of_length_le hk, ht, List.flatMap_cons, List.append_assoc]
    · rename_i hk
      obtain ⟨header, payload, he, hh, hp, -⟩ := h e List.mem_cons_self
      refine ⟨(enc e).take k, ?_, .inr ⟨(enc e).drop k, header, payload, ?_, ?_, hh, hp⟩⟩
      · rw [List.take_append_of_le_length (by omega)]; rfl
      · intro hn
        have := congrArg List.length hn
        simp only [List.length_drop, List.length_nil] at this; omega
      · rw [List.take_append_drop]; exact he

/-- The first `k` bytes of frames parse to the frames that fit. -/
theorem parse_take {es : List α} (h : ∀ e ∈ es, F.IsFrame (enc e) e) (k : Nat) :
    F.parse ((es.flatMap enc).take k) = fits enc k es := by
  obtain ⟨t, ht, hp⟩ := take_frames h k
  have hnil : F.parse t = [] := by
    rcases hp with rfl | hp
    · exact F.parse_nil
    · exact parse_partial hp
  rw [ht, parse_frames fun e he => h e ((isPrefix_fits k es).subset he), hnil, List.append_nil]

/-- Bytes that are frames and a partial frame are whole frames only where nothing is partial. -/
theorem eq_nil_of_frames {es es' : List α} {t : List β} (h : ∀ e ∈ es, F.IsFrame (enc e) e)
    (h' : ∀ e ∈ es', F.IsFrame (enc e) e) (ht : t = [] ∨ F.IsPartial t)
    (he : es.flatMap enc ++ t = es'.flatMap enc) : t = [] := by
  have hp : F.parse t = [] := by
    rcases ht with rfl | ht
    · exact F.parse_nil
    · exact parse_partial ht
  have := congrArg F.parse he
  rw [parse_frames h, hp, List.append_nil, ← List.append_nil (es'.flatMap enc), parse_frames h',
    parse_nil, List.append_nil] at this
  subst this
  simpa using he

end FrameFormat

end Framework
