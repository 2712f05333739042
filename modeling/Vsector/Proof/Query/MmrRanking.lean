import Vsector.Framework.FirstMax
import Vsector.Impl.Query.Ranking

/-!
# What the re-ranking selects

`mmr_rerank_iff`: with similarities of at most a bound, the re-ranking selects
as many different candidates as it is asked for, or all where there are not so
many, exactly where it is asked for one, or enough of the candidates are still
above `-1e9` (`high`) once the bound is taken off their scores: with that
number the search for the next one begins, and where nothing is above it the
loop ends early. Whatever the similarities are, that is so only where they do
not count at all.
-/

namespace Vsector.Query.Mmr

open Framework

variable {α : Type} [DecidableEq α] {M : Mmr α} {candidates selected remaining : List α} {b : α}

/-- The loop over `remaining` after the candidates `seen`: it has found the first of them that is
best, or none where none is above the sentinel. -/
theorem better_spec (M : Mmr α) (candidates selected remaining : List α) {seen : List α}
    {best : Option α} {m : ℚ}
    (h : (best = none ∧ m = -10 ^ 9 ∧ ∀ c ∈ seen, M.mmr candidates selected c ≤ -10 ^ 9) ∨
      ∃ a, best = some a ∧ m = M.mmr candidates selected a ∧ -10 ^ 9 < m ∧
      FirstMax (M.mmr candidates selected) seen a) :
    (M.better candidates selected remaining best m = none ∧
        ∀ c ∈ seen ++ remaining, M.mmr candidates selected c ≤ -10 ^ 9) ∨
      ∃ a, M.better candidates selected remaining best m = some a ∧
        -10 ^ 9 < M.mmr candidates selected a ∧
        FirstMax (M.mmr candidates selected) (seen ++ remaining) a := by
  induction remaining generalizing seen best m with
  | nil =>
    rw [List.append_nil]
    rcases h with ⟨rfl, -, hseen⟩ | ⟨a, rfl, rfl, hm, ha⟩
    · exact .inl ⟨rfl, hseen⟩
    · exact .inr ⟨a, rfl, hm, ha⟩
  | cons c remaining ih =>
    rw [List.append_cons]
    rw [better]
    split
    · rename_i hlt
      refine ih (.inr ⟨c, rfl, rfl, ?_, ?_⟩)
      · rcases h with ⟨-, rfl, -⟩ | ⟨a, -, -, hm, -⟩
        · exact hlt
        · exact hm.trans hlt
      · rcases h with ⟨-, rfl, hseen⟩ | ⟨a, -, rfl, hm, ha⟩
        · exact ⟨seen, [], rfl, fun d hd => (hseen d hd).trans_lt hlt, fun _ hd =>
            absurd hd List.not_mem_nil⟩
        · have := ha.snoc c
          rwa [if_pos hlt] at this
    · rename_i hle
      refine ih ?_
      rcases h with ⟨rfl, rfl, hseen⟩ | ⟨a, rfl, rfl, hm, ha⟩
      · refine .inl ⟨rfl, rfl, fun d hd => ?_⟩
        rcases List.mem_append.mp hd with hd | hd
        · exact hseen d hd
        · rw [List.mem_singleton.mp hd]
          exact not_lt.mp hle
      · have := ha.snoc c
        rw [if_neg hle] at this
        exact .inr ⟨a, rfl, rfl, hm, this⟩

/-- The next candidate is the first of the best of those that remain; there is none where none is
above the sentinel. -/
theorem best_spec (M : Mmr α) (candidates selected remaining : List α) :
    (M.best candidates selected remaining = none ∧
        ∀ c ∈ remaining, M.mmr candidates selected c ≤ -10 ^ 9) ∨
      ∃ a, M.best candidates selected remaining = some a ∧ -10 ^ 9 < M.mmr candidates selected a ∧
        FirstMax (M.mmr candidates selected) remaining a := by
  have hnil : ∀ c ∈ ([] : List α), M.mmr candidates selected c ≤ -10 ^ 9 :=
    fun _ hc => absurd hc List.not_mem_nil
  exact better_spec M candidates selected remaining (.inl ⟨rfl, rfl, hnil⟩)

/-- What the loop selects: what it began with, and some of what remained. -/
theorem select_perm (M : Mmr α) (candidates selected remaining : List α) (topK : Int) :
    ∃ rest left, M.select candidates topK selected remaining = selected ++ rest ∧
      (rest ++ left).Perm remaining := by
  fun_induction M.select candidates topK selected remaining with
  | case1 selected remaining hcond hnone => exact ⟨[], remaining, by rw [List.append_nil], .refl _⟩
  | case2 selected remaining hcond b hb ih =>
    obtain ⟨rest, left, hrest, hperm⟩ := ih
    refine ⟨b :: rest, left, by rw [hrest, List.append_assoc, List.singleton_append], ?_⟩
    exact (hperm.cons b).trans (List.perm_cons_erase (M.mem_best hb)).symm
  | case3 selected remaining hcond => exact ⟨[], remaining, by rw [List.append_nil], .refl _⟩

/-! ## Similarities up to a bound -/

/-- The candidates are no more similar than that. -/
def UpTo (M : Mmr α) (candidates : List α) (bound : ℚ) : Prop :=
  ∀ c ∈ candidates, ∀ d ∈ candidates, M.sim (M.vec candidates c) (M.vec candidates d) ≤ bound

omit [DecidableEq α] in
/-- The greatest similarity to what is selected. -/
theorem foldl_max_le {bound : ℚ} (sims : α → ℚ) :
    ∀ (l : List α) {m : ℚ}, m ≤ bound → (∀ a ∈ l, sims a ≤ bound) →
      l.foldl (fun m a => max m (sims a)) m ≤ bound
  | [], _, hm, _ => hm
  | a :: l, _, hm, h =>
    foldl_max_le sims l (max_le hm (h a List.mem_cons_self)) fun b hb =>
      h b (List.mem_cons_of_mem _ hb)

omit [DecidableEq α] in
theorem foldl_max_const {bound : ℚ} {m : ℚ} (hm : m ≤ bound) {l : List α} (hl : l ≠ []) :
    l.foldl (fun m _ => max m bound) m = bound := by
  have hstay : ∀ l : List α, l.foldl (fun m _ => max m bound) bound = bound := fun l => by
    induction l with
    | nil => rfl
    | cons a l ih => rw [List.foldl_cons, max_self, ih]
  obtain ⟨a, l, rfl⟩ := List.exists_cons_of_ne_nil hl
  rw [List.foldl_cons, max_eq_right hm, hstay]

/-- What is left of a candidate's score once the similarity counts for `bound`. -/
def discounted (M : Mmr α) (bound : ℚ) (c : α) : ℚ :=
  M.lambdaMult * M.score c - (1 - M.lambdaMult) * bound

/-- The candidates that are above the sentinel then. -/
def high (M : Mmr α) (bound : ℚ) (candidates : List α) : List α :=
  candidates.filter fun c => -10 ^ 9 < M.discounted bound c

theorem discounted_le_mmr {bound : ℚ} (hb : 0 ≤ bound) (h1 : M.lambdaMult ≤ 1)
    (hsim : M.UpTo candidates bound) {c : α} (hc : c ∈ candidates) (hsel : selected ⊆ candidates) :
    M.discounted bound c ≤ M.mmr candidates selected c := by
  have hmax : M.maxSim candidates selected c ≤ bound :=
    foldl_max_le _ selected hb fun d hd => hsim c hc d (hsel hd)
  have := mul_le_mul_of_nonneg_left hmax (sub_nonneg.mpr h1)
  rw [discounted, mmr]
  linarith

theorem mmr_eq_discounted (M : Mmr α) (candidates : List α) {bound : ℚ} (hb : 0 ≤ bound)
    (hsim : ∀ v w, M.sim v w = bound) (hsel : selected ≠ []) (c : α) :
    M.mmr candidates selected c = M.discounted bound c := by
  have hmax : M.maxSim candidates selected c = bound := by
    simp only [maxSim, hsim]
    exact foldl_max_const hb hsel
  rw [discounted, mmr, hmax]

omit [DecidableEq α] in
/-- While fewer are selected than are above the sentinel, one of those remains. -/
theorem exists_high {bound : ℚ} (hnodup : candidates.Nodup)
    (hlt : selected.length < (M.high bound candidates).length)
    (hperm : (selected ++ remaining).Perm candidates) :
    ∃ c ∈ remaining, -10 ^ 9 < M.discounted bound c := by
  by_contra hnone
  have hsub : M.high bound candidates ⊆ selected := fun c hc => by
    obtain ⟨hmem, hc⟩ := List.mem_filter.mp hc
    rcases List.mem_append.mp (hperm.mem_iff.mpr hmem) with hsel | hrem
    · exact hsel
    · exact absurd ⟨c, hrem, of_decide_eq_true hc⟩ hnone
  exact absurd ((hnodup.filter _).subperm hsub).length_le (not_le.mpr hlt)

/-- So the loop goes on until it has as many as it should. -/
theorem length_select (M : Mmr α) {bound : ℚ} (hb : 0 ≤ bound) (h1 : M.lambdaMult ≤ 1)
    (hsim : M.UpTo candidates bound) {topK : Nat} (hnodup : candidates.Nodup)
    (hhigh : topK ≤ (M.high bound candidates).length)
    (hperm : (selected ++ remaining).Perm candidates) (hlen : selected.length ≤ topK) :
    (M.select candidates topK selected remaining).length = topK := by
  induction hk : topK - selected.length generalizing selected remaining with
  | zero =>
    rw [select, if_neg (by rintro ⟨-, hlt⟩; omega)]
    omega
  | succ k ih =>
    have hlt : selected.length < (M.high bound candidates).length := by omega
    obtain ⟨c, hc, habove⟩ := M.exists_high hnodup hlt hperm
    rw [select, if_pos ⟨List.ne_nil_of_mem hc, by omega⟩]
    split
    · rename_i hnone
      rcases best_spec M candidates selected remaining with ⟨-, hlow⟩ | ⟨a, ha, -⟩
      · have hle : M.discounted bound c ≤ M.mmr candidates selected c :=
          discounted_le_mmr hb h1 hsim (hperm.subset (List.mem_append_right _ hc)) fun d hd =>
            hperm.subset (List.mem_append_left _ hd)
        exact absurd (habove.trans_le hle) (not_lt.mpr (hlow c hc))
      · rw [hnone] at ha
        cases ha
    · rename_i b hbest
      have hperm' : (selected ++ [b] ++ remaining.erase b).Perm candidates := by
        refine List.Perm.trans ?_ hperm
        rw [List.append_assoc, List.singleton_append]
        exact (List.perm_cons_erase (M.mem_best hbest)).symm.append_left selected
      have hl : (selected ++ [b]).length = selected.length + 1 := by simp
      exact ih hperm' (by omega) (by omega)

/-- Where all are as similar as they may be, what the loop adds is above the sentinel. -/
theorem mem_select {bound : ℚ} (hb : 0 ≤ bound) (hsim : ∀ v w, M.sim v w = bound)
    (hsel : selected ≠ []) (topK : Int) :
    ∀ c ∈ M.select candidates topK selected remaining,
      c ∈ selected ∨ -10 ^ 9 < M.discounted bound c := by
  fun_induction M.select candidates topK selected remaining with
  | case1 selected remaining hcond hnone => exact fun c hc => .inl hc
  | case2 selected remaining hcond b hbest ih =>
    intro c hc
    rcases ih (List.append_ne_nil_of_right_ne_nil _ (List.cons_ne_nil _ _)) c hc with hc | hc
    · rcases List.mem_append.mp hc with hc | hc
      · exact .inl hc
      · rw [List.mem_singleton.mp hc, ← M.mmr_eq_discounted candidates hb hsim hsel]
        rcases best_spec M candidates selected remaining with ⟨hnone, -⟩ | ⟨a, ha, habove, -⟩
        · rw [hbest] at hnone
          cases hnone
        · rw [hbest] at ha
          cases ha
          exact .inr habove
    · exact .inr hc
  | case3 selected remaining hcond => exact fun c hc => .inl hc

/-! ## The selection -/

/-- What is asked of a re-ranking: as many as are wanted or as there are, all different and of the
input, and where some are left out, the first of them of the best score. -/
structure Selects (M : Mmr α) (candidates : List α) (topK : Nat) (result : List α) : Prop where
  length : result.length = min topK candidates.length
  nodup : result.Nodup
  mem : ∀ c ∈ result, c ∈ candidates
  first : 1 ≤ topK → topK < candidates.length → ∃ c rest, result = c :: rest ∧
    ∀ d ∈ candidates, M.score d ≤ M.score c

/-- The candidates by their scores, best first. -/
def byScore (M : Mmr α) (candidates : List α) : List α :=
  candidates.insertionSort fun a b => M.score b ≤ M.score a

omit [DecidableEq α] in
theorem byScore_perm (M : Mmr α) (candidates : List α) : (M.byScore candidates).Perm candidates :=
  List.perm_insertionSort ..

omit [DecidableEq α] in
theorem le_head_byScore {first : α} (h : M.byScore candidates = first :: remaining) :
    ∀ d ∈ candidates, M.score d ≤ M.score first := by
  intro d hd
  have htotal : Std.Total fun a b => M.score b ≤ M.score a :=
    ⟨fun a b => le_total (M.score b) (M.score a)⟩
  have htrans : IsTrans α fun a b => M.score b ≤ M.score a := ⟨fun a b c hab hbc => hbc.trans hab⟩
  have hsorted := List.pairwise_insertionSort (fun a b => M.score b ≤ M.score a) candidates
  rw [← byScore, h] at hsorted
  rcases List.mem_cons.mp (h ▸ (M.byScore_perm candidates).mem_iff.mpr hd) with rfl | hmem
  · exact le_refl _
  · exact (List.pairwise_cons.mp hsorted).1 d hmem

/-- The re-ranking where not all candidates are wanted. -/
theorem rerank_eq_select {first : α} {topK : Nat} (hlt : topK < candidates.length)
    (h : M.byScore candidates = first :: remaining) :
    M.rerank candidates topK = M.select candidates topK [first] remaining := by
  have hne : candidates ≠ [] := List.ne_nil_of_length_pos (by omega)
  rw [byScore] at h
  rw [rerank, if_neg (by simp only [not_or]; exact ⟨hne, by omega⟩), h]

theorem rerank_all {topK : Nat} (h : candidates.length ≤ topK) :
    M.rerank candidates topK = candidates := by
  rw [rerank, if_pos (.inr (by omega)), pyTake, if_pos (by omega), Int.toNat_natCast,
    List.take_of_length_le h]

/-- Whatever it selects is of the candidates, and begins with one of the best score. -/
theorem rerank_shape {topK : Nat} (hnodup : candidates.Nodup) (hlt : topK < candidates.length) :
    ∃ first remaining rest, M.byScore candidates = first :: remaining ∧
      M.rerank candidates topK = first :: rest ∧
        M.select candidates topK [first] remaining = first :: rest ∧
      (first :: rest).Nodup ∧ ∀ c ∈ first :: rest, c ∈ candidates := by
  obtain ⟨first, remaining, hby⟩ :
      ∃ first remaining, M.byScore candidates = first :: remaining := by
    refine List.exists_cons_of_length_pos ?_
    rw [(M.byScore_perm candidates).length_eq]
    omega
  obtain ⟨rest, left, hsel, hperm⟩ := M.select_perm candidates [first] remaining topK
  have hall : ((first :: rest) ++ left).Perm candidates :=
    ((hperm.cons first).trans (hby ▸ List.Perm.refl _)).trans (M.byScore_perm candidates)
  refine ⟨first, remaining, rest, hby, (rerank_eq_select hlt hby).trans hsel, hsel,
    ?_, fun c hc => ?_⟩
  · exact (List.nodup_append.mp (hall.nodup_iff.mpr hnodup)).1
  · exact hall.mem_iff.mp (List.mem_append_left _ hc)

/-- The re-ranking with another similarity. -/
def under (M : Mmr α) (sim : List ℚ → List ℚ → ℚ) : Mmr α := { M with sim := sim }

/-- What the re-ranking of different candidates selects, for all similarities of at most `bound`. -/
theorem selects_iff (M : Mmr α) {candidates : List α} (hnodup : candidates.Nodup) (topK : Nat)
    (h0 : 0 ≤ M.lambdaMult) (h1 : M.lambdaMult ≤ 1) {bound : ℚ} (hb : 0 ≤ bound) :
    (∀ sim, (M.under sim).UpTo candidates bound →
        (M.under sim).Selects candidates topK ((M.under sim).rerank candidates topK)) ↔
      candidates.length ≤ topK ∨ topK = 1 ∨
        2 ≤ topK ∧ topK ≤ (M.high bound candidates).length := by
  by_cases hall : candidates.length ≤ topK
  · refine ⟨fun _ => .inl hall, fun _ sim _ => ?_⟩
    rw [rerank_all hall]
    exact ⟨(min_eq_right hall).symm, hnodup, fun _ hc => hc, fun _ hlt => by omega⟩
  · have hlt : topK < candidates.length := not_le.mp hall
    rw [or_iff_right hall]
    constructor
    · intro hselects
      have h := hselects (fun _ _ => bound) fun _ _ _ _ => le_refl _
      obtain ⟨first, remaining, rest, hby, hre, hsel, -, -⟩ :=
        (M.under fun _ _ => bound).rerank_shape hnodup hlt
      rw [hre] at h
      have hlen := h.length
      rw [min_eq_left hlt.le, List.length_cons] at hlen
      rcases rest with _ | ⟨second, rest⟩
      · exact .inl (by simpa using hlen.symm)
      refine .inr ⟨by rw [List.length_cons] at hlen; omega, ?_⟩
      have habove : ∀ c ∈ second :: rest, -10 ^ 9 < M.discounted bound c := fun c hc => by
        have hc' : c ∈ (M.under fun _ _ => bound).select candidates topK [first] remaining := by
          rw [hsel]
          exact List.mem_cons_of_mem _ hc
        refine (mem_select hb (fun _ _ => rfl) (List.cons_ne_nil _ _) topK c hc').resolve_left ?_
        rw [List.mem_singleton]
        rintro rfl
        exact (List.nodup_cons.mp h.nodup).1 hc
      -- the best-scored candidate is above the sentinel where the one after it is
      have hfirst : -10 ^ 9 < M.discounted bound first := by
        refine (habove second List.mem_cons_self).trans_le ?_
        have hscore : M.score second ≤ M.score first :=
          le_head_byScore hby second (h.mem second (List.mem_cons_of_mem _ List.mem_cons_self))
        have := mul_le_mul_of_nonneg_left hscore h0
        rw [discounted, discounted]
        linarith
      have hsub : first :: second :: rest ⊆ M.high bound candidates := fun c hc => by
        refine List.mem_filter.mpr ⟨h.mem c hc, decide_eq_true ?_⟩
        rcases List.mem_cons.mp hc with rfl | hc
        · exact hfirst
        · exact habove c hc
      have hle := (h.nodup.subperm hsub).length_le
      rw [List.length_cons] at hle
      omega
    · intro hcond sim hsim
      obtain ⟨first, remaining, rest, hby, hre, hsel, hdistinct, hmem⟩ :=
        (M.under sim).rerank_shape hnodup hlt
      have hlen : (first :: rest).length = topK := by
        rw [← hsel]
        rcases hcond with rfl | ⟨htwo, hhigh⟩
        · rw [select, if_neg (by rintro ⟨-, hlt⟩; exact absurd hlt (by simp))]
          rfl
        · have hperm : ([first] ++ remaining).Perm candidates := by
            rw [List.singleton_append, ← hby]
            exact (M.under sim).byScore_perm candidates
          exact (M.under sim).length_select hb h1 hsim hnodup hhigh hperm
            (by rw [List.length_singleton]; omega)
      rw [hre]
      exact ⟨by rw [hlen, min_eq_left hlt.le], hdistinct, hmem,
        fun _ _ => ⟨first, rest, rfl, le_head_byScore hby⟩⟩

omit [DecidableEq α] in
/-- There is a bound for what there are finitely many of. -/
theorem exists_bound {β : Type} (f : β → ℚ) (l : List β) :
    ∃ bound, 0 ≤ bound ∧ ∀ a ∈ l, f a ≤ bound := by
  induction l with
  | nil => exact ⟨0, le_refl _, fun _ h => absurd h List.not_mem_nil⟩
  | cons a l ih =>
    obtain ⟨bound, hb, hl⟩ := ih
    refine ⟨max bound (f a), le_max_of_le_left hb, List.forall_mem_cons.mpr ⟨le_max_right _ _, ?_⟩⟩
    exact fun c hc => (hl c hc).trans (le_max_left _ _)

theorem exists_upTo (M : Mmr α) (candidates : List α) :
    ∃ bound, 0 ≤ bound ∧ M.UpTo candidates bound := by
  obtain ⟨bound, hb, h⟩ := exists_bound
    (fun p : α × α => M.sim (M.vec candidates p.1) (M.vec candidates p.2))
    (candidates ×ˢ candidates)
  exact ⟨bound, hb, fun c hc d hd => h (c, d) (List.mem_product.mpr ⟨hc, hd⟩)⟩

omit [DecidableEq α] in
/-- Where similarities count, none is above the sentinel if they are high enough. -/
theorem exists_high_eq_nil (h1 : M.lambdaMult < 1) (candidates : List α) :
    ∃ bound, 0 ≤ bound ∧ M.high bound candidates = [] := by
  obtain ⟨bound, hb, h⟩ := exists_bound
    (fun c => (M.lambdaMult * M.score c + 10 ^ 9) / (1 - M.lambdaMult)) candidates
  refine ⟨bound, hb, List.filter_eq_nil_iff.mpr fun c hc => ?_⟩
  have hle := (div_le_iff₀ (sub_pos.mpr h1)).mp (h c hc)
  rw [decide_eq_true_eq, discounted, not_lt]
  linarith

omit [DecidableEq α] in
/-- Where they do not, only the scores are looked at. -/
theorem high_of_eq_one (h : M.lambdaMult = 1) (bound : ℚ) (candidates : List α) :
    M.high bound candidates = candidates.filter fun c => -10 ^ 9 < M.score c := by
  have hscore : ∀ c, M.discounted bound c = M.score c := fun c => by
    rw [discounted, h]
    ring
  simp only [high, hscore]

/-- What the re-ranking of different candidates selects, whatever the similarities up to a bound
are, and whatever they are at all. -/
theorem mmr_rerank_iff (M : Mmr α) {candidates : List α} (hnodup : candidates.Nodup) (topK : Nat)
    (h0 : 0 ≤ M.lambdaMult) (h1 : M.lambdaMult ≤ 1) :
    (∀ bound, 0 ≤ bound →
      ((∀ sim, (M.under sim).UpTo candidates bound →
          (M.under sim).Selects candidates topK ((M.under sim).rerank candidates topK)) ↔
        candidates.length ≤ topK ∨ topK = 1 ∨
          2 ≤ topK ∧ topK ≤ (M.high bound candidates).length)) ∧
    ((∀ sim, (M.under sim).Selects candidates topK ((M.under sim).rerank candidates topK)) ↔
      candidates.length ≤ topK ∨ topK = 1 ∨ 2 ≤ topK ∧ M.lambdaMult = 1 ∧
        topK ≤ (candidates.filter fun c => -10 ^ 9 < M.score c).length) := by
  refine ⟨fun bound hb => M.selects_iff hnodup topK h0 h1 hb, fun h => ?_, fun h sim => ?_⟩
  · have hbound : ∀ bound, 0 ≤ bound → candidates.length ≤ topK ∨ topK = 1 ∨
        2 ≤ topK ∧ topK ≤ (M.high bound candidates).length := fun bound hb =>
      (M.selects_iff hnodup topK h0 h1 hb).mp fun sim _ => h sim
    rcases hbound 0 (le_refl _) with hall | hone | ⟨htwo, hhigh⟩
    · exact .inl hall
    · exact .inr (.inl hone)
    · rcases h1.lt_or_eq with hlt | heq
      · obtain ⟨bound, hb, hnil⟩ := exists_high_eq_nil hlt candidates
        have := hbound bound hb
        rw [hnil, List.length_nil] at this
        exact this.imp_right fun h => by omega
      · rw [high_of_eq_one heq] at hhigh
        exact .inr (.inr ⟨htwo, heq, hhigh⟩)
  · obtain ⟨bound, hb, hsim⟩ := (M.under sim).exists_upTo candidates
    refine (M.selects_iff hnodup topK h0 h1 hb).mpr ?_ sim hsim
    refine h.imp_right fun h => h.imp_right fun ⟨htwo, heq, hhigh⟩ => ⟨htwo, ?_⟩
    rwa [high_of_eq_one heq]

/-- Candidates that are their own scores, all alike. -/
def plain : Mmr ℚ := ⟨id, fun _ => none, fun _ _ => 0, 1 / 2⟩

theorem mmr_rerank_two : plain.Selects [3, 1, 2] 2 (plain.rerank [3, 1, 2] (2 : Nat)) := by
  have hnodup : ([3, 1, 2] : List ℚ).Nodup := by decide
  have h := (mmr_rerank_iff plain hnodup 2 (by decide +kernel) (by decide +kernel)).1 1 zero_le_one
  refine h.mpr (.inr (.inr ⟨Nat.le_refl _, by decide +kernel⟩)) plain.sim ?_
  exact fun _ _ _ _ => zero_le_one

theorem rerank_none : plain.rerank [0] (0 : Nat) = [0] := by
  have hby : plain.byScore [0] = [0] := by decide +kernel
  rw [rerank_eq_select (by decide) hby, select, if_neg (by decide)]

theorem rerank_far :
    plain.rerank [-10 ^ 10, -2 * 10 ^ 10, -3 * 10 ^ 10] (2 : Nat) = [-10 ^ 10] := by
  have hbest : plain.best [-10 ^ 10, -2 * 10 ^ 10, -3 * 10 ^ 10] [-10 ^ 10]
      [-2 * 10 ^ 10, -3 * 10 ^ 10] = none := by
    decide +kernel
  have hby : plain.byScore [-10 ^ 10, -2 * 10 ^ 10, -3 * 10 ^ 10] =
      [-10 ^ 10, -2 * 10 ^ 10, -3 * 10 ^ 10] := by
    decide +kernel
  rw [rerank_eq_select (by decide) hby, select, if_pos (by decide)]
  split
  · rfl
  · rename_i h
    rw [hbest] at h
    cases h

/-- None is asked for, and one is selected; two are asked for, and one is selected, since no
negated distance of the others is above the sentinel. -/
theorem rerank_miscounts : ¬ plain.Selects [0] 0 (plain.rerank [0] (0 : Nat)) ∧
    ¬ plain.Selects [-10 ^ 10, -2 * 10 ^ 10, -3 * 10 ^ 10] 2
      (plain.rerank [-10 ^ 10, -2 * 10 ^ 10, -3 * 10 ^ 10] (2 : Nat)) := by
  rw [rerank_none, rerank_far]
  exact ⟨fun h => absurd h.length (by decide), fun h => absurd h.length (by decide)⟩

end Vsector.Query.Mmr
