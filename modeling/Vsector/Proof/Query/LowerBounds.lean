import Vsector.Framework.Digits
import Vsector.Proof.Query.ShardedSearch

/-!
# Lower bounds

`$gte` compares the texts of the value and the bound. For integers the order
of the texts is that of the numbers where `TextOrdered` says so, and a query
with a lower bound finds what it should, and nothing else, exactly if all
values are so ordered against it (`lower_bounds_numeric_iff`).
-/

namespace Vsector.Query

open Framework Models Storage Sharding Index Ingest Infra FlatIndex

variable {X : Externals}

/-! ## The texts of integers -/

/-- Where the decimal texts of two integers compare as the integers do: a sign comes before every
digit. -/
def TextOrdered (value bound : Int) : Prop :=
  (0 ≤ value → 0 ≤ bound → KeepsOrder value.toNat bound.toNat) ∧
    (value < 0 → bound < 0 → ReversesOrder value.natAbs bound.natAbs)

instance (value bound : Int) : Decidable (TextOrdered value bound) :=
  inferInstanceAs (Decidable (_ ∧ _))

theorem toList_toString_of_nonneg {n : Int} (h : 0 ≤ n) :
    (toString n).toList = Nat.toDigits 10 n.toNat := by
  rw [show toString n = n.repr from rfl, Int.repr_eq_if, if_pos h, Nat.toList_repr]

theorem toList_toString_of_neg {n : Int} (h : n < 0) :
    (toString n).toList = '-' :: Nat.toDigits 10 n.natAbs := by
  rw [show toString n = n.repr from rfl, Int.repr_eq_if, if_neg (Int.not_le.mpr h),
    String.toList_append, Nat.toList_repr, show (-n).toNat = n.natAbs by omega]
  rfl

theorem sign_lt_toDigits (ds : List Char) (n : Nat) : '-' :: ds < Nat.toDigits 10 n := by
  rcases hn : Nat.toDigits 10 n with _ | ⟨c, cs⟩
  · exact absurd hn Nat.toDigits_ne_nil
  · have hc : c.isDigit = true :=
      Nat.isDigit_of_mem_toDigits (by decide) (by decide) (hn ▸ List.mem_cons_self)
    have hlt : '-' < c := by
      have hzero : '0' ≤ c := by
        rw [Char.isDigit, Bool.and_eq_true, decide_eq_true_iff] at hc
        exact hc.1
      exact lt_of_lt_of_le (by decide) hzero
    exact List.cons_lt_cons_iff.mpr (.inl hlt)

theorem toString_lt_iff (value bound : Int) :
    (toString value < toString bound ↔ value < bound) ↔ TextOrdered value bound := by
  rw [String.lt_iff_toList_lt, TextOrdered]
  rcases lt_or_ge value 0 with hv | hv
  · rcases lt_or_ge bound 0 with hb | hb
    · have hreverse : (toString value).toList < (toString bound).toList ↔
          Nat.toDigits 10 value.natAbs < Nat.toDigits 10 bound.natAbs := by
        rw [toList_toString_of_neg hv, toList_toString_of_neg hb, List.cons_lt_cons_iff]
        simp
      have habs : value < bound ↔ bound.natAbs < value.natAbs := by omega
      rw [hreverse, habs, toDigits_reverses_iff]
      exact ⟨fun h => ⟨fun _ _ => by omega, fun _ _ => h⟩, fun h => h.2 hv hb⟩
    · rw [toList_toString_of_neg hv, toList_toString_of_nonneg hb]
      exact iff_of_true (iff_of_true (sign_lt_toDigits _ _) (by omega))
        ⟨fun _ _ => by omega, fun _ _ => by omega⟩
  · rcases lt_or_ge bound 0 with hb | hb
    · rw [toList_toString_of_nonneg hv, toList_toString_of_neg hb]
      exact iff_of_true (iff_of_false (List.lt_asymm (sign_lt_toDigits _ _)) (by omega))
        ⟨fun _ _ => by omega, fun _ _ => by omega⟩
    · have hnat : value < bound ↔ value.toNat < bound.toNat := by omega
      rw [toList_toString_of_nonneg hv, toList_toString_of_nonneg hb, hnat, toDigits_keeps_iff]
      exact ⟨fun h => ⟨fun _ _ => h, fun _ _ => by omega⟩, fun h => h.1 hv hb⟩

/-! ## The filter -/

/-- `{key: {"$gte": bound}}`. -/
def atLeast (key : String) (bound : Int) : Filter := [(key, .obj [("$gte", .int bound)])]

theorem parseFilter_atLeast (md : Metadata) (key : String) (bound : Int) :
    ∃ b, parseFilter X md (atLeast key bound) = .ok b := by
  rw [parseFilter, atLeast, allFields, allFields]
  rcases hmet : fieldMet X md key (.obj [("$gte", .int bound)]) with exc | _ | _
  · cases hmet
  · exact ⟨false, rfl⟩
  · exact ⟨true, rfl⟩

/-- What is documented of `str` of an `int`. -/
def WritesInts (X : Externals) : Prop := ∀ n : Int, X.jsonStr (.int n) = toString n

theorem parseFilter_int (hstr : WritesInts X) {md : Metadata} {key : String} {value : Int}
    (hvalue : field md key = .int value) (bound : Int) :
    parseFilter X md (atLeast key bound) = .ok (!decide (toString value < toString bound)) := by
  have hmet : fieldMet X md key (.obj [("$gte", .int bound)]) =
      .ok (!decide (toString value < toString bound)) := by
    unfold fieldMet
    rw [hvalue, ← hstr, ← hstr]
    rfl
  rw [parseFilter, atLeast, allFields, allFields, hmet]
  rcases decide (toString value < toString bound) <;> rfl

/-! ## One shard -/

section

variable {K : Type} [Field K] [LinearOrder K] [IsStrictOrderedRing K]
  {score : List PyFloat → List PyFloat → K} {pick : List K → Int → List Nat} {i : FlatIndex}
  {query : List PyFloat} {topK : Int} {filterFn : Option (Metadata → Except Exc Bool)}
  {results : List (IndexResult K)}

/-- What a search returns is a row that the filter accepts: the others sink. -/
theorem mem_search (h : i.search (exactScoring score) pick query topK filterFn = .ok results)
    {a : IndexResult K} (ha : a ∈ results) :
    ∃ row ∈ i.rows, row.id = a.id ∧ accepts filterFn row.metadata = true := by
  by_cases hrows : i.rows = []
  · rw [search, if_pos hrows] at h
    cases h
    cases ha
  · rw [search_eq hrows (search_ok_iff.mp ⟨results, h⟩)] at h
    cases h
    obtain ⟨hpicked, hkept⟩ := List.mem_filter.mp ha
    obtain ⟨j, -, hj⟩ := List.mem_filterMap.mp hpicked
    obtain ⟨row, hrow, rfl⟩ := List.mem_map.mp (List.mem_of_getElem? hj)
    refine ⟨row, hrow, rfl, by_contra fun hrejected => ?_⟩
    have hscore : (result (exactScoring score) query (some (accepts filterFn)) row).score =
        -10 ^ 9 := if_neg hrejected
    rw [not_sunk_iff, hscore] at hkept
    norm_num at hkept

omit [IsStrictOrderedRing K] in
/-- A search for all rows returns every one that the filter accepts and that does not sink by
itself. -/
theorem search_all (hpick : PicksBest pick) (htop : i.rows.length ≤ topK)
    (h : i.search (exactScoring score) pick query topK filterFn = .ok results) :
    results.length ≤ i.rows.length ∧
      ∀ row ∈ i.rows, accepts filterFn row.metadata = true → -10 ^ 8 < score query row.vector →
        ∃ a ∈ results, a.id = row.id := by
  by_cases hrows : i.rows = []
  · rw [search, if_pos hrows] at h
    cases h
    exact ⟨Nat.zero_le _, fun row hrow => by rw [hrows] at hrow; cases hrow⟩
  · rw [search_eq hrows (search_ok_iff.mp ⟨results, h⟩)] at h
    cases h
    have hpos := List.length_pos_of_ne_nil hrows
    let scored := i.rows.map (result (exactScoring score) query (some (accepts filterFn)))
    have hpicked : Top IndexResult.score topK.toNat scored _ :=
      top_picked hpick (by omega) (mt List.map_eq_nil_iff.mp hrows)
    have hperm := hpicked.perm_of_length_le (by rw [List.length_map]; omega)
    constructor
    · exact (List.length_filter_le _ _).trans (by rw [hperm.length_eq, List.length_map])
    · intro row hrow haccepts hscore
      refine ⟨result (exactScoring score) query (some (accepts filterFn)) row,
        List.mem_filter.mpr ⟨hperm.mem_iff.mpr (List.mem_map_of_mem hrow), ?_⟩, rfl⟩
      have hresult : (result (exactScoring score) query (some (accepts filterFn)) row).score =
          score query row.vector :=
        if_pos haccepts
      rw [not_sunk_iff, hresult]
      exact hscore

end

variable {K : Type} [Field K] [LinearOrder K] {score : List PyFloat → List PyFloat → K}
  {pick : List K → Int → List Nat} {svc : IngestService FlatIndex} {ns key : String} {bound : Int}
  {r : QueryRequest}

/-- The rows of a shard; a shard that is not loaded has none. -/
def shardRows (svc : IngestService FlatIndex) (ns : String) (shard : Shard) : List FlatRow :=
  ((svc.shards.get? (IngestService.ctxKey ns shard.id)).map fun ctx => ctx.index.rows).getD []

theorem enrich_id {σ : Type} {ctx : ShardContext FlatIndex} {a : AnnResult σ} {c : Candidate σ}
    (h : enrich X ctx r a = .ok c) : c.id = a.id := by
  unfold enrich at h
  cases hv : r.includeVector with
  | false =>
    rw [hv] at h
    cases h
    rfl
  | true =>
    rw [hv, if_pos rfl] at h
    rcases hget : ctx.segments.get X a.id with exc | _ | rec
    all_goals rw [hget] at h; cases h; try rfl

theorem mem_mapM {α β : Type} {f : α → Except Exc β} {l : List α} {bs : List β}
    (h : l.mapM f = .ok bs) {b : β} (hb : b ∈ bs) : ∃ a ∈ l, f a = .ok b := by
  induction l generalizing bs with
  | nil =>
    cases h
    cases hb
  | cons a l ih =>
    rw [List.mapM_cons] at h
    rcases ha : f a with exc | b'
    · rw [ha] at h
      cases h
    · rw [ha] at h
      rcases hl : l.mapM f with exc | bs'
      · rw [hl] at h
        cases h
      · rw [hl] at h
        cases h
        rcases List.mem_cons.mp hb with rfl | hb
        · exact ⟨a, List.mem_cons_self, ha⟩
        · obtain ⟨a', ha', hfa⟩ := ih hl hb
          exact ⟨a', List.mem_cons_of_mem _ ha', hfa⟩

/-- A candidate is a row of the shard that the filter accepts. -/
theorem mem_searchShard [IsStrictOrderedRing K] {shard : Shard} {found : List (Candidate K) × Nat}
    (h : searchShard X (flatEngine (exactScoring score) pick) svc r shard = .ok found)
    {c : Candidate K} (hc : c ∈ found.1) :
    ∃ row ∈ shardRows svc r.ns shard, row.id = c.id ∧
      accepts (r.filterFn X) row.metadata = true := by
  unfold searchShard at h
  rcases hget : svc.shards.get? (IngestService.ctxKey r.ns shard.id) with _ | ctx
  · rw [hget] at h
    cases h
    cases hc
  · rw [hget] at h
    dsimp only [flatEngine] at h
    rw [show (if r.filters.isEmpty then none else some fun md => parseFilter X md r.filters) =
      r.filterFn X from rfl] at h
    rcases hsearch : ctx.index.search (exactScoring score) pick r.vector r.topK
      (r.filterFn X) with exc | results
    · rw [hsearch] at h
      cases h
    · rw [hsearch] at h
      dsimp only [Except.map] at h
      rcases hcs : (results.map IndexResult.toAnn).mapM (enrich X ctx r) with exc | cs
      · rw [hcs] at h
        cases h
      · rw [hcs] at h
        cases h
        obtain ⟨a, ha, hac⟩ := mem_mapM hcs hc
        obtain ⟨a', ha', rfl⟩ := List.mem_map.mp ha
        obtain ⟨row, hrow, hid, haccepts⟩ := mem_search hsearch ha'
        refine ⟨row, ?_, hid.trans (enrich_id hac).symm, haccepts⟩
        rw [shardRows, hget]
        exact hrow

/-- What `search_shard` makes of a result where the vectors are not asked for. -/
def withoutVector {σ : Type} (r : QueryRequest) (a : AnnResult σ) : Candidate σ :=
  ⟨a.id, a.score, if r.includeMetadata then a.metadata else [], none⟩

/-- A shard that is asked for all of its rows finds every one that the filter accepts and that does
not sink by itself. -/
theorem searchShard_all (hpick : PicksBest pick) (hplain : r.includeVector = false) {shard : Shard}
    (htop : (shardRows svc r.ns shard).length ≤ r.topK)
    (hfilters : Filters (r.filterFn X) (shardRows svc r.ns shard)) :
    ∃ found, searchShard X (flatEngine (exactScoring score) pick) svc r shard = .ok found ∧
      found.1.length ≤ (shardRows svc r.ns shard).length ∧
      ∀ row ∈ shardRows svc r.ns shard, accepts (r.filterFn X) row.metadata = true →
        -10 ^ 8 < score r.vector row.vector → ∃ c ∈ found.1, c.id = row.id := by
  unfold searchShard
  rcases hget : svc.shards.get? (IngestService.ctxKey r.ns shard.id) with _ | ctx
  · refine ⟨([], 0), rfl, Nat.zero_le _, fun row hrow => ?_⟩
    rw [shardRows, hget] at hrow
    cases hrow
  · have hrows : shardRows svc r.ns shard = ctx.index.rows := by rw [shardRows, hget]; rfl
    rw [hrows] at htop hfilters ⊢
    have hsearch : ∃ results, ctx.index.search (exactScoring score) pick r.vector r.topK
        (r.filterFn X) = .ok results :=
      search_ok_iff.mpr hfilters
    obtain ⟨results, hsearch⟩ := hsearch
    obtain ⟨hlength, hfinds⟩ := search_all hpick htop hsearch
    have henrich : (results.map IndexResult.toAnn).mapM (enrich X ctx r) =
        .ok ((results.map IndexResult.toAnn).map (withoutVector r)) :=
      ShardRouter.mapM_ok fun a _ => if_neg (by rw [hplain]; exact Bool.false_ne_true)
    refine ⟨((results.map IndexResult.toAnn).map (withoutVector r),
      (results.map IndexResult.toAnn).length), ?_, ?_, ?_⟩
    · dsimp only [flatEngine]
      rw [show (if r.filters.isEmpty then none else some fun md => parseFilter X md r.filters) =
        r.filterFn X from rfl, hsearch]
      dsimp only [Except.map]
      rw [henrich]
    · rw [List.length_map, List.length_map]
      exact hlength
    · intro row hrow haccepts hscore
      obtain ⟨a, ha, hid⟩ := hfinds row hrow haccepts hscore
      exact ⟨withoutVector r a.toAnn, List.mem_map_of_mem (List.mem_map_of_mem ha), hid⟩

/-! ## Queries -/

/-- The rows that a query of the namespace goes over. -/
def searchedRows (svc : IngestService FlatIndex) (ns : String) : List FlatRow :=
  (svc.router.routeForQuery ns).flatMap (shardRows svc ns)

omit [Field K] in
theorem mem_ranked {S : Scoring K} {found : List (List (Candidate K) × Nat)} {c : Candidate K}
    (hc : c ∈ ranked (flatEngine S pick) r found) : ∃ f ∈ found, c ∈ f.1 := by
  have htake : ∀ {l : List (Candidate K)} {k : Int}, c ∈ pyTake l k → c ∈ l := by
    intro l k h
    rw [pyTake] at h
    split at h <;> exact List.mem_of_mem_take h
  have hsorted := htake (htake hc)
  exact List.mem_flatMap.mp ((List.perm_insertionSort _ _).mem_iff.mp hsorted)

omit [Field K] in
/-- What is not answered from the cache is found in a shard. -/
theorem mem_answer {S : Scoring K} {cache : TieredCache (QueryAnswer K)} {now : ℚ}
    (hmiss : (cache.getQuery X now r.cacheQuery).2 = none) {tookMs : Int} {timedOut : Bool}
    {answer : QueryAnswer K}
    (h : (query X (flatEngine S pick) svc cache now tookMs timedOut r).2 = .ok answer)
    {c : Candidate K} (hc : c ∈ answer.results) :
    ∃ shard ∈ svc.router.routeForQuery r.ns,
      ∃ found, searchShard X (flatEngine S pick) svc r shard = .ok found ∧
      c ∈ found.1 := by
  unfold query beginQuery at h
  rcases hns : svc.settings.metadata.get? r.ns with _ | settings
  · rw [hns] at h
    cases h
  · rw [hns] at h
    dsimp only at h
    by_cases hlength : r.vector.length ≠ settings.dimension
    · rw [if_pos hlength] at h
      cases h
    · rw [if_neg hlength] at h
      rcases hq : cache.getQuery X now r.cacheQuery with ⟨cache', cached⟩
      rw [hq] at hmiss h
      cases hmiss
      rcases hroute : svc.router.routeForQuery r.ns with _ | ⟨shard, shards⟩
      · rw [hroute] at h
        cases h
        cases hc
      · rw [hroute] at h
        dsimp only [endQuery] at h
        rcases hfan : if timedOut = true then .ok []
          else fanOut X (flatEngine S pick) svc r (shard :: shards)
          with exc | found
        · rw [hfan] at h
          cases h
        · rw [hfan] at h
          cases h
          have hranked : c ∈ ranked (flatEngine S pick) r found := hc
          obtain ⟨f, hf, hcf⟩ := mem_ranked hranked
          cases timedOut with
          | true =>
            cases hfan
            cases hf
          | false =>
            obtain ⟨s, hs, hsf⟩ := mem_mapM hfan hf
            exact ⟨s, hs, f, hsf, hcf⟩

theorem shardRows_length_le {shard : Shard} (h : shard ∈ svc.router.routeForQuery ns) :
    (shardRows svc ns shard).length ≤ (searchedRows svc ns).length := by
  rw [searchedRows, List.flatMap_def]
  exact (List.sublist_flatten_of_mem (List.mem_map_of_mem h)).length_le

/-- The query for all rows of the namespace. -/
def everyRow (svc : IngestService FlatIndex) (ns : String) (vector : List PyFloat)
    (filters : Filter) : QueryRequest :=
  ⟨ns, vector, (searchedRows svc ns).length, none, filters, true, false, none⟩

/-- It returns every one that the filter accepts and that does not sink by itself. -/
theorem query_everyRow (hpick : PicksBest pick) {settings : Namespace}
    (hsettings : svc.settings.metadata.get? ns = some settings) {vector : List PyFloat}
    (hlength : vector.length = settings.dimension) {filters : Filter}
    (hfilters : Filters ((everyRow svc ns vector filters).filterFn X) (searchedRows svc ns))
    {row : FlatRow} (hrow : row ∈ searchedRows svc ns)
    (haccepts : accepts ((everyRow svc ns vector filters).filterFn X) row.metadata = true)
    (hscore : -10 ^ 8 < score vector row.vector) :
    ∃ answer, (query X (flatEngine (exactScoring score) pick) svc ⟨60, ∅, none⟩ 0 0 false
        (everyRow svc ns vector filters)).2 = .ok answer ∧
          row.id ∈ answer.results.map Candidate.id := by
  have hshard : ∀ s ∈ svc.router.routeForQuery ns, ∃ found,
      searchShard X (flatEngine (exactScoring score) pick) svc (everyRow svc ns vector filters)
        s = .ok found ∧
        found.1.length ≤ (shardRows svc ns s).length ∧
        ∀ row ∈ shardRows svc ns s, accepts ((everyRow svc ns vector filters).filterFn X)
          row.metadata = true →
          -10 ^ 8 < score vector row.vector → ∃ c ∈ found.1, c.id = row.id := fun s hs =>
    searchShard_all hpick rfl (Int.ofNat_le.mpr (shardRows_length_le hs)) fun f hf row hrow =>
      hfilters f hf row (List.mem_flatMap.mpr ⟨s, hs, hrow⟩)
  choose! found hfound using hshard
  have hfan : fanOut X (flatEngine (exactScoring score) pick) svc (everyRow svc ns vector filters)
      (svc.router.routeForQuery ns) = .ok ((svc.router.routeForQuery ns).map found) :=
    ShardRouter.mapM_ok fun s hs => (hfound s hs).1
  have hquery : ((query X (flatEngine (exactScoring score) pick) svc ⟨60, ∅, none⟩ 0 0 false
        (everyRow svc ns vector filters)).2.map fun answer => answer.results.map Candidate.id) =
      (fanOut X (flatEngine (exactScoring score) pick) svc (everyRow svc ns vector filters)
        (svc.router.routeForQuery ns)).map fun found =>
          (ranked (flatEngine (exactScoring score) pick) (everyRow svc ns vector filters) found).map
            Candidate.id :=
    query_of_miss (flatEngine (exactScoring score) pick) rfl hsettings hlength rfl 0
  rw [hfan] at hquery
  rcases hanswer : (query X (flatEngine (exactScoring score) pick) svc ⟨60, ∅, none⟩ 0 0 false
      (everyRow svc ns vector filters)).2 with exc | answer
  · rw [hanswer] at hquery
    cases hquery
  · rw [hanswer] at hquery
    have hids := Except.ok.inj hquery
    refine ⟨answer, rfl, ?_⟩
    dsimp only at hids
    rw [hids]
    -- there is room for all candidates
    have hpos : 1 ≤ (everyRow svc ns vector filters).topK :=
      Int.ofNat_le.mpr (List.length_pos_of_mem hrow)
    have htop := top_ranked pick (exactScoring score) hpos ((svc.router.routeForQuery ns).map found)
    have hcandidates : ((svc.router.routeForQuery ns).map found).flatMap Prod.fst =
        (svc.router.routeForQuery ns).flatMap fun s => (found s).1 := List.flatMap_map ..
    have hle : (((svc.router.routeForQuery ns).map found).flatMap Prod.fst).length ≤
        (everyRow svc ns vector filters).topK.toNat := by
      rw [hcandidates, everyRow, Int.toNat_natCast, searchedRows, List.length_flatMap,
        List.length_flatMap]
      exact List.sum_le_sum fun s hs => (hfound s hs).2.1
    obtain ⟨s, hs, hrow⟩ := List.mem_flatMap.mp hrow
    obtain ⟨c, hc, hid⟩ := (hfound s hs).2.2 row hrow haccepts hscore
    rw [← hid]
    refine List.mem_map_of_mem ((htop.perm_of_length_le hle).mem_iff.mpr ?_)
    rw [hcandidates]
    exact List.mem_flatMap.mpr ⟨s, hs, hc⟩

/-- A query with a lower bound leaves out no value that is at least the bound, and returns none
that is below. -/
structure LowerBoundIsNumeric (X : Externals) (score : List PyFloat → List PyFloat → K)
    (pick : List K → Int → List Nat) (svc : IngestService FlatIndex) (ns key : String)
    (bound : Int) : Prop where
  keeps : ∀ row ∈ searchedRows svc ns, ∀ value : Int, field row.metadata key = .int value →
    bound ≤ value →
    parseFilter X row.metadata (atLeast key bound) = .ok true
  returns : ∀ (r : QueryRequest) (cache : TieredCache (QueryAnswer K)) (now : ℚ) (tookMs : Int)
    (timedOut : Bool)
    (answer : QueryAnswer K), r.ns = ns → r.filters = atLeast key bound →
      (cache.getQuery X now r.cacheQuery).2 = none →
    (query X (flatEngine (exactScoring score) pick) svc cache now tookMs timedOut r).2 =
      .ok answer →
    ∀ row ∈ searchedRows svc ns, ∀ value : Int, field row.metadata key = .int value →
      value < bound →
      row.id ∉ answer.results.map Candidate.id

theorem accepts_atLeast (hstr : WritesInts X) (hr : r.filters = atLeast key bound) {md : Metadata}
    {value : Int} (hvalue : field md key = .int value) :
    accepts (r.filterFn X) md = !decide (toString value < toString bound) := by
  rw [QueryRequest.filterFn, hr, if_neg (by rw [atLeast]; exact Bool.false_ne_true),
    accepts, Option.all_some]
  show (parseFilter X md (atLeast key bound)).toOption.getD false = _
  rw [parseFilter_int hstr hvalue]
  rfl

theorem filters_atLeast (hr : r.filters = atLeast key bound) (rows : List FlatRow) :
    Filters (r.filterFn X) rows := by
  intro f hf row _
  rw [QueryRequest.filterFn, hr, if_neg (by rw [atLeast]; exact Bool.false_ne_true)] at hf
  cases hf
  exact parseFilter_atLeast row.metadata key bound

/-- A lower bound is numeric exactly if the texts of all values are ordered against that of the
bound as the numbers are. -/
theorem lower_bounds_numeric_iff [IsStrictOrderedRing K] (hstr : WritesInts X)
    (hpick : PicksBest pick) {settings : Namespace}
    (hsettings : svc.settings.metadata.get? ns = some settings)
    (hids : ((searchedRows svc ns).map FlatRow.id).Nodup)
    (hfound : ∀ row ∈ searchedRows svc ns, ∃ vector, vector.length = settings.dimension ∧
      -10 ^ 8 < score vector row.vector)
    (key : String) (bound : Int) :
    LowerBoundIsNumeric X score pick svc ns key bound ↔
      ∀ row ∈ searchedRows svc ns, ∀ value : Int, field row.metadata key = .int value →
        TextOrdered value bound := by
  constructor
  · rintro ⟨hkeeps, hreturns⟩ row hrow value hvalue
    rw [← toString_lt_iff]
    rcases Int.lt_or_le value bound with hlt | hle
    · refine iff_of_true (by_contra fun htext => ?_) hlt
      obtain ⟨vector, hlength, hscore⟩ := hfound row hrow
      have haccepts : accepts ((everyRow svc ns vector (atLeast key bound)).filterFn X)
          row.metadata = true := by
        rw [accepts_atLeast hstr rfl hvalue, decide_eq_false htext]
        rfl
      obtain ⟨answer, hanswer, hmem⟩ :=
        query_everyRow hpick hsettings hlength (filters_atLeast rfl _) hrow haccepts hscore
      exact hreturns _ _ _ _ _ answer rfl rfl rfl hanswer row hrow value hvalue hlt hmem
    · have htext := hkeeps row hrow value hvalue hle
      rw [parseFilter_int hstr hvalue] at htext
      refine iff_of_false (fun hlt => ?_) (Int.not_lt.mpr hle)
      rw [decide_eq_true hlt] at htext
      cases htext
  · intro hordered
    refine ⟨fun row hrow value hvalue hle => ?_, ?_⟩
    · have htext := mt ((toString_lt_iff value bound).mpr (hordered row hrow value hvalue)).mp
        (Int.not_lt.mpr hle)
      rw [parseFilter_int hstr hvalue, decide_eq_false htext]
      rfl
    · rintro r cache now tookMs timedOut answer rfl hr hmiss hanswer row hrow value hvalue hlt hmem
      obtain ⟨c, hc, hid⟩ := List.mem_map.mp hmem
      obtain ⟨s, hs, found, hsearch, hcf⟩ := mem_answer hmiss hanswer hc
      obtain ⟨row', hrow', hid', haccepts⟩ := mem_searchShard hsearch hcf
      -- the record with this id is the row
      have hsame : row' = row :=
        List.inj_on_of_nodup_map hids (List.mem_flatMap.mpr ⟨s, hs, hrow'⟩) hrow (hid'.trans hid)
      have htext := ((toString_lt_iff value bound).mpr (hordered row hrow value hvalue)).mpr hlt
      rw [hsame, accepts_atLeast hstr hr hvalue, decide_eq_true htext] at haccepts
      cases haccepts

/-! Prices 12 and 17, by the inner product. -/

private def decimal : Externals :=
  { fieldwise with
    jsonStr := fun value => match value with
      | .int n => toString n
      | _ => "" }

private def pricedRows : List FlatRow :=
  [⟨"a", [.finite 1], [("price", .int 12)]⟩, ⟨"b", [.finite 3], [("price", .int 17)]⟩]

private def pricedShard : Shard := ⟨"s-0", "docs", "node-1", .active, 2, 50000000, [], 1⟩

private def priced : IngestService FlatIndex where
  settings := ⟨Dict.set ∅ "docs" ⟨"docs", 1, .dotProduct, .flat, 1⟩, 10000⟩
  router := ⟨(InMemoryEtcd.init none).put pricedShard, none⟩
  nodeId := some "node-1"
  roots := ∅
  replicator := .init ∅
  replicationStats := ∅
  shards := Dict.set ∅ (IngestService.ctxKey "docs" "s-0")
    { shard := pricedShard
      ns := ⟨"docs", 1, .dotProduct, .flat, 1⟩
      wal := .init []
      segments := .init 10 ∅ ∅
      index := ⟨1, pricedRows⟩
      lifecycle := ⟨0, 0⟩
      recovery := ⟨[], [], 0, 0⟩
      tombstones := ∅ }
  idempotency := ∅

/-- From 15 on, the second is found and the first is not. -/
theorem price_from_15 : LowerBoundIsNumeric decimal inner sortedPick priced "docs" "price" 15 := by
  have hsettings : priced.settings.metadata.get? "docs" = some ⟨"docs", 1, .dotProduct, .flat, 1⟩ :=
    rfl
  have hfound : ∀ row ∈ searchedRows priced "docs", ∃ vector : List PyFloat, vector.length = 1 ∧
      -10 ^ 8 < inner vector row.vector := by
    intro row hrow
    refine ⟨[.finite 1], rfl, ?_⟩
    have hmem : row ∈ pricedRows := hrow
    rcases List.mem_cons.mp hmem with rfl | hmem
    · decide +kernel
    · cases List.mem_singleton.mp hmem
      decide +kernel
  refine (lower_bounds_numeric_iff (fun _ => rfl) picksBest_sortedPick hsettings (by decide) hfound
    "price" 15).mpr ?_
  intro row hrow value hvalue
  have hmem : row ∈ pricedRows := hrow
  rcases List.mem_cons.mp hmem with rfl | hmem
  · cases hvalue
    decide
  · cases List.mem_singleton.mp hmem
    cases hvalue
    decide

/-- The text of 12 is below that of 9. -/
theorem price_12_missed :
    ¬ LowerBoundIsNumeric decimal inner sortedPick priced "docs" "price" 9 := by
  intro h
  have hkept := h.keeps ⟨"a", [.finite 1], [("price", .int 12)]⟩ List.mem_cons_self
    12 rfl (by decide)
  have hmissed : parseFilter decimal [("price", .int 12)] (atLeast "price" 9) = .ok false :=
    by decide
  rw [hmissed] at hkept
  cases hkept

end Vsector.Query
