import Vsector.Framework.Dict

/-!
# Dictionaries in a key space

One flat store of texts by key may hold several dictionaries, each under a
prefix of its own and with its values encoded (`HoldsUnder`). Binding and
removing a key there is binding and removing it in the dictionary; it leaves
alone what is under prefixes of which neither begins with the other
(`Apart`). What is listed under a prefix is the dictionary's values, in an
order of the store's own.
-/

namespace Framework

variable {V W : Type*} {p q : String} {f : V → W} {kv : Dict String W} {d : Dict String V}

/-- Whether a key begins with `p`. -/
def Under (p : String) (k : String) : Prop := p.toList <+: k.toList

instance : DecidablePred (Under p) := fun k => inferInstanceAs (Decidable (p.toList <+: k.toList))

/-- The values of the keys that begin with `p`. -/
def valuesUnder (p : String) (kv : Dict String W) : List W :=
  (kv.entries.filter fun b => Under p b.1).map Prod.snd

/-- No key begins with both. -/
def Apart (p q : String) : Prop := ¬ p.toList <+: q.toList ∧ ¬ q.toList <+: p.toList

instance : Decidable (Apart p q) := inferInstanceAs (Decidable (_ ∧ _))

/-- Under `p` there are the values of `d`, encoded. -/
def HoldsUnder (p : String) (f : V → W) (kv : Dict String W) (d : Dict String V) : Prop :=
  ∀ id, kv.get? (p ++ id) = (d.get? id).map f

/-! ## Keys -/

theorem append_right_inj {a b : String} (h : p ++ a = p ++ b) : a = b := by
  have hl := congrArg String.toList h
  rw [String.toList_append, String.toList_append] at hl
  exact String.toList_inj.mp (List.append_cancel_left hl)

theorem Apart.ne (h : Apart p q) (a b : String) : p ++ a ≠ q ++ b := by
  intro he
  have hl := congrArg String.toList he
  rw [String.toList_append, String.toList_append] at hl
  rcases List.append_eq_append_iff.mp hl with ⟨t, hq, -⟩ | ⟨t, hp, -⟩
  · exact h.1 ⟨t, hq.symm⟩
  · exact h.2 ⟨t, hp.symm⟩

theorem Apart.symm (h : Apart p q) : Apart q p := ⟨h.2, h.1⟩

theorem under_iff {k : String} : Under p k ↔ ∃ id, k = p ++ id := by
  constructor
  · rintro ⟨t, ht⟩
    refine ⟨String.ofList t, String.toList_inj.mp ?_⟩
    rw [String.toList_append, String.toList_ofList, ht]
  · rintro ⟨id, rfl⟩
    exact ⟨id.toList, String.toList_append.symm⟩

namespace HoldsUnder

theorem set (h : HoldsUnder p f kv d) (id : String) (v : V) :
    HoldsUnder p f (kv.set (p ++ id) (f v)) (d.set id v) := by
  intro a
  rw [Dict.get?_set, Dict.get?_set, h a]
  by_cases ha : a = id
  · rw [if_pos ha, if_pos (congrArg (p ++ ·) ha)]
    rfl
  · rw [if_neg ha, if_neg fun he => ha (append_right_inj he)]

theorem pop (h : HoldsUnder p f kv d) (id : String) :
    HoldsUnder p f (kv.pop (p ++ id)) (d.pop id) := by
  intro a
  rw [Dict.get?_pop, Dict.get?_pop, h a]
  by_cases ha : a = id
  · rw [if_pos ha, if_pos (congrArg (p ++ ·) ha)]
    rfl
  · rw [if_neg ha, if_neg fun he => ha (append_right_inj he)]

theorem set_apart (h : HoldsUnder p f kv d) (hpq : Apart p q) (id : String) (w : W) :
    HoldsUnder p f (kv.set (q ++ id) w) d := by
  intro a
  rw [Dict.get?_set_ne _ _ (hpq.ne a id), h a]

theorem pop_apart (h : HoldsUnder p f kv d) (hpq : Apart p q) (id : String) :
    HoldsUnder p f (kv.pop (q ++ id)) d := by
  intro a
  rw [Dict.get?_pop_ne _ (hpq.ne a id), h a]

theorem perm_values (h : HoldsUnder p f kv d) : (valuesUnder p kv).Perm (d.values.map f) := by
  have hentries : (kv.entries.filter fun b => Under p b.1).Perm
      (d.entries.map fun b => (p ++ b.1, f b.2)) := by
    have hnodup : (d.entries.map fun b => (p ++ b.1, f b.2)).Nodup := by
      refine List.Nodup.of_map Prod.fst ?_
      rw [List.map_map]
      have hkeys := d.nodup.map (f := (p ++ ·)) fun _ _ => append_right_inj
      rwa [List.map_map] at hkeys
    refine (List.perm_ext_iff_of_nodup ((List.Nodup.of_map _ kv.nodup).filter _) hnodup).mpr
      fun b => ?_
    rw [List.mem_filter, List.mem_map, ← Prod.mk.eta (p := b), Dict.mem_entries,
      decide_eq_true_iff, under_iff]
    constructor
    · rintro ⟨hb, id, hid⟩
      rw [hid, h id] at hb
      obtain ⟨v, hv, hf⟩ := Option.map_eq_some_iff.mp hb
      exact ⟨(id, v), Dict.mem_entries.mpr hv, Prod.ext hid.symm hf⟩
    · rintro ⟨⟨id, v⟩, hv, he⟩
      obtain ⟨hid, hf⟩ := Prod.mk.inj he
      refine ⟨?_, id, hid.symm⟩
      rw [← hid, ← hf, h id, Dict.mem_entries.mp hv]
      rfl
  calc valuesUnder p kv
      = (kv.entries.filter fun b => Under p b.1).map Prod.snd := rfl
    List.Perm _ ((d.entries.map fun b => (p ++ b.1, f b.2)).map Prod.snd) := hentries.map _
    _ = d.values.map f := by rw [List.map_map, Dict.values, List.map_map]; rfl

end HoldsUnder

end Framework
