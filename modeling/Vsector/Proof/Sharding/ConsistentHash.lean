import Vsector.Framework.PrefixCode
import Vsector.Impl.Sharding.HashRing

/-!
# The ring under changes of its members

`ring_ok`: with a hash that tells the labels of virtual nodes apart, any run of
changes leaves a ring of exactly the members' points (`IsRing`), each point its
own; `get_node` finds the owner of the first point clockwise (`Clockwise`), so
a node that is added takes keys only to itself, and one that is added and
removed again leaves the ring as it was.
-/

namespace Vsector.Sharding.ConsistentHashRing

open Framework

variable {hash : String → Nat} {r : ConsistentHashRing} {members : List String} {node key : String}

/-- The hash tells labels apart. -/
def SeparatesLabels (hash : String → Nat) : Prop :=
  ∀ n i m j, hash (vnode n i) = hash (vnode m j) → vnode n i = vnode m j

/-- The name of a node may hold anything: the number begins after the last `#`. -/
theorem vnode_inj {n m : String} {i j : Nat} (h : vnode n i = vnode m j) : n = m ∧ i = j := by
  have hlist (n : String) (i : Nat) : (vnode n i).toList.reverse = (Nat.toDigits 10 i).reverse ++
      '#' :: n.toList.reverse := by
    simp [vnode, toString, Nat.repr, String.toList_append]
  have hdigit (i : Nat) : ∀ c ∈ (Nat.toDigits 10 i).reverse, c.isDigit = true := by
    intro c hc
    exact Nat.isDigit_of_mem_toDigits (by decide) (by decide) (List.mem_reverse.mp hc)
  have hstop (s : List Char) : ∀ c ∈ ('#' :: s).head?, c.isDigit = false := by
    intro c hc
    cases hc
    rfl
  have hrev := congrArg (fun s : String => s.toList.reverse) h
  simp only [hlist] at hrev
  obtain ⟨hdigits, hname⟩ := takeWhile_unique (hdigit i) (hdigit j) (hstop _) (hstop _) hrev
  have hi : i = j := by
    have := List.reverse_injective hdigits
    rw [← Nat.ofDigitChars_toDigits (b := 10) (n := i) (by decide) (by decide), this,
      Nat.ofDigitChars_toDigits (by decide) (by decide)]
  exact ⟨String.toList_inj.mp (List.reverse_injective (List.cons.inj hname).2), hi⟩

/-! ## The points -/

/-- The points of a node. -/
def points (hash : String → Nat) (replicas : Nat) (node : String) : List Nat :=
  (List.range replicas).map fun i => hash (vnode node i)

theorem mem_points {replicas h : Nat} :
    h ∈ points hash replicas node ↔ ∃ i < replicas, hash (vnode node i) = h := by
  simp [points]

theorem SeparatesLabels.eq_of_mem (hs : SeparatesLabels hash) {replicas h : Nat} {n m : String}
    (hn : h ∈ points hash replicas n) (hm : h ∈ points hash replicas m) : n = m := by
  obtain ⟨i, -, rfl⟩ := mem_points.mp hn
  obtain ⟨j, -, hj⟩ := mem_points.mp hm
  exact (vnode_inj (hs m j n i hj)).1.symm

theorem SeparatesLabels.nodup_points (hs : SeparatesLabels hash) (replicas : Nat) (node : String) :
    (points hash replicas node).Nodup :=
  List.nodup_range.map fun i j h => (vnode_inj (hs node i node j h)).2

/-- The ring holds the points of the members, each with its owner, and the list of them is
sorted. -/
structure IsRing (hash : String → Nat) (members : List String) (r : ConsistentHashRing) : Prop where
  owner : ∀ h n, r.ring.get? h = some n ↔ n ∈ members ∧ h ∈ points hash r.replicas n
  sortedKeys : r.sortedKeys = sorted r.ring

theorem isRing_new (hash : String → Nat) (replicas : Nat) : IsRing hash [] (new replicas) :=
  ⟨fun h n => by simp [new], rfl⟩

theorem get?_addNode (h : Nat) :
    (r.addNode hash node).ring.get? h = if h ∈ points hash r.replicas node then some node
      else r.ring.get? h :=
  Dict.get?_foldl_set ..

theorem get?_removeNode (h : Nat) :
    (r.removeNode hash node).ring.get? h = if h ∈ points hash r.replicas node then none
      else r.ring.get? h :=
  Dict.get?_foldl_pop ..

theorem mem_members_add {n : String} :
    n ∈ (RingOp.add node).members members ↔ n ∈ members ∨ n = node := by
  simp only [RingOp.members]
  split
  · rename_i hmem
    refine ⟨.inl, ?_⟩
    rintro (hn | rfl) <;> assumption
  · simp

theorem mem_members_remove {n : String} :
    n ∈ (RingOp.remove node).members members ↔ n ∈ members ∧ n ≠ node := by
  simp [RingOp.members]

theorem IsRing.add (hs : SeparatesLabels hash) (hr : IsRing hash members r) (node : String) :
    IsRing hash ((RingOp.add node).members members) (r.addNode hash node) := by
  refine ⟨fun h n => ?_, rfl⟩
  show _ ↔ _ ∧ h ∈ points hash r.replicas n
  rw [get?_addNode, mem_members_add]
  split
  · rename_i hp
    constructor
    · intro he
      cases he
      exact ⟨.inr rfl, hp⟩
    · intro hn
      rw [hs.eq_of_mem hp hn.2]
  · rename_i hp
    rw [hr.owner]
    constructor
    · intro hn
      exact ⟨.inl hn.1, hn.2⟩
    · rintro ⟨hn | rfl, hm⟩
      · exact ⟨hn, hm⟩
      · exact absurd hm hp

theorem IsRing.remove (hs : SeparatesLabels hash) (hr : IsRing hash members r) (node : String) :
    IsRing hash ((RingOp.remove node).members members) (r.removeNode hash node) := by
  refine ⟨fun h n => ?_, rfl⟩
  show _ ↔ _ ∧ h ∈ points hash r.replicas n
  rw [get?_removeNode, mem_members_remove]
  split
  · rename_i hp
    constructor
    · intro he
      cases he
    · intro hn
      exact absurd (hs.eq_of_mem hn.2 hp) hn.1.2
  · rename_i hp
    rw [hr.owner]
    constructor
    · intro hn
      exact ⟨⟨hn.1, fun he => hp (he ▸ hn.2)⟩, hn.2⟩
    · intro hn
      exact ⟨hn.1.1, hn.2⟩

theorem IsRing.apply (hs : SeparatesLabels hash) (hr : IsRing hash members r) (op : RingOp) :
    IsRing hash (op.members members) (op.apply hash r) := by
  cases op with
  | add node => exact hr.add hs node
  | remove node => exact hr.remove hs node

theorem IsRing.run (hs : SeparatesLabels hash) (hr : IsRing hash members r) (ops : List RingOp) :
    IsRing hash (ops.foldl RingOp.members members) (ops.foldl (RingOp.apply hash) r) := by
  induction ops generalizing members r with
  | nil => exact hr
  | cons op ops ih => exact ih (hr.apply hs op)

theorem replicas_run (ops : List RingOp) (r : ConsistentHashRing) :
    (ops.foldl (RingOp.apply hash) r).replicas = r.replicas := by
  induction ops generalizing r with
  | nil => rfl
  | cons op ops ih =>
    rw [List.foldl_cons, ih]
    cases op <;> rfl

theorem IsRing.perm_keys (hr : IsRing hash members r) : r.sortedKeys.Perm r.ring.keys := by
  rw [hr.sortedKeys]
  exact List.perm_insertionSort ..

theorem IsRing.pairwise_le (hr : IsRing hash members r) : r.sortedKeys.Pairwise (· ≤ ·) := by
  rw [hr.sortedKeys]
  exact List.pairwise_insertionSort ..

theorem IsRing.pairwise_lt (hr : IsRing hash members r) : r.sortedKeys.Pairwise (· < ·) := by
  have hnodup : r.sortedKeys.Nodup := hr.perm_keys.nodup_iff.mpr r.ring.nodup_keys
  exact (hr.pairwise_le.and hnodup).imp fun h => lt_of_le_of_ne h.1 h.2

/-- The points of a member, and no others, are bound to it. -/
theorem IsRing.count (hs : SeparatesLabels hash) (hr : IsRing hash members r) (n : String) :
    (r.ring.entries.filter (·.2 = n)).length = if n ∈ members then r.replicas else 0 := by
  have hkeys : ∀ h, h ∈ (r.ring.entries.filter (·.2 = n)).map Prod.fst ↔
      n ∈ members ∧ h ∈ points hash r.replicas n := by
    intro h
    rw [← hr.owner, ← Dict.mem_entries]
    simp
  split
  · rename_i hn
    have hnodup : ((r.ring.entries.filter (·.2 = n)).map Prod.fst).Nodup :=
      r.ring.nodup.sublist (List.filter_sublist.map _)
    have hperm := (List.perm_ext_iff_of_nodup hnodup (hs.nodup_points r.replicas n)).mpr fun h => by
      simp [hkeys, hn]
    simpa [points] using hperm.length_eq
  · rename_i hn
    rw [List.length_eq_zero_iff, ← List.map_eq_nil_iff (f := Prod.fst),
      List.eq_nil_iff_forall_not_mem]
    exact fun h hh => hn ((hkeys h).mp hh).1

/-! ## Going clockwise -/

/-- Of the points `p` is the first after `start`, or the first of all where none is after it. -/
def Clockwise (start : Nat) (points : List Nat) (p : Nat) : Prop :=
  p ∈ points ∧ ((start < p ∧ ∀ q ∈ points, start < q → p ≤ q) ∨ ∀ q ∈ points, q ≤ start ∧ p ≤ q)

theorem Clockwise.unique {start p q : Nat} {points : List Nat} (hp : Clockwise start points p)
    (hq : Clockwise start points q) : p = q := by
  obtain ⟨hpm, ⟨hps, hp⟩ | hp⟩ := hp <;> obtain ⟨hqm, ⟨hqs, hq⟩ | hq⟩ := hq
  · exact le_antisymm (hp q hqm hqs) (hq p hpm hps)
  · have := hq p hpm
    omega
  · have := hp q hqm
    omega
  · exact le_antisymm (hp q hqm).2 (hq p hpm).2

theorem Clockwise.of_subset {start p : Nat} {points points' : List Nat}
    (h : Clockwise start points p) (hsub : ∀ q ∈ points', q ∈ points) (hp : p ∈ points') :
    Clockwise start points' p := by
  refine ⟨hp, h.2.imp (fun h => ⟨h.1, fun q hq => h.2 q (hsub q hq)⟩) fun h q hq => h q (hsub q hq)⟩

/-- The position that `get_node` looks up in the sorted list. -/
theorem clockwise_bisect {a : List Nat} (hs : a.Pairwise (· ≤ ·)) (hne : a ≠ []) (start : Nat) :
    ∃ p, a[bisectRight a start % a.length]? = some p ∧ Clockwise start a p := by
  have hpos : 0 < a.length := List.length_pos_iff.mpr hne
  rcases (bisectRight_le hs start).lt_or_eq with hlt | heq
  · rw [Nat.mod_eq_of_lt hlt]
    have hp := List.getElem?_eq_getElem hlt
    refine ⟨_, hp, List.getElem_mem _, .inl ⟨?_, fun q hq hlt' => ?_⟩⟩
    · exact not_le.mp fun hle => absurd ((lt_bisectRight_iff hs hp).mpr hle) (lt_irrefl _)
    · obtain ⟨i, hi⟩ := List.mem_iff_getElem?.mp hq
      have hge : bisectRight a start ≤ i :=
        not_lt.mp fun hib => absurd ((lt_bisectRight_iff hs hi).mp hib) (not_le.mpr hlt')
      exact le_of_sorted hs hp hi hge
  · rw [heq, Nat.mod_self]
    have hp := List.getElem?_eq_getElem hpos
    refine ⟨_, hp, List.getElem_mem _, .inr fun q hq => ?_⟩
    obtain ⟨i, hi⟩ := List.mem_iff_getElem?.mp hq
    have hlen : i < a.length := (List.getElem?_eq_some_iff.mp hi).1
    exact ⟨(lt_bisectRight_iff hs hi).mp (by omega), le_of_sorted hs hp hi (Nat.zero_le _)⟩

/-- `get_node` finds the owner of the first point clockwise after the key's hash. -/
theorem IsRing.exists_getNode (hr : IsRing hash members r) (hne : r.ring.entries ≠ [])
    (key : String) :
    ∃ p n, Clockwise (hash key) r.ring.keys p ∧ r.ring.get? p = some n ∧
      getNode hash r key = .ok n := by
  have hkeys : r.sortedKeys ≠ [] := by
    intro he
    have := hr.perm_keys
    rw [he, List.nil_perm] at this
    exact hne (List.map_eq_nil_iff.mp this)
  obtain ⟨p, hp, hclock⟩ := clockwise_bisect hr.pairwise_le hkeys (hash key)
  have hmem : p ∈ r.ring.keys := hr.perm_keys.mem_iff.mp hclock.1
  obtain ⟨n, hn⟩ := Option.isSome_iff_exists.mp (Dict.mem_keys.mp hmem)
  refine ⟨p, n, hclock.of_subset (fun q hq => hr.perm_keys.mem_iff.mpr hq) hmem, hn, ?_⟩
  simp only [getNode, if_neg hne, List.length_eq_zero_iff, if_neg hkeys, hp, hn]

theorem getNode_empty (h : r.ring.entries = []) (key : String) :
    getNode hash r key = .error (.other "RuntimeError" "ring empty") := if_pos h

/-- A node that is added takes keys only to itself. -/
theorem IsRing.getNode_addNode (hs : SeparatesLabels hash) (hr : IsRing hash members r)
    (node key : String) :
    getNode hash (r.addNode hash node) key = getNode hash r key ∨
    getNode hash (r.addNode hash node) key = .ok node := by
  have hadd : IsRing hash _ (r.addNode hash node) := hr.add hs node
  have hold : ∀ q ∈ r.ring.keys, q ∈ (r.addNode hash node).ring.keys := by
    intro q hq
    rw [Dict.mem_keys, get?_addNode]
    split
    · rfl
    · exact Dict.mem_keys.mp hq
  by_cases hne : (r.addNode hash node).ring.entries = []
  · have hempty : r.ring.entries = [] := by
      have : r.ring.keys = [] := List.eq_nil_iff_forall_not_mem.mpr fun q hq => by
        have := hold q hq
        rw [Dict.keys, hne] at this
        cases this
      exact List.map_eq_nil_iff.mp this
    exact .inl (by rw [getNode_empty hne, getNode_empty hempty])
  · obtain ⟨p, n, hp, hn, hget⟩ := hadd.exists_getNode hne key
    rw [get?_addNode] at hn
    split at hn
    · cases hn
      exact .inr hget
    · have hmem : p ∈ r.ring.keys := Dict.mem_keys.mpr (by rw [hn]; rfl)
      have hne' : r.ring.entries ≠ [] := fun he => by simp [Dict.keys, he] at hmem
      obtain ⟨p', n', hp', hn', hget'⟩ := hr.exists_getNode hne' key
      rw [(hp.of_subset hold hmem).unique hp'] at hn
      rw [hn] at hn'
      cases hn'
      exact .inl (hget.trans hget'.symm)

/-- A node that is no member is added and removed again. -/
theorem IsRing.removeNode_addNode (hs : SeparatesLabels hash) (hr : IsRing hash members r)
    (hn : node ∉ members) :
    (r.addNode hash node).removeNode hash node = r := by
  have hfresh : (r.ring.keys ++ points hash r.replicas node).Nodup := by
    refine List.nodup_append.mpr ⟨r.ring.nodup_keys, hs.nodup_points _ _, fun p hp q hq he => ?_⟩
    subst he
    obtain ⟨n, hpn⟩ := Option.isSome_iff_exists.mp (Dict.mem_keys.mp hp)
    obtain ⟨hmem, hpt⟩ := (hr.owner p n).mp hpn
    exact hn (hs.eq_of_mem hq hpt ▸ hmem)
  have hring := Dict.foldl_pop_foldl_set (fun i => hash (vnode node i)) node hfresh
  obtain ⟨replicas, ring, sortedKeys⟩ := r
  simp only [addNode, removeNode] at hring ⊢
  rw [hring, ← hr.sortedKeys]

theorem isRing_ringAfter (hs : SeparatesLabels hash) (replicas : Nat) (ops : List RingOp) :
    IsRing hash (membersAfter ops) (ringAfter hash replicas ops) :=
  (isRing_new hash replicas).run hs ops

/-- The ring that any run of changes leaves. -/
theorem ring_ok (hs : SeparatesLabels hash) (replicas : Nat) (ops : List RingOp) :
    (ringAfter hash replicas ops).sortedKeys.Pairwise (· < ·) ∧
    (ringAfter hash replicas ops).sortedKeys.Perm (ringAfter hash replicas ops).ring.keys ∧
    (∀ n, ((ringAfter hash replicas ops).ring.entries.filter (·.2 = n)).length =
      if n ∈ membersAfter ops then replicas else 0) ∧
    (∀ key, (ringAfter hash replicas ops).ring.entries ≠ [] →
      ∃ p n, Clockwise (hash key) (ringAfter hash replicas ops).ring.keys p ∧
        (ringAfter hash replicas ops).ring.get? p = some n ∧
        getNode hash (ringAfter hash replicas ops) key = .ok n) ∧
    (∀ n ∉ membersAfter ops,
      ((ringAfter hash replicas ops).addNode hash n).removeNode hash n =
        ringAfter hash replicas ops) ∧
    ∀ n key, getNode hash ((ringAfter hash replicas ops).addNode hash n) key =
      getNode hash (ringAfter hash replicas ops) key ∨
      getNode hash ((ringAfter hash replicas ops).addNode hash n) key = .ok n := by
  have hring := isRing_ringAfter hs replicas ops
  have hreplicas : (ringAfter hash replicas ops).replicas = replicas :=
    replicas_run ops (new replicas)
  refine ⟨hring.pairwise_lt, hring.perm_keys, fun n => ?_, fun key hne =>
    hring.exists_getNode hne key,
    fun n hn => hring.removeNode_addNode hs hn, hring.getNode_addNode hs⟩
  rw [hring.count hs, hreplicas]

/-- The number that the code points of a text make up. -/
def textNumber (s : String) : Nat := Encodable.encode (s.toList.map Char.toNat)

theorem separatesLabels_textNumber : SeparatesLabels textNumber := by
  intro n i m j h
  have hcodes := Encodable.encode_injective h
  have hchars : (vnode n i).toList = (vnode m j).toList :=
    List.map_injective_iff.mpr (fun a b => Char.toNat_inj.mp) hcodes
  exact String.toList_inj.mp hchars

/-- A name with a `#` in it, beside one that it begins with. -/
theorem ring_ok_two : SeparatesLabels textNumber ∧
    ∀ n, ((ringAfter textNumber 11 [.add "a", .add "a#1", .remove "a"]).ring.entries.filter
      (·.2 = n)).length =
      if n ∈ membersAfter [.add "a", .add "a#1", .remove "a"] then 11 else 0 :=
  ⟨separatesLabels_textNumber,
    (ring_ok separatesLabels_textNumber 11 [.add "a", .add "a#1", .remove "a"]).2.2.1⟩

end Vsector.Sharding.ConsistentHashRing
