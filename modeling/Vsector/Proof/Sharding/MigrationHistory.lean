import Vsector.Framework.Run
import Vsector.Proof.Sharding.MigrationChanges

/-!
# The histories of migrations

In a run of the managers of one store, whatever else happens to its shards
and nodes, the migrations change by `Edge`s (`path_history`): what
`TRANSITIONS` says of one transition holds along the whole path of the stores
that the run passes through (`migrations_sound`).
-/

namespace Vsector.Sharding

open Framework

/-! ## Edges -/

/-- A change of the migrations of a store. -/
inductive Edge (e e' : InMemoryEtcd) : Prop where
  | same (h : ∀ id, e'.getMigration id = e.getMigration id)
  | created (m : ShardMigration) (hnew : e.getMigration m.migrationId = none)
      (hstate : m.state = .pending)
      (hversion : m.version = 1)
      (hopen : ∀ id a, e.getMigration id = some a → a.shardId = m.shardId →
        a.state.isTerminal = true)
      (h : ∀ id, e'.getMigration id = if id = m.migrationId then some m else e.getMigration id)
  | turned (m m' : ShardMigration) (hm : e.getMigration m.migrationId = some m) (turn : Turn m m')
      (h : ∀ id, e'.getMigration id = if id = m.migrationId then some m' else e.getMigration id)

/-- What a change of the store is for the migrations. -/
theorem Change.edge {e e' : InMemoryEtcd} (h : Change e e') : Edge e e' := by
  cases h with
  | same hm => exact .same hm
  | created m hnew hstate hversion _ hopen hm => exact .created m hnew hstate hversion hopen hm
  | turned m m' hget turn _ hm => exact .turned m m' hget turn hm
  | moved _ _ _ _ _ _ _ hm => exact .same hm

/-! ## Runs -/

/-- A call of one of the managers, a restart from the file, or what else happens to shards and
nodes. -/
inductive ManagerOp (δ : Type) where
  | call (mgr : ShardMigrationManager) (T : Transfer δ) (step : MigrationStep)
  | reload
  | topology (shards : Dict String Shard) (nodes : Dict String Cluster.ClusterNode)
      (keyed : ∀ id s, shards.get? id = some s → s.id = id) (persisted : Bool)

section

variable {δ : Type}

/-- One operation, whether or not it raises. `uuid4` never gives an id twice. -/
def managerStep (w : World δ) : ManagerOp δ → Option (World δ)
  | .call mgr T step =>
    if ShardMigrationManager.isFresh w.store step then some (mgr.perform T step w).final else none
  | .reload => w.store.file.map fun d => { w with store := .init (some d) }
  | .topology shards nodes keyed persisted =>
    let e : InMemoryEtcd := { w.store with
      live := { w.store.live with shards := shards, nodes := nodes, shards_keyed := keyed } }
    some { w with store := if persisted then e.persist else e }

/-- The stores that an operation passes through. -/
def passed (w : World δ) : ManagerOp δ → List InMemoryEtcd
  | .call mgr T step => (mgr.perform T step w).points.map World.store
  | .reload => (managerStep w .reload).toList.map World.store
  | .topology shards nodes keyed persisted =>
    (managerStep w (.topology shards nodes keyed persisted)).toList.map World.store

/-- The stores that a run passes through, after each change. -/
def history (w : World δ) (ops : List (ManagerOp δ)) : List InMemoryEtcd :=
  trail managerStep passed w ops

theorem path_passed {w w' : World δ} {op : ManagerOp δ} (hs : w.store.Synced)
    (h : managerStep w op = some w') :
    Path Edge w.store (passed w op) w'.store ∧ w'.store.Synced := by
  cases op with
  | call mgr T step =>
    rw [managerStep] at h
    split at h
    · rename_i hf
      cases h
      have hmoves : ShardMigrationManager.Lawful True (mgr.perform T step) w :=
        ShardMigrationManager.moves_perform step (fun _ => hs) hf
      exact ⟨hmoves.1.mono fun _ _ h => h.edge, hmoves.2 trivial⟩
    · cases h
  | reload =>
    obtain ⟨d, hd, rfl⟩ := Option.map_eq_some_iff.mp h
    have hsame : d.migrations = w.store.live.migrations := hs d hd
    refine ⟨?_, fun d' hd' => by cases hd'; rfl⟩
    rw [passed, h]
    exact ⟨.same fun id => congrArg (fun m : Dict String ShardMigration => m.get? id) hsame, rfl⟩
  | topology shards nodes keyed persisted =>
    rw [passed, h]
    cases h
    cases persisted with
    | false => exact ⟨⟨.same fun _ => rfl, rfl⟩, hs⟩
    | true =>
      refine ⟨⟨.same fun _ => rfl, rfl⟩, fun d hd => ?_⟩
      obtain ⟨d', -, rfl⟩ := Option.map_eq_some_iff.mp hd
      rfl

/-- A run passes from edge to edge. -/
theorem path_history {w w' : World δ} {ops : List (ManagerOp δ)} (hs : w.store.Synced)
    (hrun : run managerStep w ops = some w') : Path Edge w.store (history w ops) w'.store :=
  path_trail (I := fun w : World δ => w.store.Synced) (fun _ _ _ hs h => path_passed hs h) hs hrun

end

/-! ## What the edges keep -/

/-- No shard has two migrations that are not in a terminal state. -/
def OneOpen (e : InMemoryEtcd) : Prop :=
  ∀ id id' m m', e.getMigration id = some m → e.getMigration id' = some m' →
    m.shardId = m'.shardId →
    m.state.isTerminal = false → m'.state.isTerminal = false → id = id'

/-- The state of a migration after a change, from that before: none yet, or along `TRANSITIONS`. -/
def NextState (o o' : Option MigrationState) : Prop :=
  o' = o ∨ o = none ∧ o' = some .pending ∨ ∃ s s', o = some s ∧ o' = some s' ∧ s' ∈ s.next

/-- A terminal state is not left. -/
def StaysTerminal (o o' : Option MigrationState) : Prop :=
  ∀ s, o = some s → s.isTerminal = true → o' = some s

/-- The state of a migration in a store. -/
def stateOf (id : String) (e : InMemoryEtcd) : Option MigrationState :=
  (e.getMigration id).map ShardMigration.state

/-- The transitions of a migration along the stores passed through: where its state is another. -/
def transitions (id : String) (stores : List InMemoryEtcd) : Nat :=
  ((stores.map (stateOf id)).zip (stores.map (stateOf id)).tail).countP fun p =>
    p.1.isSome && p.1 ≠ p.2

theorem next_of_isTerminal {s : MigrationState} (h : s.isTerminal = true) : s.next = [] := by
  cases s <;> first | exact absurd h Bool.false_ne_true | rfl

theorem not_mem_next_self (s : MigrationState) : s ∉ s.next := by cases s <;> decide

section

variable {e e' : InMemoryEtcd} {id : String}

/-- An open migration after an edge was open before, for the same shard, or it is new. -/
theorem Edge.open_before (h : Edge e e') {m : ShardMigration} (hm : e'.getMigration id = some m)
    (hopen : m.state.isTerminal = false) :
    (∃ a, e.getMigration id = some a ∧ a.shardId = m.shardId ∧ a.state.isTerminal = false) ∨
      ∀ id' a, id' ≠ id → e'.getMigration id' = some a → a.shardId = m.shardId →
        a.state.isTerminal = true := by
  cases h with
  | same h => exact .inl ⟨m, (h id).symm.trans hm, rfl, hopen⟩
  | created n hnew hstate hversion hother h =>
    rw [h] at hm
    split at hm
    · rename_i hid
      cases hm
      refine .inr fun id' a hne ha hshard => hother id' a ?_ hshard
      rw [h, if_neg (hid ▸ hne)] at ha
      exact ha
    · exact .inl ⟨m, hm, rfl, hopen⟩
  | turned n n' hn turn h =>
    rw [h] at hm
    split at hm
    · rename_i hid
      cases hm
      refine .inl ⟨n, by rw [hid]; exact hn, turn.same.shard.symm, ?_⟩
      obtain ⟨hs, -⟩ | ⟨hs, -⟩ := turn.state
      · rw [← hs]
        exact hopen
      · refine Bool.eq_false_iff.mpr fun ht => ?_
        rw [next_of_isTerminal ht] at hs
        exact absurd hs List.not_mem_nil
    · exact .inl ⟨m, hm, rfl, hopen⟩

theorem Edge.oneOpen (h : Edge e e') (ho : OneOpen e) : OneOpen e' := by
  intro id id' m m' hm hm' hshard hopen hopen'
  by_contra hne
  obtain ⟨a, ha, hsa, hta⟩ | hnew := h.open_before hm hopen
  · obtain ⟨a', ha', hsa', hta'⟩ | hnew' := h.open_before hm' hopen'
    · exact hne (ho id id' a a' ha ha' (by rw [hsa, hsa', hshard]) hta hta')
    · have ht := hnew' id m hne hm hshard
      rw [hopen] at ht
      cases ht
  · have ht := hnew id' m' (Ne.symm hne) hm' hshard.symm
    rw [hopen'] at ht
    cases ht

/-- The version that a migration has, or that it will be given. -/
def versionOf (id : String) (e : InMemoryEtcd) : Nat :=
  ((e.getMigration id).map ShardMigration.version).getD 1

/-- What an edge does to one migration: its state follows, and its version counts that. -/
theorem Edge.follows (h : Edge e e') (id : String) :
    NextState (stateOf id e) (stateOf id e') ∧
      versionOf id e' = versionOf id e +
        if (stateOf id e).isSome && stateOf id e ≠ stateOf id e' then 1 else 0 := by
  unfold stateOf versionOf
  cases h with
  | same h =>
    rw [h]
    exact ⟨.inl rfl, by simp⟩
  | created n hnew hstate hversion hother h =>
    rw [h]
    split
    · rename_i hid
      rw [hid, hnew]
      exact ⟨.inr (.inl ⟨rfl, congrArg some hstate⟩), hversion⟩
    · exact ⟨.inl rfl, by simp⟩
  | turned n n' hn turn h =>
    rw [h]
    split
    · rename_i hid
      rw [hid, hn]
      obtain ⟨hs, hv⟩ | ⟨hs, hv⟩ := turn.state
      · exact ⟨.inl (congrArg some hs), by simp [hs, hv]⟩
      · have hne : n.state ≠ n'.state :=
          fun he => not_mem_next_self n.state (by rw [← he] at hs; exact hs)
        exact ⟨.inr (.inr ⟨_, _, rfl, rfl, hs⟩), by simp [hne, hv]⟩
    · exact ⟨.inl rfl, by simp⟩

end

theorem NextState.staysTerminal {o o' : Option MigrationState} (h : NextState o o') :
    StaysTerminal o o' := by
  rintro s rfl ht
  obtain rfl | ⟨h, -⟩ | ⟨s₁, s₂, hs₁, -, hs⟩ := h
  · rfl
  · cases h
  · cases hs₁
    rw [next_of_isTerminal ht] at hs
    exact absurd hs List.not_mem_nil

instance : IsTrans (Option MigrationState) StaysTerminal where
  trans _ _ _ h h' s hs ht := h' s (h s hs ht) ht

section

variable {a b : InMemoryEtcd} {l : List InMemoryEtcd}

theorem isChain_of_path (h : Path Edge a l b) (id : String) :
    ((a :: l).map (stateOf id)).IsChain NextState := by
  induction l generalizing a with
  | nil => exact List.isChain_singleton _
  | cons x l ih => exact List.isChain_cons_cons.mpr ⟨(h.1.follows id).1, ih h.2⟩

/-- Along a path, the version grows with every transition. -/
theorem versionOf_path (h : Path Edge a l b) (id : String) :
    versionOf id b = versionOf id a + transitions id (a :: l) := by
  induction l generalizing a with
  | nil =>
    cases h
    rfl
  | cons x l ih =>
    have hcons : transitions id (a :: x :: l) = transitions id (x :: l) +
        if (stateOf id a).isSome && stateOf id a ≠ stateOf id x then 1 else 0 := List.countP_cons
    rw [ih h.2, (h.1.follows id).2, hcons]
    omega

end

variable {δ : Type}

/-- In every run of the managers of a store, at every change: no shard has two open migrations, the
state of each migration changes along `TRANSITIONS` only, a terminal state is never left, and the
version of a migration is one more than the transitions it has made. -/
theorem migrations_sound {file : Option EtcdData} (hfile : ∀ d, file = some d → d.migrations = ∅)
    (disks : δ) {ops : List (ManagerOp δ)} {w : World δ}
    (hrun : run managerStep ⟨.init file, disks⟩ ops = some w) :
    let stores := .init file :: history ⟨.init file, disks⟩ ops
    (∀ e ∈ stores, OneOpen e) ∧ OneOpen w.store ∧
      ∀ id,
        (stores.map (stateOf id)).IsChain NextState ∧
        (stores.map (stateOf id)).Pairwise StaysTerminal ∧
        ∀ m, w.store.getMigration id = some m → m.version = 1 + transitions id stores := by
  have hnone : ∀ id, (InMemoryEtcd.init file).getMigration id = none := by
    intro id
    show (file.getD ∅).migrations.get? id = none
    rcases file with _ | d
    · rfl
    · rw [Option.getD_some, hfile d rfl]
      rfl
  have hsync : (InMemoryEtcd.init file).Synced := by
    rintro d rfl
    rfl
  have hpath : Path Edge (.init file) (history ⟨.init file, disks⟩ ops) w.store :=
    path_history hsync hrun
  have hone : OneOpen (.init file) := fun id _ m _ hm => by
    rw [hnone] at hm
    cases hm
  obtain ⟨hmid, hend⟩ := hpath.keeps (I := OneOpen) (fun _ _ h => h.oneOpen) hone
  refine ⟨List.forall_mem_cons.mpr ⟨hone, hmid⟩, hend, fun id => ?_⟩
  have hchain := isChain_of_path hpath id
  refine ⟨hchain, ?_, fun m hm => ?_⟩
  · exact (hchain.imp fun _ _ h => h.staysTerminal).pairwise
  · have hv := versionOf_path hpath id
    rw [versionOf, versionOf, hnone, hm] at hv
    exact hv

/-! A copy that fails, read back after a restart. -/

private def brokenTransfer : Transfer Unit where
  exportShard _ _ := Proc.throw (.other "OSError" "disk")
  importShard _ _ _ := Proc.pure ()
  verifyShard _ _ _ := Proc.pure ""
  finalizeSource _ _ := Proc.pure ()
  discardTarget _ _ := Proc.pure ()

private def oneShard : EtcdData := (∅ : EtcdData).setShard ⟨"s", "ns", "n0", .active, 0, 10, [], 1⟩

private def twoNodes : Dict String Cluster.ClusterNode :=
  (Dict.set ∅ "n0" ⟨"n0", "c", .active, 1⟩).set "n1" ⟨"n1", "c", .active, 1⟩

private def failedCopy : List (ManagerOp Unit) :=
  .topology oneShard.shards twoNodes oneShard.shards_keyed true ::
    ([.createMigration "m" "ns" "s" "n1", .prepare "m", .startCopy "m"].map
      (.call ⟨⟨"c"⟩, "c"⟩ brokenTransfer) ++ [.reload])

theorem migrations_sound_failedCopy :
    ∃ w, run managerStep ⟨.init (some ∅), ()⟩ failedCopy = some w ∧
    stateOf "m" w.store = some .failed ∧ ∀ m, w.store.getMigration "m" = some m →
      m.version = 1 + transitions "m"
        (.init (some ∅) :: history ⟨.init (some ∅), ()⟩ failedCopy) := by
  have hrun : run managerStep ⟨.init (some ∅), ()⟩ failedCopy =
      some ((run managerStep ⟨.init (some ∅), ()⟩ failedCopy).get (by decide +kernel)) :=
        (Option.some_get _).symm
  refine ⟨_, hrun, by decide +kernel, ?_⟩
  exact ((migrations_sound (by rintro d ⟨⟩; rfl) () hrun).2.2 "m").2.2

end Vsector.Sharding
