import Vsector.Impl.Sharding.EtcdFile
import Vsector.Impl.Sharding.MetadataOps

/-!
# The metadata store with the text of its file

`InMemoryEtcd(path)` (`sharding/etcd.py`): each mutation is followed by
`_persist`. A write that fails is only logged, and leaves what it leaves; a
change of an object the store holds is a mutation without a write.
-/

namespace Vsector.Sharding

open Models

/-- A mutation, the times of a migration that it puts, and what a write that does not succeed
leaves in the file. -/
structure FileCall where
  op : MetadataOp
  times : Times
  failed : Option (Option (List Char))

/-- `times` are those of the migrations, by id; `file` is `none` where there is none. -/
structure FileStore where
  data : EtcdData
  times : String → Times
  file : Option (List Char)

namespace FileStore

/-- `InMemoryEtcd(path)` without a file. -/
def init : FileStore := ⟨∅, fun _ => (0, 0), none⟩

/-- The times after a mutation. -/
def timesAfter (times : String → Times) (call : FileCall) : String → Times :=
  match call.op with
  | .putMigration migration => Function.update times migration.migrationId call.times
  | _ => times

/-- A mutation, and `_persist`. -/
def mutate (X : Externals) (s : FileStore) (call : FileCall) : FileStore :=
  let data := s.data.apply call.op
  let times := timesAfter s.times call
  { data := data
    times := times
    file := match call.failed with
      | none => some (data.persistText X times)
      | some left => left }

end FileStore

/-- The store's dictionaries, where every record is kept by its id. -/
def LoadedData.toData (l : LoadedData) : Option EtcdData :=
  if h : (∀ p ∈ l.shards.entries, p.2.id = p.1) ∧
    ∀ p ∈ l.migrations.entries, p.2.1.migrationId = p.1 then
    some
      { shards := l.shards
        nodes := l.nodes
        migrations := ⟨l.migrations.entries.map fun p => (p.1, p.2.1), by
          rw [List.map_map]
          exact l.migrations.nodup⟩
        shards_keyed := fun id s hs => h.1 (id, s) (Framework.Dict.mem_entries.mpr hs)
        migrations_keyed := fun id m hm => by
          obtain ⟨p, hp, heq⟩ := List.mem_map.mp (Framework.Dict.mem_entries.mpr hm)
          obtain ⟨rfl, rfl⟩ := Prod.mk.inj heq
          exact h.2 p hp }
  else none

end Vsector.Sharding
