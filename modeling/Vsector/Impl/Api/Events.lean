import Vsector.Impl.Ingest.Service

/-!
# The event bus

What `EventBus` of `api/events.py` does with the messages of a Kafka topic:
each is applied by the ingest service, and what that raises is only logged.
Payloads that are not of the shape of their event are left out, and so is the
producer, which hands its payload on.
-/

namespace Vsector.Api

open Models Storage Sharding Index Ingest

variable {ι : Type} [BaseIndex ι] (X : Externals)

/-- `topic_for`. -/
def topicFor (topicPrefix ns event : String) : String := s!"{topicPrefix}{ns}.{event}"

/-- The payload of a message, by the event of its topic. -/
inductive EventMessage where
  | upsert (vectors : List Raw)
  | delete (ids : List String)

/-- What a delivered message meets, as far as the service goes. -/
structure MessageEnv (ι : Type) where
  record : Nat → RecordEnv ι
  background : String → FlushEnv
  delivery : String → Nat → DeliveryEnv

/-- The records of a batch, each with what it meets. -/
def batch (vectors : List Raw) (env : MessageEnv ι) : List (Raw × RecordEnv ι) :=
  vectors.zipIdx.map fun v => (v.1, env.record v.2)

/-- The body of `consume`'s loop. -/
def consumeMessage (ns : String) (svc : IngestService ι) (m : EventMessage) (env : MessageEnv ι) :
    IngestService ι :=
  match m with
  | .upsert vectors => (svc.upsert X ns (batch vectors env) none env.background).1
  | .delete ids => (svc.delete X ns ids env.delivery).1

/-- `consume`, over the messages of a log as they are delivered: their offsets, and what each of
them meets. -/
def consume (ns : String) (log : Nat → EventMessage) (svc : IngestService ι)
    (deliveries : List (Nat × MessageEnv ι)) :
    IngestService ι := deliveries.foldl (fun svc d => consumeMessage X ns svc (log d.1) d.2) svc

end Vsector.Api
