import Worklane.Core.Json
import Worklane.Memory.Sound
import Worklane.Redis.DeadLetters

/-!
# Blobs and ids

The blob a script answers with was written for the id it is stored under, so
the id the broker reads out of it is that of the job.
-/

namespace Worklane.Redis

theorem toText_injective : Function.Injective JobId.toText := by
  intro left right same
  obtain ⟨uuid⟩ := left
  obtain ⟨uuid'⟩ := right
  exact congrArg JobId.mk (Json.hyphenated_injective same)

variable {serde : SerdeJson} {store : Store}

/-- The blob of a job encodes an envelope with its id. -/
def Names (serde : SerdeJson) (id : Text) (blob : Blob) : Prop :=
  ∃ envelope, encodeEnvelope serde envelope = .ok blob ∧ envelope.id.toText = id

structure Named (serde : SerdeJson) (store : Store) : Prop where
  jobs : Lib.Every store.job fun id hash => Names serde id hash.envelope
  dead : Lib.Every store.deadJob fun id dead => Names serde id dead.envelope

section Named

variable {jobs : List JobArgs} {store' : Store} {burials : List Burial}
variable {minted : List ReservationReceipt}

theorem Change.named (change : Change jobs store burials minted store')
    (brought : ∀ args ∈ jobs, Names serde args.id.toText args.env)
    (named : Named serde store) : Named serde store' := by
  obtain ⟨live, dead⟩ := named
  cases change with
  | stored source absent free idle =>
    refine ⟨live.put ?_, dead⟩
    rcases source with ⟨args, own, rfl, rfl⟩ | ⟨record, now, found, rfl⟩
    · exact brought args own
    · exact dead _ record found
  | leased args located =>
    have own := live _ _ located.found
    exact ⟨live.put own, dead⟩
  | removed found => exact ⟨live.erase _, dead⟩
  | rescheduled attempts availableAt found held =>
    have own := live _ _ found
    exact ⟨live.put own, dead⟩
  | extended leaseUntil found held =>
    have own := live _ _ found
    exact ⟨live.put own, dead⟩
  | buried error deadAt located =>
    have own := live _ _ located.found
    exact ⟨live.erase _, dead.put own⟩
  | dropped splits => exact ⟨live, every_del dead _⟩
  | unburied found => exact ⟨live, dead.erase _⟩
  | levelDropped vacant => exact ⟨live, dead⟩
  | scheduled schedule => exact ⟨live, dead⟩

theorem Trail.named (trail : Trail jobs store burials minted store')
    (brought : ∀ args ∈ jobs, Names serde args.id.toText args.env)
    (named : Named serde store) : Named serde store' := by
  induction trail with
  | refl => exact named
  | step change _ ih =>
    exact ih (change.named brought named)

end Named

theorem run_indexed_named (serde : SerdeJson) (config : Config)
    (inputs : List Input) (fresh : FreshMints inputs) :
    Indexed ((machine serde config).run inputs) ∧
      Named serde ((machine serde config).run inputs) := by
  obtain ⟨scripts, same, minted, accepted⟩ := @run_scripts serde config inputs
  rw [same]
  refine ⟨(running scripts (fresh.sublist minted)).indexed, ?_⟩
  clear same minted
  induction scripts using List.reverseRecOn with
  | nil =>
    exact ⟨fun _ _ found => (nomatch found), fun _ _ found => (nomatch found)⟩
  | append_singleton past script ih =>
    have named := ih fun other member =>
      accepted other (List.mem_append_left _ member)
    obtain ⟨_, _, trail⟩ := exec_trail (server.run past) script
    rw [Lib.Machine.run_concat]
    refine trail.named ?_ named
    intro args brought
    obtain ⟨_, job, own⟩ := accepted script (by simp) args brought
    obtain ⟨_, blob, encoded, rfl⟩ := jobArgs_ok own
    exact ⟨job.intoEnvelope, encoded, rfl⟩

theorem Named.storedId_eq (named : Named serde store) {id : JobId}
    (live : (store.job id.toText).isSome) :
    storedId serde (store.envelopeOf id.toText) = .ok id := by
  obtain ⟨hash, found⟩ := Option.isSome_iff_exists.mp live
  obtain ⟨envelope, encoded, same⟩ := named.jobs _ hash found
  have sameId : envelope.id = id := toText_injective same
  rw [Store.envelopeOf, found, Option.map_some, storedId, decode_of_encode encoded, ← sameId]
  rfl

theorem Named.owner_id (named : Named serde store) (indexed : Indexed store)
    {key : String} {owner : Text} (owned : store.unique key = some owner) :
    ∃ envelope hash, owner = envelope.id.toText ∧ store.job owner = some hash ∧
      encodeEnvelope serde envelope = .ok hash.envelope := by
  obtain ⟨hash, found, _⟩ := Option.bind_eq_some_iff.mp ((indexed.keys key owner).mp owned)
  obtain ⟨envelope, encoded, same⟩ := named.jobs _ hash found
  exact ⟨envelope, hash, same.symm, found, encoded⟩

end Worklane.Redis
