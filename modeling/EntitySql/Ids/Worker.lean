import EntitySql.Hash.Sha256
import EntitySql.Ids.Layout

/-!
Workers told apart by a fingerprint of their host.
-/
namespace EntitySql.Ids

/-- The worker of a fingerprint: the head of its hash, reduced to the number of workers. -/
def workerOf (fingerprint : List UInt8) : Nat :=
  (Hash.sha256Head fingerprint).toNat % workers

end EntitySql.Ids
