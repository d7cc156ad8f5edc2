import FileRelay.Engine.Event

/-!
# Calls on an id pool

What a pool answers to the calls on it, and what it is afterwards.
-/

namespace FileRelay

/-- Makes a call on a pool, in a script that runs for `self`.  There is no answer to a
call that has to wait for a free id. -/
def PoolCall.serve? (pool : IdPool) (self : RequestId) : PoolCall → Option (IdPool × Answer)
  | .next => pool.next?.map fun (id, pool) => (pool, .id id)
  | .nextMany count =>
    let (ids, pool) := pool.nextMany count
    if ids.length = count then some (pool, .ids ids) else none
  | .reserve ref =>
    match pool.reserve? (ref.resolve self).val with
    | some pool => some (pool, .flag true)
    | none => some (pool, .flag false)
  | .release ref =>
    let id := (ref.resolve self).val
    some (pool.release id, .flag (pool.isLive id))
  | .isLive ref => some (pool, .flag (pool.isLive (ref.resolve self).val))
  | .liveCount => some (pool, .count pool.liveCount)
  | .rewind start => some (pool.rewind start, .none)

end FileRelay
