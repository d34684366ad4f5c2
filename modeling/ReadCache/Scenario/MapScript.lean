import ReadCache.ShardedMap
import ReadCache.Text.Digest

namespace ReadCache.Scenario

inductive MapStep where
  | insert (key : String) (value : Int)
  | get (key : String)
  | remove (key : String)
  | clear
  deriving Repr

structure MapReply where
  /-- What was bound to the key, before the step if the step changes it. -/
  value : Option Int
  size : Nat
  isEmpty : Bool
  inUse : Bool

abbrev TextMap := ShardedMap String Int

def TextMap.create? (shards : UInt64) : Option TextMap :=
  ShardedMap.create? (fun s => fnv1a s.toUTF8) shards

def MapStep.run : MapStep → TextMap → Option Int × TextMap
  | .insert key value, m => (m.get? key, m.insert key value)
  | .get key, m => (m.get? key, m)
  | .remove key, m => (m.get? key, m.erase key)
  | .clear, m => (none, m.clear)

def MapStep.runAll : List MapStep → TextMap → List MapReply × TextMap
  | [], m => ([], m)
  | step :: rest, m =>
    let (value, m) := step.run m
    let (replies, last) := runAll rest m
    (⟨value, m.size, m.isEmpty, m.shards.any (!·.isEmpty)⟩ :: replies, last)

def TextMap.sorted (m : TextMap) : List (String × Int) :=
  m.toList.mergeSort fun a b => a.1 ≤ b.1

end ReadCache.Scenario
