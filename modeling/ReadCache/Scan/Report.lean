import ReadCache.Counters
import ReadCache.Error
import ReadCache.Json.Printer

namespace ReadCache.Scan

inductive Failure where
  | noThreads
  | configuration (e : Error)
  | opening (name : String) (e : Error)
  | creatingReader (name : String) (e : Error)
  | reading (e : Error)
  | differs (position : UInt64) (path : String)
  | workerPanicked
  | leaked (blocks : Nat)
  deriving DecidableEq, Repr

namespace Failure

def message : Failure → String
  | noThreads => "--threads must be at least 1"
  | configuration _ => "invalid cache configuration"
  | opening name _ => s!"opening {name}"
  | creatingReader name _ => s!"creating reader for {name}"
  | reading e => e.message
  | differs position path => s!"chunk at {position} of {path} differs from the file contents"
  | workerPanicked => "scan worker panicked"
  | leaked blocks => s!"{blocks} chunk buffers leaked"

/-- The errors underneath, the outermost first. -/
def causes : Failure → List String
  | configuration e | opening _ e | creatingReader _ e => e.message :: e.cause?.toList
  | reading e => e.cause?.toList
  | _ => []

def text (f : Failure) : String :=
  let lines := match f.causes with
    | [] => []
    | [cause] => ["    " ++ cause]
    | causes => causes.zipIdx.map fun (cause, i) => "    " ++ toString i ++ ": " ++ cause
  let underneath := if lines.isEmpty then "" else "\n\nCaused by:\n" ++ "\n".intercalate lines
  "Error: " ++ f.message ++ underneath

end Failure

structure Report where
  files : Nat
  threads : Nat
  passes : Nat
  cacheEnabled : Bool
  chunksRead : Nat
  bytesRead : Nat
  elapsedMs : Nat
  cache : ReadCache.Report
  poolAcquired : Nat
  poolReleased : Nat
  poolOutstanding : Nat
  deriving DecidableEq, Repr

namespace Report

def text (r : Report) : String :=
  s!"read {r.chunksRead} chunks ({r.bytesRead} bytes) from {r.files} files in {r.elapsedMs} ms\n" ++
    r.cache.text ++
    s!"\npool:               {r.poolAcquired} acquired, {r.poolReleased} released, " ++
    s!"{r.poolOutstanding} outstanding\n"

def jsonText (r : Report) : String :=
  let cache := Json.objectText 2
    [("hits", toString r.cache.hits), ("misses", toString r.cache.misses),
      ("hit_ratio", Json.realText r.cache.hitRatio),
      ("load_success", toString r.cache.loadSuccess),
      ("load_failure", toString r.cache.loadFailure),
      ("average_load_latency_us", toString r.cache.averageLoadMicros),
      ("evictions_size", toString r.cache.evictionsSize),
      ("evictions_explicit", toString r.cache.evictionsExplicit),
      ("evictions_replaced", toString r.cache.evictionsReplaced),
      ("entries", toString r.cache.entries), ("weighted_size", toString r.cache.weightedSize),
      ("capacity", toString r.cache.capacity)]
  let pool := Json.objectText 2
    [("acquired", toString r.poolAcquired), ("released", toString r.poolReleased),
      ("outstanding", toString r.poolOutstanding)]
  Json.objectText 0
    [("files", toString r.files), ("threads", toString r.threads), ("passes", toString r.passes),
      ("cache_enabled", toString r.cacheEnabled), ("chunks_read", toString r.chunksRead),
      ("bytes_read", toString r.bytesRead), ("elapsed_ms", toString r.elapsedMs),
      ("cache", cache), ("pool", pool)] ++ "\n"

def leak? (r : Report) : Option Failure :=
  if r.poolOutstanding = 0 then none else some (.leaked r.poolOutstanding)

end Report
end ReadCache.Scan
