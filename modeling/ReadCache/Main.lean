import ReadCache.Scan.Run

namespace ReadCache

def settingNames : List String :=
  ["CHUNK_CACHE_SIZE_MB", "CHUNK_CACHE_RESERVED_MB", "CHUNK_CACHE_CAPACITY_BYTES",
    "CHUNK_CACHE_DISABLED", "LOG_LEVEL", "LOG_JSON"]

def readEnvironment : IO (List (String × String)) :=
  settingNames.filterMapM fun name => do
    return (← IO.getEnv name).map (name, ·)

def readError : IO.Error → Error
  | .noFileOrDirectory .. => .io "No such file or directory (os error 2)"
  | .permissionDenied .. => .io "Permission denied (os error 13)"
  | .inappropriateType .. => .io "Is a directory (os error 21)"
  | e => .io (toString e)

def readSource (name : String) : IO (String × Except Error ByteSource) := do
  try
    return (name, .ok (.ofFile name (← IO.FS.readBinFile name)))
  catch e =>
    return (name, .error (readError e))

def printReport (o : Scan.Options String) (r : Scan.Report) : IO UInt32 := do
  IO.print (if o.json then r.jsonText else r.text)
  match r.leak? with
  | none => return 0
  | some failure =>
    IO.eprintln failure.text
    return 1

def scanFiles (o : Scan.Options String) : IO UInt32 := do
  let sources ← o.files.mapM readSource
  let openSource (name : String) : Except Error ByteSource :=
    (sources.lookup name).getD (.error ByteSource.notFound)
  let start ← IO.monoMsNow
  match Scan.run o openSource 0 with
  | .error failure =>
    IO.eprintln failure.text
    return 1
  | .ok report =>
    let stop ← IO.monoMsNow
    printReport o { report with elapsedMs := stop - start }

end ReadCache

open ReadCache in
def main (arguments : List String) : IO UInt32 := do
  let environment ← readEnvironment
  match Scan.Options.ofArguments? arguments (environment.lookup ·) with
  | none =>
    IO.eprintln "usage: read-cache scan [options] files"
    return 2
  | some options => scanFiles options
