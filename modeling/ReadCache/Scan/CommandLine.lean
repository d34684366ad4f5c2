import ReadCache.Config.Basic

namespace ReadCache.Scan

structure Options (Name : Type) where
  files : List Name
  chunkSize : UInt64
  threads : UInt64
  passes : UInt64
  cacheSizeMb : UInt64
  reservedMb : UInt64
  capacityBytes : Option UInt64
  disable : Bool
  roundUp : Bool
  maxReferenceAttempts : UInt32
  json : Bool
  deriving DecidableEq, Repr

def Options.config {Name : Type} (o : Options Name) : Config where
  fileCacheSizeMb := o.cacheSizeMb
  reservedPoolSpaceMb := o.reservedMb
  capacityBytes := o.capacityBytes
  enabled := !o.disable
  roundUp := o.roundUp
  maxReferenceAttempts := o.maxReferenceAttempts

def numeral? (cs : List Char) : Option Nat :=
  if cs.isEmpty || !cs.all Char.isDigit then none
  else some (cs.foldl (fun n c => n * 10 + (c.toNat - 48)) 0)

def word? (text : String) : Option UInt64 := do
  let n ← match text.toList with
    | '+' :: cs => numeral? cs
    | cs => numeral? cs
  if n < UInt64.size then some (.ofNat n) else none

/-- A half word, read as a signed word that turns out to be in its range. -/
def halfWord? (text : String) : Option UInt32 := do
  let n ← match text.toList with
    | '+' :: cs => numeral? cs
    | '-' :: cs => (numeral? cs).filter (· = 0)
    | cs => numeral? cs
  if n < UInt32.size then some (.ofNat n) else none

def switch? : String → Option Bool
  | "true" => some true
  | "false" => some false
  | _ => none

def valueOptions : List String :=
  ["chunk-size", "threads", "passes", "cache-size-mb", "reserved-mb", "capacity-bytes",
    "max-reference-attempts", "log-level"]

def flagOptions : List String := ["disable", "round-up", "json", "log-json"]

def commonOptions : List String := ["log-level", "log-json"]

/-- Arguments told apart, in the order in which they came. -/
structure Arguments where
  values : List (String × String) := []
  flags : List String := []
  plain : List String := []

namespace Arguments

def allows (a : Arguments) (name : String) : Bool := !a.plain.isEmpty || name ∈ commonOptions

def addValue? (a : Arguments) (name value : String) : Option Arguments :=
  if name ∉ valueOptions || !a.allows name || (a.values.lookup name).isSome then none
  else some { a with values := a.values ++ [(name, value)] }

def addFlag? (a : Arguments) (name : String) : Option Arguments :=
  if !a.allows name || name ∈ a.flags then none else some { a with flags := a.flags ++ [name] }

/-- Tells arguments apart: `--name=value`, `--name value`, `--flag`, the command and then files.
What follows `--` is a file whatever it looks like. -/
def read? (a : Arguments) : List String → Option Arguments
  | [] => some a
  | text :: rest =>
    match text.toList with
    | '-' :: '-' :: name =>
      if name.isEmpty then
        if a.plain.isEmpty then none else some { a with plain := a.plain ++ rest }
      else
        let option := String.ofList (name.takeWhile (· ≠ '='))
        match name.dropWhile (· ≠ '=') with
        | _ :: value => do (← a.addValue? option (String.ofList value)).read? rest
        | [] =>
          if option ∈ flagOptions then do (← a.addFlag? option).read? rest
          else match rest with
            | value :: rest =>
              if value.startsWith "-" && value ≠ "-" then none
              else do (← a.addValue? option value).read? rest
            | [] => none
    | '-' :: _ :: _ => none
    | _ => { a with plain := a.plain ++ [text] }.read? rest

end Arguments

def Options.ofArguments? (arguments : List String) (environment : String → Option String) :
    Option (Options String) := do
  let a ← ({} : Arguments).read? arguments
  let "scan" :: files := a.plain | none
  if files.isEmpty || files.any String.isEmpty then none
  let given (name : String) : Option String := a.values.lookup name
  let orElse (name setting : String) : Option String := (given name).or (environment setting)
  let word (text : Option String) (otherwise : UInt64) : Option UInt64 :=
    match text with
    | some text => word? text
    | none => some otherwise
  let flag (name setting : String) : Option Bool :=
    if name ∈ a.flags then some true
    else match environment setting with
      | some text => switch? text
      | none => some false
  -- read before the flag is known
  if (environment "LOG_JSON").any fun text => (switch? text).isNone then none
  return {
    files := files
    chunkSize := ← word (given "chunk-size") 65536
    threads := ← word (given "threads") 4
    passes := ← word (given "passes") 2
    cacheSizeMb := ← word (orElse "cache-size-mb" "CHUNK_CACHE_SIZE_MB") 512
    reservedMb := ← word (orElse "reserved-mb" "CHUNK_CACHE_RESERVED_MB") 32
    capacityBytes := ← match orElse "capacity-bytes" "CHUNK_CACHE_CAPACITY_BYTES" with
      | some text => (word? text).map some
      | none => some none
    disable := ← flag "disable" "CHUNK_CACHE_DISABLED"
    roundUp := "round-up" ∈ a.flags
    maxReferenceAttempts := ← match given "max-reference-attempts" with
      | some text => halfWord? text
      | none => some 1000
    json := "json" ∈ a.flags }

end ReadCache.Scan
