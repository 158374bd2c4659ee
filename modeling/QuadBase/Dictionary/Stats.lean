import QuadBase.Dictionary.Basic

/-!
# Sizes of a dictionary

What a dictionary holds and how it was used, as numbers, in words, and as a dump for debugging.
-/

namespace QuadBase.Dictionary

/-- Sizes and counted calls. -/
structure Stats where
  namespaces : Nat
  languages : Nat
  /-- The initial datatypes included. -/
  datatypes : Nat
  /-- The number of records. -/
  values : Nat
  tableBytes : Nat
  primaryBytes : Nat
  secondaryBytes : Nat
  calls : Calls
  deriving DecidableEq

/-- The sizes of a dictionary, with the calls counted for it. -/
def TermDictionary.stats (d : TermDictionary) (calls : Calls) : Stats :=
  { namespaces := d.namespaces.size
    languages := d.languages.size
    datatypes := d.datatypes.size
    values := d.records.count
    tableBytes := d.records.tableBytes
    primaryBytes := d.records.primary.size
    secondaryBytes := d.records.secondary.size
    calls }

/-- The numbers in words. -/
def Stats.text (s : Stats) : String :=
  toString s.namespaces ++ " namespaces, " ++ toString s.languages ++ " languages, " ++
    toString s.datatypes ++ " datatypes, " ++ toString s.values ++ " values, " ++
    toString s.tableBytes ++ " table bytes, " ++ toString s.primaryBytes ++ " primary bytes, " ++
    toString s.secondaryBytes ++ " secondary bytes, " ++ s.calls.text

/-- A named record of fields in a dump.  An `open` one has more than is shown. -/
def dump (name : String) (fields : List (String × String)) (isOpen : Bool) : String :=
  let parts := fields.map fun (field, value) => field ++ ": " ++ value
  let parts := if isOpen then parts ++ [".."] else parts
  name ++ " \x7b " ++ String.intercalate ", " parts ++ " \x7d"

/-- The configuration in a dump. -/
def Config.dumpText (c : Config) : String :=
  dump "DictionaryConfig"
    [("initial_table_capacity", toString c.tableCapacity),
     ("encode_cache_capacity", toString c.encodeCacheCapacity),
     ("decode_cache_capacity", toString c.decodeCacheCapacity),
     ("cache_lock_count", toString c.cacheShards),
     ("inline_string_limit", toString c.inlineLimit),
     ("primary_limit", toString c.primaryLimit)] false

/-- The counted calls in a dump. -/
def Calls.dumpText (c : Calls) : String :=
  dump "MetricsSnapshot"
    [("encode_embedded", toString c.encode.embedded),
     ("encode_cached", toString c.encode.cached),
     ("encode_indexed", toString c.encode.indexed),
     ("decode_embedded", toString c.decode.embedded),
     ("decode_cached", toString c.decode.cached),
     ("decode_indexed", toString c.decode.indexed)] false

/-- The sizes in a dump. -/
def Stats.dumpText (s : Stats) : String :=
  dump "DictionaryStats"
    [("namespaces", toString s.namespaces),
     ("languages", toString s.languages),
     ("datatypes", toString s.datatypes),
     ("values", toString s.values),
     ("table_bytes", toString s.tableBytes),
     ("primary_bytes", toString s.primaryBytes),
     ("secondary_bytes", toString s.secondaryBytes),
     ("calls", s.calls.dumpText)] false

/-- A dictionary in a dump. -/
def TermDictionary.dumpText (d : TermDictionary) (calls : Calls) : String :=
  dump "TermDictionary"
    [("config", d.config.dumpText), ("stats", (d.stats calls).dumpText)] true

end QuadBase.Dictionary
