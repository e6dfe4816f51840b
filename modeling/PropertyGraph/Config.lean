/-
# Config -- settings from a document

A configuration has three sections: how reads are cached, how writes are held
back, and how much queries may ask for.  Every section and every setting may be
left out, and then has its default; a name that is not known is refused.

* `Config.ofText` reads and checks a document, `Config.toText` writes one; what
  reads and writes documents is a parameter, `TomlLibrary`.
* `Config.check` names the first setting that has to be positive and is not.
* `Config.load` reads a file; a missing file gives the defaults.
-/
import PropertyGraph.Bytes.Utf8
import PropertyGraph.Cache.Options
import PropertyGraph.Query.Limits
import PropertyGraph.Toml.Basic

namespace PropertyGraph

set_option autoImplicit false

/-- How reads are cached. -/
structure CacheSection where
  enabled : Bool
  maxBytes : UInt64
  cacheTimeMs : UInt64
  cleanWaitMs : UInt64
  shards : UInt64
  deriving DecidableEq

/-- How writes are held back. -/
structure StorageSection where
  bufferSize : UInt64
  writeAttempts : UInt64
  writeWaitMs : UInt64
  continuous : Bool
  deriving DecidableEq

/-- How much queries may ask for. -/
structure QuerySection where
  hardLimit : UInt64
  vertexLimit : UInt64
  deriving DecidableEq

structure Config where
  cache : CacheSection
  storage : StorageSection
  query : QuerySection
  deriving DecidableEq

namespace Setting

/-- A number of 64 bits. -/
def ofWord (v : UInt64) : Setting := .int v.toNat

def bool? : Setting → Option Bool
  | .bool b => some b
  | .int _ => none

def word? : Setting → Option UInt64
  | .int n => if 0 ≤ n ∧ n < 0x10000000000000000 then some (UInt64.ofNat n.toNat) else none
  | .bool _ => none

end Setting

/-- A section of a configuration: its settings in order, and how one is given. -/
class Section (α : Type) where
  default : α
  settings : α → List (String × Setting)
  /-- Gives the setting of a name a value that it accepts. -/
  give : α → String → Setting → Option α

namespace Section

variable {α : Type} [Section α]

/-- The section with these settings given. -/
def giveAll (s : α) (entries : List (String × Setting)) : Option α :=
  entries.foldlM (fun s e => give s e.1 e.2) s

/-- The section that a document gives, by name or by order.  Values of a list
behind the last setting are left alone. -/
def ofToml? : Toml → Option α
  | .table entries => giveAll default entries
  | .list values => do
      let entries ← (((settings (default : α)).map Prod.fst).zip values).mapM fun e =>
        e.2.map fun v => (e.1, v)
      giveAll default entries
  | .setting _ => none

end Section

instance : Section CacheSection where
  default := ⟨false, 64 * 1024 * 1024, 10000, 50, 8⟩
  settings s := [("db_cache", .bool s.enabled), ("db_cache_size", .ofWord s.maxBytes),
    ("db_cache_time_ms", .ofWord s.cacheTimeMs),
    ("db_cache_clean_wait_ms", .ofWord s.cleanWaitMs), ("shards", .ofWord s.shards)]
  give s key v :=
    match key with
    | "db_cache" => v.bool?.map fun enabled => { s with enabled }
    | "db_cache_size" => v.word?.map fun maxBytes => { s with maxBytes }
    | "db_cache_time_ms" => v.word?.map fun cacheTimeMs => { s with cacheTimeMs }
    | "db_cache_clean_wait_ms" => v.word?.map fun cleanWaitMs => { s with cleanWaitMs }
    | "shards" => v.word?.map fun shards => { s with shards }
    | _ => none

instance : Section StorageSection where
  default := ⟨1024, 5, 100, false⟩
  settings s := [("buffer_size", .ofWord s.bufferSize), ("write_attempts", .ofWord s.writeAttempts),
    ("write_wait_ms", .ofWord s.writeWaitMs), ("continuous_persistence", .bool s.continuous)]
  give s key v :=
    match key with
    | "buffer_size" => v.word?.map fun bufferSize => { s with bufferSize }
    | "write_attempts" => v.word?.map fun writeAttempts => { s with writeAttempts }
    | "write_wait_ms" => v.word?.map fun writeWaitMs => { s with writeWaitMs }
    | "continuous_persistence" => v.bool?.map fun continuous => { s with continuous }
    | _ => none

instance : Section QuerySection where
  default := ⟨QueryLimits.default.hard, QueryLimits.default.vertex⟩
  settings s := [("hard_max_limit", .ofWord s.hardLimit),
    ("vertex_hard_max_limit", .ofWord s.vertexLimit)]
  give s key v :=
    match key with
    | "hard_max_limit" => v.word?.map fun hardLimit => { s with hardLimit }
    | "vertex_hard_max_limit" => v.word?.map fun vertexLimit => { s with vertexLimit }
    | _ => none

namespace Config

def default : Config := ⟨Section.default, Section.default, Section.default⟩

/-- Every section with its settings. -/
def tables (c : Config) : List NamedTable :=
  [("cache", Section.settings c.cache), ("storage", Section.settings c.storage),
    ("query", Section.settings c.query)]

/-- Gives a section. -/
def give (c : Config) (entry : String × Toml) : Option Config :=
  match entry.1 with
  | "cache" => (Section.ofToml? entry.2).map fun cache => { c with cache }
  | "storage" => (Section.ofToml? entry.2).map fun storage => { c with storage }
  | "query" => (Section.ofToml? entry.2).map fun query => { c with query }
  | _ => none

/-- The configuration of a document, not checked. -/
def read? (toml : TomlLibrary) (text : String) : Option Config := do
  (← toml.read? text).foldlM give default

/-- The settings that have to be positive, in the order they are checked. -/
def positives (c : Config) : List (String × UInt64) :=
  [("cache.db_cache_size", c.cache.maxBytes), ("cache.shards", c.cache.shards),
    ("storage.buffer_size", c.storage.bufferSize),
    ("storage.write_attempts", c.storage.writeAttempts),
    ("query.hard_max_limit", c.query.hardLimit),
    ("query.vertex_hard_max_limit", c.query.vertexLimit)]

/-- Every setting that has to be positive is. -/
def check (c : Config) : Outcome Unit :=
  match c.positives.find? fun s => s.2 == 0 with
  | some s => .error (.config (.notPositive s.1))
  | none => .ok ()

/-- The checked configuration of a document. -/
def ofText (toml : TomlLibrary) (text : String) : Outcome Config :=
  match read? toml text with
  | none => .error (.config .unparsable)
  | some c => do
      c.check
      return c

/-- The document of a configuration. -/
def toText (toml : TomlLibrary) (c : Config) : Outcome String :=
  match toml.write? c.tables with
  | some text => .ok text
  | none => .error (.config .unwritable)

/-- The configuration of a file, whose content is absent if the file is. -/
def load (toml : TomlLibrary) (path : String) : Option Bytes → Outcome Config
  | none => .ok default
  | some content =>
      match Bytes.text? content with
      | none => .error (.unreadable "stream did not contain valid UTF-8")
      | some text =>
          match ofText toml text with
          | .error (.config reason) => .error (.configFile path reason)
          | outcome => outcome

def cacheOptions (c : Config) : CacheOptions :=
  CacheOptions.withShards
    { enabled := c.cache.enabled
      maxBytes := c.cache.maxBytes.toNat
      cacheTime := c.cache.cacheTimeMs.toNat
      cleanWait := c.cache.cleanWaitMs.toNat
      shards := 1 } c.cache.shards.toNat

def transactionOptions (c : Config) : TransactionOptions :=
  ((⟨1, 1, c.storage.writeWaitMs.toNat, c.storage.continuous⟩ : TransactionOptions).withBufferSize
    c.storage.bufferSize.toNat).withWriteAttempts c.storage.writeAttempts.toNat

def queryLimits (c : Config) : QueryLimits := ⟨c.query.hardLimit, c.query.vertexLimit⟩

end Config

end PropertyGraph
