/-
# Cache.Options -- settings of caches and write buffers

Times are counted in the ticks of one clock.  A setting that has to be positive
is brought up to one where it is set.
-/
import PropertyGraph.Fault

namespace PropertyGraph

set_option autoImplicit false

structure CacheOptions where
  /-- Whether answers are kept at all. -/
  enabled : Bool
  /-- Bound on the summed weight of the kept answers. -/
  maxBytes : Nat
  /-- How long an answer may be kept; zero sets no end. -/
  cacheTime : Nat
  /-- How long a key stays expired before its answers may be dropped. -/
  cleanWait : Nat
  /-- Number of parts that share the budget evenly. -/
  shards : Nat
  deriving DecidableEq

namespace CacheOptions

def default : CacheOptions := ⟨true, 64 * 1024 * 1024, 10000, 50, 8⟩

def withShards (o : CacheOptions) (shards : Nat) : CacheOptions :=
  { o with shards := max shards 1 }

end CacheOptions

structure TransactionOptions where
  /-- Number of changes that make up a batch. -/
  bufferSize : Nat
  /-- Attempts to write a batch. -/
  writeAttempts : Nat
  /-- Longest pause between two attempts. -/
  writeWait : Nat
  /-- Whether a full buffer is written at once instead of on commit. -/
  continuous : Bool
  deriving DecidableEq

namespace TransactionOptions

def default : TransactionOptions := ⟨1024, 5, 100, false⟩

def withBufferSize (o : TransactionOptions) (size : Nat) : TransactionOptions :=
  { o with bufferSize := max size 1 }

def withWriteAttempts (o : TransactionOptions) (attempts : Nat) : TransactionOptions :=
  { o with writeAttempts := max attempts 1 }

end TransactionOptions

end PropertyGraph
