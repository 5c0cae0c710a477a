import Mathlib.Data.List.DropRight
import Conproxy.Config

/-!
# Building adapters

`create_adapter` and `UpstreamPool::new` of `pool.rs`, with the checks of `pgvector.rs`. The
environment, the HTTP client and the database are outside of the program: `Backends` says how
they answer. Query modes and connection limits of an upstream are left out.
-/

namespace Conproxy

set_option autoImplicit false

def fromSecs (secs : Nat) : Duration := secs * 1000000000

def asSecs (d : Duration) : Nat := d / 1000000000

theorem asSecs_fromSecs (secs : Nat) : asSecs (fromSecs secs) = secs :=
  Nat.mul_div_cancel secs (by decide)

inductive DistanceMetric where
  | cosine
  | l2
  | innerProduct
deriving DecidableEq

structure PgvectorConfig where
  url : String
  table : String
  embeddingColumn : String
  contentColumn : String
  titleColumn : Option String
  metadataColumns : List String
  distanceMetric : DistanceMetric
  dimensions : Option Nat
  timeoutSecs : Nat
deriving DecidableEq

def isSafeIdentifier (s : String) : Bool :=
  s ≠ "" && s.utf8ByteSize ≤ 128 && s.toList.all fun c => c.isAlphanum || c = '_'

namespace PgvectorConfig

def identifiers (c : PgvectorConfig) : List String :=
  [c.table, c.embeddingColumn, c.contentColumn] ++ c.titleColumn.toList ++ c.metadataColumns

def validate (c : PgvectorConfig) : Except String Unit :=
  if c.url = "" then .error "pgvector url is required"
  else if c.table = "" then .error "pgvector table is required"
  else if c.embeddingColumn = "" then .error "pgvector embedding_column is required"
  else if c.contentColumn = "" then .error "pgvector content_column is required"
  else
    match c.identifiers.find? fun name => !isSafeIdentifier name with
    | some name => .error ("unsafe identifier: " ++ name)
    | none => .ok ()

end PgvectorConfig

inductive UpstreamAdapter where
  | elasticsearch (baseUrl index : String) (timeout : Duration)
      (searchFields returnFields : List String) (apiKey : Option String)
  | qdrant (baseUrl collectionName : String) (timeout : Duration) (apiKey : Option String)
  | meilisearch (baseUrl index : String) (timeout : Duration)
      (searchAttributes displayedAttributes : List String) (apiKey : Option String)
  | milvus (baseUrl collectionName : String) (timeout : Duration) (apiKey : Option String)
      (vectorField : String) (outputFields : List String) (dimensions : Option Nat)
  | pinecone (baseUrl : String) (apiKey : Option String) (timeout : Duration)
      (dimensions : Option Nat)
  | pgvector (config : PgvectorConfig)
  | genericRest (baseUrl : String) (timeout : Duration)
deriving DecidableEq

/-- What a build asks outside of the program: the environment variables, whether the binary has
the `pgvector` feature, the error of the HTTP client of an adapter, and the error of the
connection to a database. -/
structure Backends where
  env : String → Option String
  pgvectorFeature : Bool
  client : UpstreamAdapter → Except String Unit
  connect : PgvectorConfig → Except String Unit

/-- A text in `$` and braces names a variable; an unset or empty one is no value. -/
def resolveEnvRef (env : String → Option String) (s : String) : Option String :=
  match s.toList with
  | '$' :: '\x7b' :: rest =>
    if rest.getLast? = some '\x7d' then
      (env (String.ofList rest.dropLast)).filter fun v => v ≠ ""
    else some s
  | _ => some s

namespace Backends

variable (b : Backends)

def restAdapter (a : UpstreamAdapter) : Except String UpstreamAdapter := do
  b.client a
  return a

def genericAdapter (url : String) (timeout : Duration) : Except String UpstreamAdapter :=
  b.restAdapter (.genericRest (String.ofList (url.toList.rdropWhile fun c => c = '/')) timeout)

/-- `PgvectorAdapter::connect`: the configuration is checked before the database is asked. -/
def pgvectorAdapter (config : PgvectorConfig) : Except String UpstreamAdapter := do
  (do config.validate; b.connect config).mapError fun e => "Network error: " ++ e
  return .pgvector config

def createPgvector (c : UpstreamEndpointConfig) : Except String UpstreamAdapter :=
  match c.table <|> c.index with
  | none => .error "pgvector: 'table' (or 'collection') field is required"
  | some table =>
    (b.pgvectorAdapter
      { url := c.url
        table := table
        embeddingColumn := c.embeddingColumn.getD "vector"
        contentColumn := c.contentColumn.getD "content"
        titleColumn := none
        metadataColumns := c.metadataColumns
        distanceMetric := .cosine
        dimensions := c.dimensions
        timeoutSecs := c.timeout }).mapError
      fun e => "pgvector connect (" ++ c.url ++ "): " ++ e

def createAdapter (c : UpstreamEndpointConfig) : Except String UpstreamAdapter :=
  let timeout := fromSecs c.timeout
  let apiKey := c.apiKey.bind (resolveEnvRef b.env)
  let type := c.upstreamType
  if type = some "elasticsearch" ∨ type = some "opensearch" then
    b.restAdapter (.elasticsearch c.url (c.index.getD "documents") timeout
      (if c.searchFields.isEmpty then ["content"] else c.searchFields) c.returnFields apiKey)
  else if type = some "qdrant" then
    b.restAdapter (.qdrant c.url (c.index.getD "default") timeout apiKey)
  else if type = some "meilisearch" then
    b.restAdapter (.meilisearch c.url (c.index.getD "documents") timeout c.searchFields
      c.returnFields apiKey)
  else if type = some "milvus" then
    b.restAdapter (.milvus c.url (c.index.getD "default") timeout apiKey "vector"
      (if c.returnFields.isEmpty then ["content"] else c.returnFields) c.dimensions)
  else if type = some "pinecone" then
    b.restAdapter (.pinecone c.url apiKey timeout c.dimensions)
  else if b.pgvectorFeature ∧ type = some "pgvector" then b.createPgvector c
  else b.genericAdapter c.url timeout

end Backends

def upstreamTypeOf (type : Option String) : UpstreamType :=
  match type with
  | none => .unknown
  | some t =>
    if ["elasticsearch", "opensearch", "meilisearch"].contains t then .fullTextSearch
    else if ["qdrant", "pinecone", "milvus", "pgvector"].contains t then .vectorDatabase
    else .unknown

/-- A new upstream is online. -/
def PooledUpstream.ofConfig (c : UpstreamEndpointConfig) : PooledUpstream where
  id := c.id
  weight := c.weight.getD 1
  priority := c.priority.getD 0
  enabled := c.enabled.getD true
  status := .online
  upstreamType := upstreamTypeOf c.upstreamType

/-- A pool with the adapters of its upstreams, in their order. -/
structure BuiltPool where
  pool : UpstreamPool
  adapters : List UpstreamAdapter
deriving DecidableEq

/-- `UpstreamPool::new`: the first adapter that cannot be built is the error. -/
def BuiltPool.new (b : Backends) (configs : List UpstreamEndpointConfig)
    (strategy : LoadBalanceStrategy) : Except String BuiltPool := do
  let adapters ← configs.mapM b.createAdapter
  return ⟨⟨configs.map PooledUpstream.ofConfig, strategy, 0⟩, adapters⟩

end Conproxy
