import Conproxy.Layers
import Conproxy.Validation

/-!
# Applying a tune

`apply_tune_export` and `apply_export_artifact` write the scope of a tuning session to a context
of the configuration file: the file is loaded, the context is updated or created, and the whole
file is written again. The formats of the text and of the scope are parameters.
-/

namespace Conproxy

open Checks WeightedTable

set_option autoImplicit false

/-! ## Files -/

/-- A path as it is displayed, and whether it is valid UTF-8. -/
structure FilePath where
  name : String
  utf8 : Bool
deriving DecidableEq

structure Disk where
  globalConfigPath : FilePath
  localConfigPath : FilePath
  present : FilePath → Bool
  read : FilePath → Except String String
  /-- Why a write would fail. -/
  writeError : FilePath → Option String
  /-- Why `.conproxy/` and its directories could not be created. -/
  localDirsError : Option String

namespace Disk

def write (disk : Disk) (path : FilePath) (content : String) : Except String Disk :=
  match disk.writeError path with
  | some e => .error e
  | none =>
    .ok { disk with
      present := Function.update disk.present path true
      read := Function.update disk.read path (.ok content) }

def ensureLocalDirs (disk : Disk) : Except String Unit :=
  match disk.localDirsError with
  | some e => .error e
  | none => .ok ()

theorem read_write {disk disk' : Disk} {path : FilePath} {content : String}
    (h : disk.write path content = .ok disk') : disk'.read path = .ok content := by
  unfold write at h
  cases hfails : disk.writeError path with
  | some e =>
    rw [hfails] at h
    cases h
  | none =>
    rw [hfails] at h
    cases h
    exact Function.update_self path _ _

end Disk

inductive ConproxyError where
  | configValidation (e : String)
  | io (e : String)
  | tomlParse (e : String)
  | tomlSerialize (e : String)
deriving DecidableEq

def ConproxyError.display : ConproxyError → String
  | configValidation e => "Config validation error: " ++ e
  | io e => "IO error: " ++ e
  | tomlParse e => "TOML parse error: " ++ e
  | tomlSerialize e => "TOML serialize error: " ++ e

/-- The formats: TOML for the file, JSON for a scope. -/
structure Codec (Value : Type) where
  parse : String → Except String ConfigFile
  render : ConfigFile → Except String String
  scopeOf : Value → Except String ProxyScopeConfig

/-- A file that is written and read again says the same. The removed table is never written. -/
def Codec.RoundTrips {Value : Type} (codec : Codec Value) : Prop :=
  ∀ file content, file.llm = none → codec.render file = .ok content →
    ∃ file', codec.parse content = .ok file' ∧ ConfigFile.Same file file'

structure TuneExportArtifact (Value : Type) where
  contextId : String
  scope : Value
  toml : String
  sourceRunId : Option String

structure ApplyReport where
  configPath : FilePath
  contextId : String
  sourceRunId : String
  contextCreated : Bool
  tomlApplied : String
deriving DecidableEq

/-- The scope of a context is replaced, and a context that is missing is created. -/
def ConfigFile.upsertScope (file : ConfigFile) (id : String) (scope : ProxyScopeConfig) :
    ConfigFile :=
  { file with
    contexts :=
      file.contexts.insert id { (file.contexts.lookup id).getD .blank with scope := scope } }

section Apply

variable {Value : Type} (codec : Codec Value) (u : CaseTables) (text : F32 → String) (disk : Disk)

def readConfig (path : FilePath) : Except ConproxyError ConfigFile := do
  let content ← (disk.read path).mapError .io
  (codec.parse content).mapError .tomlParse

def loadFrom (path : FilePath) : Except ConproxyError ConfigFile := do
  let config ← readConfig codec disk path
  (config.validate u text).mapError .configValidation
  return config

/-- `load_global` and `load_local`. -/
def loadPresent (path : FilePath) : Except ConproxyError (Option ConfigFile) :=
  if disk.present path then some <$> readConfig codec disk path else .ok none

/-- `Config::load`: the local file over the global one. -/
def load : Except ConproxyError ConfigFile := do
  let base ← loadPresent codec disk disk.globalConfigPath
  let own ← loadPresent codec disk disk.localConfigPath
  let merged : ConfigFile :=
    match base, own with
    | some g, some l => g.mergeWith l
    | some g, none => g
    | none, some l => l
    | none, none => .default
  (merged.validate u text).mapError .configValidation
  return merged

def save (config : ConfigFile) : Except ConproxyError Disk := do
  disk.ensureLocalDirs.mapError .io
  let content ← (codec.render config).mapError .tomlSerialize
  (disk.write disk.localConfigPath content).mapError .io

def loadTuned (configPath : Option FilePath) : Except String ConfigFile :=
  match configPath with
  | some p =>
    if p.utf8 then
      (loadFrom codec u text disk p).mapError fun e =>
        "Failed to load config from " ++ p.name ++ ": " ++ e.display
    else .error ("config path is not valid UTF-8: " ++ p.name)
  | none => (load codec u text disk).mapError fun e =>
      "Failed to load default config: " ++ e.display

def saveTuned (configPath : Option FilePath) (config : ConfigFile) : Except String Disk :=
  match configPath with
  | some p => do
    let content ← (codec.render config).mapError ("TOML serialize failed: " ++ ·)
    (disk.write p content).mapError ("Failed to write " ++ p.name ++ ": " ++ ·)
  | none => (save codec disk config).mapError fun e =>
      "Failed to save local config: " ++ e.display

def applyExportArtifact (artifact : TuneExportArtifact Value) (configPath : Option FilePath) :
    Except String (Disk × ApplyReport) := do
  let config ← loadTuned codec u text disk configPath
  let scope ← (codec.scopeOf artifact.scope).mapError ("Failed to parse exported scope JSON: " ++ ·)
  let disk' ← saveTuned codec disk configPath (config.upsertScope artifact.contextId scope)
  return (disk',
    { configPath := configPath.getD disk.localConfigPath
      contextId := artifact.contextId
      sourceRunId := artifact.sourceRunId.getD ""
      contextCreated := !decide (artifact.contextId ∈ config.contexts)
      tomlApplied := artifact.toml })

/-- The same, for the artifact that the session store exports. -/
def applyTuneExport (exported : Except String (TuneExportArtifact Value))
    (configPath : Option FilePath) : Except String (Disk × ApplyReport) := do
  let artifact ← exported
  applyExportArtifact codec u text disk artifact configPath

end Apply

/-! ## Acceptance -/

namespace ConfigFile

variable {u : CaseTables} {text : F32 → String} {file file' : ConfigFile}

theorem resolveContext_congr
    (hupstreams : ∀ name, file.upstreams.lookup name = file'.upstreams.lookup name)
    (hembedders : ∀ name, file.embedders.lookup name = file'.embedders.lookup name) (id : String)
    (ctx : NamedContextConfig) : file.resolveContext id ctx = file'.resolveContext id ctx := by
  have hleg : file.resolveLegOf id = file'.resolveLegOf id := by
    funext leg
    rw [resolveLegOf, resolveLegOf, hupstreams]
  have hembedder : file.resolveEmbedderOf id = file'.resolveEmbedderOf id := by
    funext attach
    rw [resolveEmbedderOf, resolveEmbedderOf, hembedders]
  rw [resolveContext, resolveContext, hleg, hembedder]

theorem Same.contextAgents (h : Same file file') : file.contextAgents = file'.contextAgents := by
  unfold ConfigFile.contextAgents
  rw [h.agents, h.proxy]

theorem Same.rooted (h : Same file file') (hrooted : file.Rooted u) : file'.Rooted u where
  upstreams := by
    obtain ⟨name, hname⟩ := hrooted.upstreams
    exact ⟨name, (mem_congr (h.upstreams name)).mp hname⟩
  default := by
    obtain ⟨id, ctx, hctx, hdefault, hunique⟩ := hrooted.default
    refine ⟨id, ctx, (h.contexts id).symm.trans hctx, hdefault, fun id' ctx' hctx' => ?_⟩
    exact hunique id' ctx' ((h.contexts id').trans hctx')
  resources name c hc := hrooted.resources name c ((h.upstreams name).trans hc)
  embedders name c hc := hrooted.embedders name c ((h.embedders name).trans hc)
  contexts id ctx hctx := by
    rw [← resolveContext_congr h.upstreams h.embedders]
    exact hrooted.contexts id ctx ((h.contexts id).trans hctx)
  agents agent hagent := by
    rw [← h.contextAgents] at hagent
    rw [← hrooted.agents agent hagent]
    congr 1
    funext c
    exact decide_eq_decide.mpr (mem_congr (h.contexts c)).symm

theorem Same.accepted (h : Same file file') (haccepted : file.Accepted u text) :
    file'.Accepted u text where
  llm := h.llm.symm.trans haccepted.llm
  proxy := by
    rw [← h.proxy]
    exact haccepted.proxy
  rooted hsome := by
    obtain ⟨id, hid⟩ := hsome
    exact h.rooted (haccepted.rooted ⟨id, (mem_congr (h.contexts id)).mpr hid⟩)

theorem Same.accepted_iff (h : Same file file') : file.Accepted u text ↔ file'.Accepted u text :=
  ⟨h.accepted, h.symm.accepted⟩

theorem lookup_upsertScope_self (file : ConfigFile) (id : String) (scope : ProxyScopeConfig) :
    (file.upsertScope id scope).contexts.lookup id =
      some { (file.contexts.lookup id).getD .blank with scope := scope } :=
  AList.lookup_insert _

theorem lookup_upsertScope_of_ne {id id' : String} {scope : ProxyScopeConfig} (h : id' ≠ id) :
    (file.upsertScope id scope).contexts.lookup id' = file.contexts.lookup id' :=
  AList.lookup_insert_ne h

theorem mem_upsertScope {id id' : String} {scope : ProxyScopeConfig} :
    id' ∈ (file.upsertScope id scope).contexts ↔ id' = id ∨ id' ∈ file.contexts :=
  AList.mem_insert _

theorem resolveContext_scope {id : String} {ctx : NamedContextConfig} {r : ResolvedContext}
    (scope : ProxyScopeConfig) (h : file.resolveContext id ctx = .ok r) :
    file.resolveContext id { ctx with scope := scope } = .ok { r with scope := scope } := by
  obtain ⟨legs, embedder, hlegs, hembedder, rfl⟩ := resolveContext_eq_ok_iff.mp h
  exact resolveContext_eq_ok_iff.mpr ⟨legs, embedder, hlegs, hembedder, rfl⟩

theorem validate_scope {r : ResolvedContext} {scope : ProxyScopeConfig}
    (h : r.validate u = .ok ()) (hscope : scope.validate u = .ok ()) :
    ({ r with scope := scope } : ResolvedContext).validate u = .ok () := by
  simp only [Conproxy.ResolvedContext.validate, bind_eq_ok_iff, mapError_eq_ok_iff] at h ⊢
  exact ⟨h.1, h.2.1, hscope, h.2.2.2⟩

theorem lookup_upsertScope {id id' : String} {scope : ProxyScopeConfig} {ctx : NamedContextConfig}
    (hid : id ∈ file.contexts) (h : (file.upsertScope id scope).contexts.lookup id' = some ctx) :
    ∃ old, file.contexts.lookup id' = some old ∧ old.default = ctx.default ∧
      (id' = id → ctx = { old with scope := scope }) ∧ (id' ≠ id → ctx = old) := by
  by_cases hne : id' = id
  · subst hne
    obtain ⟨old, hold⟩ := lookup_of_mem _ hid
    rw [lookup_upsertScope_self, hold, Option.getD_some, Option.some.injEq] at h
    subst h
    exact ⟨old, hold, rfl, fun _ => rfl, fun hn => absurd rfl hn⟩
  · rw [lookup_upsertScope_of_ne hne] at h
    exact ⟨ctx, h, rfl, fun he => absurd he hne, fun _ => rfl⟩

theorem Rooted.upsertScope {id : String} {scope : ProxyScopeConfig} (h : file.Rooted u)
    (hid : id ∈ file.contexts) (hscope : scope.validate u = .ok ()) :
    (file.upsertScope id scope).Rooted u where
  upstreams := h.upstreams
  default := by
    obtain ⟨d, ctx, hctx, hdefault, hunique⟩ := h.default
    have hunique' (id' : String) (ctx' : NamedContextConfig)
        (hctx' : (file.upsertScope id scope).contexts.lookup id' = some ctx')
        (hdefault' : ctx'.default = some true) : id' = d := by
      obtain ⟨old, hold, heq, -, -⟩ := lookup_upsertScope hid hctx'
      exact hunique id' old hold (heq.trans hdefault')
    obtain ⟨ctx', hctx'⟩ : ∃ ctx', (file.upsertScope id scope).contexts.lookup d = some ctx' :=
      lookup_of_mem _ (mem_upsertScope.mpr (.inr (mem_of_lookup _ hctx)))
    obtain ⟨old, hold, heq, -, -⟩ := lookup_upsertScope hid hctx'
    obtain rfl : old = ctx := Option.some.inj (hold.symm.trans hctx)
    exact ⟨d, ctx', hctx', heq.symm.trans hdefault, hunique'⟩
  resources := h.resources
  embedders := h.embedders
  contexts id' ctx' hctx' := by
    obtain ⟨old, hold, -, hself, hother⟩ := lookup_upsertScope hid hctx'
    obtain ⟨r, hr, hvalid⟩ := h.contexts id' old hold
    by_cases hne : id' = id
    · rw [hself hne]
      exact ⟨_, resolveContext_scope scope hr, validate_scope hvalid hscope⟩
    · rw [hother hne]
      exact ⟨r, hr, hvalid⟩
  agents agent hagent := by
    rw [← h.agents agent hagent]
    congr 1
    funext c
    apply decide_eq_decide.mpr
    rw [mem_upsertScope]
    constructor
    · rintro (rfl | hc)
      · exact hid
      · exact hc
    · exact .inr

/-- An accepted file stays accepted if and only if the context exists and the scope is valid: a
context that is created has no leg. -/
theorem Accepted.upsertScope_iff {id : String} {scope : ProxyScopeConfig}
    (h : file.Accepted u text) :
    (file.upsertScope id scope).Accepted u text ↔
      id ∈ file.contexts ∧ scope.validate u = .ok () := by
  constructor
  · intro haccepted
    have hrooted := haccepted.rooted ⟨id, mem_upsertScope.mpr (.inl rfl)⟩
    obtain ⟨r, hr, hvalid⟩ := hrooted.contexts id _ (lookup_upsertScope_self file id scope)
    obtain ⟨legs, embedder, hlegs, -, rfl⟩ := resolveContext_eq_ok_iff.mp hr
    simp only [Conproxy.ResolvedContext.validate, bind_eq_ok_iff, require_eq_ok_iff,
      mapError_eq_ok_iff] at hvalid
    obtain ⟨hne, -, hscope, -⟩ := hvalid
    refine ⟨?_, hscope⟩
    by_contra hmissing
    rw [AList.lookup_eq_none.mpr hmissing] at hlegs
    cases hlegs
    exact hne rfl
  · rintro ⟨hid, hscope⟩
    exact ⟨h.llm, h.proxy, fun _ => (h.rooted ⟨id, hid⟩).upsertScope hid hscope⟩

end ConfigFile

section Applied

variable {Value : Type} {codec : Codec Value} {u : CaseTables} {text : F32 → String}
  {disk disk' : Disk} {configPath : Option FilePath}

theorem readConfig_eq_ok_iff {path : FilePath} {config : ConfigFile} :
    readConfig codec disk path = .ok config ↔
      ∃ content, disk.read path = .ok content ∧ codec.parse content = .ok config := by
  simp only [readConfig, bind_result_eq_ok_iff, mapError_eq_ok_iff]

theorem validated_eq_ok_iff {config config' : ConfigFile} :
    (do
      (config.validate u text).mapError ConproxyError.configValidation
      return config) = .ok config' ↔ config = config' ∧ config.Accepted u text := by
  rw [bind_result_eq_ok_iff, ← ConfigFile.validate_eq_ok_iff]
  constructor
  · rintro ⟨⟨⟩, hvalid, hsame⟩
    exact ⟨Except.ok.inj hsame, mapError_eq_ok_iff.mp hvalid⟩
  · rintro ⟨rfl, hvalid⟩
    exact ⟨(), mapError_eq_ok_iff.mpr hvalid, rfl⟩

theorem loadFrom_eq_ok_iff {path : FilePath} {config : ConfigFile} :
    loadFrom codec u text disk path = .ok config ↔
      readConfig codec disk path = .ok config ∧ config.Accepted u text := by
  rw [loadFrom, bind_result_eq_ok_iff]
  simp only [validated_eq_ok_iff]
  constructor
  · rintro ⟨_, hread, rfl, haccepted⟩
    exact ⟨hread, haccepted⟩
  · rintro ⟨hread, haccepted⟩
    exact ⟨config, hread, rfl, haccepted⟩

theorem accepted_of_load {config : ConfigFile} (h : load codec u text disk = .ok config) :
    config.Accepted u text := by
  obtain ⟨base, -, h⟩ := bind_result_eq_ok_iff.mp h
  obtain ⟨own, -, h⟩ := bind_result_eq_ok_iff.mp h
  obtain ⟨rfl, haccepted⟩ := validated_eq_ok_iff.mp h
  exact haccepted

theorem accepted_of_loadTuned {config : ConfigFile}
    (h : loadTuned codec u text disk configPath = .ok config) : config.Accepted u text := by
  unfold loadTuned at h
  cases configPath with
  | none => exact accepted_of_load (mapError_eq_ok_iff.mp h)
  | some p =>
    cases hutf8 : p.utf8 with
    | false => simp [hutf8] at h
    | true =>
      simp only [hutf8, if_true, mapError_eq_ok_iff] at h
      exact (loadFrom_eq_ok_iff.mp h).2

theorem saveTuned_eq_ok {config : ConfigFile}
    (h : saveTuned codec disk configPath config = .ok disk') :
    ∃ content, codec.render config = .ok content ∧
      disk'.read (configPath.getD disk.localConfigPath) = .ok content := by
  unfold saveTuned at h
  cases configPath with
  | none =>
    unfold save at h
    simp only [bind_result_eq_ok_iff, mapError_eq_ok_iff] at h
    obtain ⟨_, -, content, hrender, hwrite⟩ := h
    exact ⟨content, hrender, Disk.read_write hwrite⟩
  | some p =>
    simp only [bind_result_eq_ok_iff, mapError_eq_ok_iff] at h
    obtain ⟨content, hrender, hwrite⟩ := h
    exact ⟨content, hrender, Disk.read_write hwrite⟩

theorem applyExportArtifact_eq_ok_iff {artifact : TuneExportArtifact Value}
    {result : Disk × ApplyReport} :
    applyExportArtifact codec u text disk artifact configPath = .ok result ↔
      ∃ config scope disk', loadTuned codec u text disk configPath = .ok config ∧
        codec.scopeOf artifact.scope = .ok scope ∧
        saveTuned codec disk configPath (config.upsertScope artifact.contextId scope) =
          .ok disk' ∧
        result = (disk', ⟨configPath.getD disk.localConfigPath, artifact.contextId,
          artifact.sourceRunId.getD "", !decide (artifact.contextId ∈ config.contexts),
          artifact.toml⟩) := by
  simp only [applyExportArtifact, bind_result_eq_ok_iff, mapError_eq_ok_iff]
  constructor
  · rintro ⟨config, hload, scope, hscope, disk', hsave, hdone⟩
    exact ⟨config, scope, disk', hload, hscope, hsave, (Except.ok.inj hdone).symm⟩
  · rintro ⟨config, scope, disk', hload, hscope, hsave, rfl⟩
    exact ⟨config, hload, scope, hscope, disk', hsave, rfl⟩

theorem loadFrom_saved_iff (hcodec : codec.RoundTrips) {config : ConfigFile}
    (hllm : config.llm = none) (h : saveTuned codec disk configPath config = .ok disk') :
    (∃ written, loadFrom codec u text disk' (configPath.getD disk.localConfigPath) = .ok written) ↔
      config.Accepted u text := by
  obtain ⟨content, hrender, hread⟩ := saveTuned_eq_ok h
  obtain ⟨file', hparse, hsame⟩ := hcodec config content hllm hrender
  have hconfig : readConfig codec disk' (configPath.getD disk.localConfigPath) = .ok file' :=
    readConfig_eq_ok_iff.mpr ⟨content, hread, hparse⟩
  simp only [loadFrom_eq_ok_iff, hconfig, Except.ok.injEq, exists_eq_left']
  exact hsame.accepted_iff.symm

/-- The file that an applied tune leaves loads again if and only if the context was in it and the
scope is valid. -/
theorem applied_tune_loads_iff (hcodec : codec.RoundTrips)
    {exported : Except String (TuneExportArtifact Value)} {artifact : TuneExportArtifact Value}
    (hexported : exported = .ok artifact) {config : ConfigFile}
    (hconfig : loadTuned codec u text disk configPath = .ok config) {report : ApplyReport}
    (h : applyTuneExport codec u text disk exported configPath = .ok (disk', report) ∨
      applyExportArtifact codec u text disk artifact configPath = .ok (disk', report)) :
    (∃ written, loadFrom codec u text disk' report.configPath = .ok written) ↔
      artifact.contextId ∈ config.contexts ∧
        ∃ scope, codec.scopeOf artifact.scope = .ok scope ∧ scope.validate u = .ok () := by
  subst hexported
  have happly : applyExportArtifact codec u text disk artifact configPath = .ok (disk', report) :=
    h.elim id id
  obtain ⟨config', scope, _, hload, hscope, hsave, hresult⟩ :=
    applyExportArtifact_eq_ok_iff.mp happly
  cases hresult
  obtain rfl : config' = config := Except.ok.inj (hload.symm.trans hconfig)
  have haccepted := accepted_of_loadTuned hload
  have hllm : (config'.upsertScope artifact.contextId scope).llm = none := haccepted.llm
  rw [loadFrom_saved_iff hcodec hllm hsave, haccepted.upsertScope_iff]
  simp only [hscope, Except.ok.injEq, exists_eq_left']

end Applied

/-! ## A file with one upstream -/

/-- The blocks of a rendered file, with an empty line between them. -/
def blocks (tables : List String) : String := "\n".intercalate tables

def cascadeText : String :=
  "enabled = true\nmin_score_threshold = 0.7\nmin_results = 1\nmax_cascade_depth = 3\n" ++
    "merge_cascade_results = false\ncascade_timeout_ms = 30000\nfusion_method = \"none\"\n" ++
    "rrf_k = 60\n"

/-- The tables before those of the contexts: everything but the upstream has its default. -/
def settingsText : List String :=
  ["[packages]\n", "[registries]\n", "[search.federated]\n", "[embedding]\n", "[web]\n",
    "[proxy.scope]\n", "[proxy.cache.per_upstream]\n", "[proxy.cache.semantic]\n",
    "[proxy.distill]\n", "[proxy.rate_limit]\n", "[proxy.retry]\n", "[proxy.federated]\n",
    "[proxy.security.rate_limit]\n", "[proxy.security.advanced]\n",
    "[proxy.cascade]\n" ++ cascadeText,
    "[proxy.pool]\nmax_connections = 100\nmax_queue_size = 500\nqueue_timeout_ms = 30000\n" ++
      "idle_timeout_ms = 90000\nfair_queueing = true\n",
    "[proxy.circuit_breaker]\nfailure_threshold = 25\nsuccess_threshold = 2\n" ++
      "open_duration_secs = 30\nfailure_window_secs = 60\n",
    "[proxy.cdc]\n", "[proxy.peer]\n",
    "[proxy.socket_tuning]\ntcp_nodelay = true\ntcp_keepalive_secs = 60\n" ++
      "tcp_keepalive_interval = 15\ntcp_keepalive_probes = 5\nlisten_backlog = 4096\n" ++
      "defer_accept_secs = 5\nuser_timeout_ms = 30000\nreuse_port = true\n" ++
      "upstream_pool_idle_timeout_secs = 90\nupstream_pool_max_idle = 32\n",
    "[proxy.web_ui]\nenabled = false\n", "[context]\n", "[server]\n",
    "[upstreams.dummy]\nurl = \"http://127.0.0.1:65535\"\n", "[embedders]\n"]

/-- The tables of a context with a scope that only sets its mode. -/
def scopeText (mode : String) : List String :=
  ["[contexts.default.cache]\n", "[contexts.default.scope]\nmode = \"" ++ mode ++ "\"\n",
    "[contexts.default.cascade]\n" ++ cascadeText, "[contexts.default.federated]\n"]

/-- A file as it was typed, and the file with a tuned context as it is rendered. -/
structure TunedText where
  typed : String
  source : ConfigFile
  rendered : String
  target : ConfigFile
  distinct : typed ≠ rendered

open Classical in
/-- The formats on these two texts. A scope is given by its mode. -/
noncomputable def TunedText.codec (t : TunedText) : Codec String where
  parse content :=
    if content = t.typed then .ok t.source
    else if content = t.rendered then .ok t.target
    else .error "not one of the two files"
  render file :=
    if ConfigFile.Same file t.target then .ok t.rendered else .error "not the tuned file"
  scopeOf mode := .ok { ProxyScopeConfig.none with mode := some mode }

def dummyText : String := "[upstreams.dummy]\nurl = \"http://127.0.0.1:65535\"\n"

def dummyFile : ConfigFile :=
  { ConfigFile.default with
    upstreams := (∅ : AList fun _ : String => UpstreamResourceConfig).insert "dummy"
      { UpstreamResourceConfig.default with url := some "http://127.0.0.1:65535" } }

def contextText : List String :=
  ["[contexts.default]\ndefault = true\n", "[[contexts.default.upstreams]]\nref = \"dummy\"\n"]

def contextFile : ConfigFile :=
  { dummyFile with
    contexts := (∅ : AList fun _ : String => NamedContextConfig).insert "default"
      { NamedContextConfig.blank with default := some true, upstreams := [.to "dummy"] } }

def filterScope : ProxyScopeConfig := { ProxyScopeConfig.none with mode := some "filter" }

def overwritten : TunedText where
  typed := blocks (dummyText :: contextText)
  source := contextFile
  rendered := blocks (settingsText ++ contextText ++ scopeText "filter")
  target := contextFile.upsertScope "default" filterScope
  distinct := by decide +kernel

/-- A context is tuned that is not in the file. -/
def created : TunedText where
  typed := dummyText
  source := dummyFile
  rendered := blocks (settingsText ++ scopeText "filter")
  target := dummyFile.upsertScope "default" filterScope
  distinct := by decide +kernel

def tunedPath : FilePath := ⟨"conproxy.toml", true⟩

def TunedText.disk (t : TunedText) : Disk where
  globalConfigPath := ⟨"/root/.conproxy/conproxy.toml", true⟩
  localConfigPath := ⟨".conproxy/conproxy.toml", true⟩
  present p := p = tunedPath
  read p := if p = tunedPath then .ok t.typed else .error "No such file or directory (os error 2)"
  writeError _ := none
  localDirsError := none

/-- The export of a run that chose the mode. -/
def filterArtifact : TuneExportArtifact String where
  contextId := "default"
  scope := "filter"
  toml := "[contexts.default.scope]\nmode = \"filter\"\n"
  sourceRunId := some "run-1"

namespace TunedText

variable (t : TunedText)

theorem parse_typed : t.codec.parse t.typed = .ok t.source := if_pos rfl

theorem parse_rendered : t.codec.parse t.rendered = .ok t.target :=
  (if_neg t.distinct.symm).trans (if_pos rfl)

theorem roundTrips : t.codec.RoundTrips := by
  intro file content _ hrender
  simp only [codec] at hrender
  split at hrender
  · next hsame =>
    cases hrender
    exact ⟨t.target, t.parse_rendered, hsame⟩
  · cases hrender

theorem readConfig_disk : readConfig t.codec t.disk tunedPath = .ok t.source :=
  readConfig_eq_ok_iff.mpr ⟨t.typed, rfl, t.parse_typed⟩

theorem loadTuned_disk
    (h : t.source.validate CaseTables.ascii (fun _ => "") = .ok ()) :
    loadTuned t.codec CaseTables.ascii (fun _ => "") t.disk (some tunedPath) = .ok t.source := by
  apply mapError_eq_ok_iff.mpr
  exact loadFrom_eq_ok_iff.mpr ⟨t.readConfig_disk, ConfigFile.validate_eq_ok_iff.mp h⟩

theorem applied_disk (h : t.source.validate CaseTables.ascii (fun _ => "") = .ok ())
    (htarget : t.target = t.source.upsertScope "default" filterScope) :
    ∃ disk' report, applyExportArtifact t.codec CaseTables.ascii (fun _ => "") t.disk filterArtifact
        (some tunedPath) = .ok (disk', report) ∧
      disk'.read tunedPath = .ok t.rendered ∧ report.configPath = tunedPath ∧
      report.contextCreated = !decide ("default" ∈ t.source.contexts) := by
  have hrender : t.codec.render (t.source.upsertScope "default" filterScope) = .ok t.rendered := by
    rw [← htarget]
    exact if_pos (ConfigFile.Same.refl t.target)
  have hwrite : ∃ disk', t.disk.write tunedPath t.rendered = .ok disk' := ⟨_, rfl⟩
  obtain ⟨disk', hwrite⟩ := hwrite
  have hsave : saveTuned t.codec t.disk (some tunedPath)
      (t.source.upsertScope "default" filterScope) = .ok disk' := by
    simp only [saveTuned, bind_result_eq_ok_iff, mapError_eq_ok_iff]
    exact ⟨t.rendered, hrender, hwrite⟩
  refine ⟨disk', _, applyExportArtifact_eq_ok_iff.mpr
    ⟨t.source, filterScope, disk', t.loadTuned_disk h, rfl, hsave, rfl⟩, ?_, rfl, rfl⟩
  exact Disk.read_write hwrite

end TunedText

/-- Tuning an existing context leaves a file that loads. -/
theorem overwritten_loads :
    ∃ disk' report, applyExportArtifact overwritten.codec CaseTables.ascii (fun _ => "")
        overwritten.disk filterArtifact (some tunedPath) = .ok (disk', report) ∧
      ∃ written, loadFrom overwritten.codec CaseTables.ascii (fun _ => "") disk' report.configPath =
        .ok written := by
  have hvalid : overwritten.source.validate CaseTables.ascii (fun _ => "") = .ok () := by rfl
  obtain ⟨disk', report, happly, -⟩ := overwritten.applied_disk hvalid rfl
  refine ⟨disk', report, happly, (applied_tune_loads_iff overwritten.roundTrips rfl
    (overwritten.loadTuned_disk hvalid) (.inr happly)).mpr ?_⟩
  exact ⟨by decide +kernel, filterScope, rfl, by rfl⟩

/-- Tuning a context that is not in the file succeeds, and leaves a file that does not load. -/
theorem created_context_rejected :
    ∃ disk' report,
      loadFrom created.codec CaseTables.ascii (fun _ => "") created.disk tunedPath =
        .ok dummyFile ∧
      applyExportArtifact created.codec CaseTables.ascii (fun _ => "") created.disk filterArtifact
        (some tunedPath) = .ok (disk', report) ∧
      report.contextCreated = true ∧
      loadFrom created.codec CaseTables.ascii (fun _ => "") disk' report.configPath =
        .error (.configValidation "contexts: exactly one context must have default = true") := by
  have hvalid : created.source.validate CaseTables.ascii (fun _ => "") = .ok () := by rfl
  obtain ⟨disk', report, happly, hread, hpath, hcreated⟩ := created.applied_disk hvalid rfl
  refine ⟨disk', report, ?_, happly, hcreated.trans (by decide +kernel), ?_⟩
  · exact loadFrom_eq_ok_iff.mpr ⟨created.readConfig_disk, ConfigFile.validate_eq_ok_iff.mp hvalid⟩
  · have hconfig : readConfig created.codec disk' tunedPath = .ok created.target :=
      readConfig_eq_ok_iff.mpr ⟨created.rendered, hread, created.parse_rendered⟩
    rw [hpath, loadFrom, hconfig]
    rfl

end Conproxy
