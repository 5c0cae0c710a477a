import Conproxy.Settings
import Conproxy.Tune

/-!
# What else an applied tune writes

With a path of its own an applied tune changes the scope of one context in that file. By default the
merged configuration is loaded, and all of it is written to the local file.
-/

namespace Conproxy

open Checks Layering WeightedTable

set_option autoImplicit false

section Frame

variable {Value : Type}

/-- The file that will be written, as it is before; a missing one says nothing. -/
def fileBefore (codec : Codec Value) (disk : Disk) :
    Option FilePath → Except ConproxyError ConfigFile
  | some path => readConfig codec disk path
  | none => (·.getD .default) <$> loadPresent codec disk disk.localConfigPath

/-- The file at a path is the one before, up to the scope of the context. -/
def OnlyScope (codec : Codec Value) (before : ConfigFile) (disk : Disk) (path : FilePath)
    (id : String) : Prop :=
  ∃ scope after, readConfig codec disk path = .ok after ∧
    ConfigFile.Same (before.upsertScope id scope) after

end Frame

/-- Every setting that the base makes, the scope of a context apart, is also made in the file. -/
structure AddsNothing (id : String) (base own : ConfigFile) : Prop where
  llm : own.llm = none
  packages : base.packages ≠ ∅ → own.packages ≠ ∅
  registries : ∀ name ∈ base.registries, name ∈ own.registries
  search : Covers SearchConfig.settings base.search own.search
  embedding : Covers EmbeddingConfig.settings base.embedding own.embedding
  web : Covers WebConfig.settings base.web own.web
  proxy : Covers ProxyConfig.settings base.proxy own.proxy
  context : Covers ConfigFile.ContextConfig.settings base.context own.context
  server : Covers ServerConfig.settings base.server own.server
  upstreams : ∀ name ∈ base.upstreams, name ∈ own.upstreams
  embedders : ∀ name ∈ base.embedders, name ∈ own.embedders
  contexts : own.contexts ≠ ∅ ∨ ∀ name c, base.contexts.lookup name = some c →
    name = id ∧ { c with scope := .none } = NamedContextConfig.blank
  agents : base.agents ≠ [] → own.agents ≠ []

/-- The global file adds nothing to the local one, or to no file. -/
def GlobalAddsNothing (id : String) : Option ConfigFile → Option ConfigFile → Prop
  | none, _ => True
  | some base, some own => AddsNothing id base own
  | some base, none => ConfigFile.Same (base.upsertScope id .none)
      (ConfigFile.default.upsertScope id .none)

namespace ConfigFile

variable {file file' file'' : ConfigFile} {id : String} {scope scope' : ProxyScopeConfig}

theorem Same.trans (h : Same file file') (h' : Same file' file'') : Same file file'' where
  llm := h.llm.trans h'.llm
  packages name := (h.packages name).trans (h'.packages name)
  registries name := (h.registries name).trans (h'.registries name)
  search := h.search.trans h'.search
  embedding := h.embedding.trans h'.embedding
  web := h.web.trans h'.web
  proxy := h.proxy.trans h'.proxy
  context := h.context.trans h'.context
  server := h.server.trans h'.server
  upstreams name := (h.upstreams name).trans (h'.upstreams name)
  embedders name := (h.embedders name).trans (h'.embedders name)
  contexts name := (h.contexts name).trans (h'.contexts name)
  agents := h.agents.trans h'.agents

/-- The contexts of two files are the same up to the scope of one. -/
def SameContexts (id : String) (file file' : ConfigFile) : Prop :=
  (∀ name, name ≠ id → file.contexts.lookup name = file'.contexts.lookup name) ∧
    { (file.contexts.lookup id).getD .blank with scope := ProxyScopeConfig.none } =
      { (file'.contexts.lookup id).getD .blank with scope := ProxyScopeConfig.none }

theorem sameContexts_iff :
    (∀ name, (file.upsertScope id scope).contexts.lookup name =
      (file'.upsertScope id scope').contexts.lookup name) ↔
      SameContexts id file file' ∧ scope = scope' := by
  constructor
  · intro hsame
    have hself := hsame id
    rw [lookup_upsertScope_self, lookup_upsertScope_self] at hself
    have heq := Option.some.inj hself
    refine ⟨⟨?_, ?_⟩, congrArg NamedContextConfig.scope heq⟩
    · intro name hne
      have hother := hsame name
      rwa [lookup_upsertScope_of_ne hne, lookup_upsertScope_of_ne hne] at hother
    · exact congrArg (fun c : NamedContextConfig => { c with scope := ProxyScopeConfig.none }) heq
  · rintro ⟨⟨hothers, hself⟩, rfl⟩ name
    by_cases hne : name = id
    · subst hne
      rw [lookup_upsertScope_self, lookup_upsertScope_self]
      exact congrArg some
        (congrArg (fun c : NamedContextConfig => { c with scope := scope }) hself)
    · rw [lookup_upsertScope_of_ne hne, lookup_upsertScope_of_ne hne]
      exact hothers name hne

theorem same_upsertScope_iff :
    Same (file.upsertScope id scope) (file'.upsertScope id scope') ↔
      Same (file.upsertScope id .none) (file'.upsertScope id .none) ∧ scope = scope' := by
  constructor
  · intro h
    obtain ⟨hcontexts, hscope⟩ := sameContexts_iff.1 h.contexts
    exact ⟨{ h with contexts := sameContexts_iff.2 ⟨hcontexts, rfl⟩ }, hscope⟩
  · rintro ⟨h, hscope⟩
    obtain ⟨hcontexts, -⟩ := sameContexts_iff.1 h.contexts
    exact { h with contexts := sameContexts_iff.2 ⟨hcontexts, hscope⟩ }

theorem sameContexts_mergeWith_iff {base own : ConfigFile} :
    SameContexts id own (base.mergeWith own) ↔
      own.contexts ≠ ∅ ∨ ∀ name c, base.contexts.lookup name = some c →
        name = id ∧ { c with scope := .none } = NamedContextConfig.blank := by
  have hmerged : (base.mergeWith own).contexts =
      replaceUnlessEmpty own.contexts base.contexts := rfl
  by_cases hown : own.contexts = ∅
  · rw [hown, overlay_replaceUnlessEmpty.nothing_over] at hmerged
    unfold SameContexts
    rw [hmerged, hown]
    simp only [AList.lookup_empty, ne_eq, not_true_eq_false, false_or, Option.getD_none]
    constructor
    · rintro ⟨hothers, hself⟩ name c hc
      have hname : name = id := by
        by_contra hne
        rw [← hothers name hne] at hc
        cases hc
      subst hname
      rw [hc] at hself
      exact ⟨rfl, hself.symm⟩
    · intro hall
      refine ⟨?_, ?_⟩
      · intro name hne
        cases hc : base.contexts.lookup name with
        | none => rfl
        | some c => exact absurd (hall name c hc).1 hne
      · cases hc : base.contexts.lookup id with
        | none => rfl
        | some c => exact (hall id c hc).2.symm
  · rw [replaceUnlessEmpty_of_ne hown] at hmerged
    unfold SameContexts
    rw [hmerged]
    exact iff_of_true ⟨fun _ _ => rfl, rfl⟩ (.inl hown)

/-- The base adds nothing exactly if merging over it gives the file itself. -/
theorem addsNothing_iff {base own : ConfigFile} :
    AddsNothing id base own ↔
      Same (own.upsertScope id .none) ((base.mergeWith own).upsertScope id .none) := by
  constructor
  · intro h
    exact {
      llm := h.llm
      packages := lookup_replaceUnlessEmpty_iff.2 h.packages
      registries := lookup_extend_iff.2 h.registries
      search := (SearchConfig.mergeWith_eq_self_iff.2 h.search).symm
      embedding := (EmbeddingConfig.mergeWith_eq_self_iff.2 h.embedding).symm
      web := (WebConfig.mergeWith_eq_self_iff.2 h.web).symm
      proxy := (ProxyConfig.mergeWith_eq_self_iff.2 h.proxy).symm
      context := (ContextConfig.mergeWith_eq_self_iff.2 h.context).symm
      server := (ServerConfig.mergeWith_eq_self_iff.2 h.server).symm
      upstreams := lookup_extend_iff.2 h.upstreams
      embedders := lookup_extend_iff.2 h.embedders
      contexts := sameContexts_iff.2 ⟨sameContexts_mergeWith_iff.2 h.contexts, rfl⟩
      agents := (unlessEmpty_eq_left_iff.2 h.agents).symm }
  · intro h
    exact {
      llm := h.llm
      packages := lookup_replaceUnlessEmpty_iff.1 h.packages
      registries := lookup_extend_iff.1 h.registries
      search := SearchConfig.mergeWith_eq_self_iff.1 h.search.symm
      embedding := EmbeddingConfig.mergeWith_eq_self_iff.1 h.embedding.symm
      web := WebConfig.mergeWith_eq_self_iff.1 h.web.symm
      proxy := ProxyConfig.mergeWith_eq_self_iff.1 h.proxy.symm
      context := ContextConfig.mergeWith_eq_self_iff.1 h.context.symm
      server := ServerConfig.mergeWith_eq_self_iff.1 h.server.symm
      upstreams := lookup_extend_iff.1 h.upstreams
      embedders := lookup_extend_iff.1 h.embedders
      contexts := sameContexts_mergeWith_iff.1 (sameContexts_iff.1 h.contexts).1
      agents := unlessEmpty_eq_left_iff.1 h.agents.symm }

end ConfigFile

/-- The configuration of two files, either of which may be missing. -/
def layered : Option ConfigFile → Option ConfigFile → ConfigFile
  | some base, some own => base.mergeWith own
  | some base, none => base
  | none, some own => own
  | none, none => .default

theorem globalAddsNothing_iff {id : String} {base own : Option ConfigFile} :
    GlobalAddsNothing id base own ↔
      ConfigFile.Same ((own.getD .default).upsertScope id .none)
        ((layered base own).upsertScope id .none) := by
  cases base with
  | none => cases own <;> exact iff_of_true trivial (.refl _)
  | some base =>
    cases own with
    | none => exact ⟨.symm, .symm⟩
    | some own => exact ConfigFile.addsNothing_iff

section Written

variable {Value : Type} {codec : Codec Value} {u : CaseTables} {text : F32 → String}
  {disk disk' : Disk} {configPath : Option FilePath}

theorem load_eq_ok {config : ConfigFile} (h : load codec u text disk = .ok config) :
    ∃ base own, loadPresent codec disk disk.globalConfigPath = .ok base ∧
      loadPresent codec disk disk.localConfigPath = .ok own ∧ config = layered base own := by
  obtain ⟨base, hbase, h⟩ := bind_result_eq_ok_iff.mp h
  obtain ⟨own, hown, h⟩ := bind_result_eq_ok_iff.mp h
  obtain ⟨hconfig, -⟩ := validated_eq_ok_iff.mp h
  refine ⟨base, own, hbase, hown, hconfig.symm.trans ?_⟩
  cases base <;> cases own <;> rfl

theorem readConfig_of_loadTuned {path : FilePath} {config : ConfigFile}
    (h : loadTuned codec u text disk (some path) = .ok config) :
    readConfig codec disk path = .ok config := by
  unfold loadTuned at h
  cases hutf8 : path.utf8 with
  | false => simp [hutf8] at h
  | true =>
    simp only [hutf8, if_true, mapError_eq_ok_iff] at h
    exact (loadFrom_eq_ok_iff.mp h).1

theorem onlyScope_saved_iff (hcodec : codec.RoundTrips) {config : ConfigFile} {id : String}
    {scope : ProxyScopeConfig} (hllm : config.llm = none)
    (h : saveTuned codec disk configPath (config.upsertScope id scope) = .ok disk')
    (before : ConfigFile) :
    OnlyScope codec before disk' (configPath.getD disk.localConfigPath) id ↔
      ConfigFile.Same (before.upsertScope id .none) (config.upsertScope id .none) := by
  obtain ⟨content, hrender, hread⟩ := saveTuned_eq_ok h
  obtain ⟨after, hparse, hsame⟩ := hcodec (config.upsertScope id scope) content hllm hrender
  have hafter : readConfig codec disk' (configPath.getD disk.localConfigPath) = .ok after :=
    readConfig_eq_ok_iff.mpr ⟨content, hread, hparse⟩
  constructor
  · rintro ⟨scope', after', hafter', honly⟩
    obtain rfl : after = after' := Except.ok.inj (hafter.symm.trans hafter')
    exact (ConfigFile.same_upsertScope_iff.mp (honly.trans hsame.symm)).1
  · intro honly
    refine ⟨scope, after, hafter, ?_⟩
    exact (ConfigFile.same_upsertScope_iff.mpr ⟨honly, rfl⟩).trans hsame

/-- An applied tune changes nothing but the scope of its context if and only if it was given a path,
or the global file adds nothing to the local one. -/
theorem applied_tune_only_scope_iff (hcodec : codec.RoundTrips)
    {exported : Except String (TuneExportArtifact Value)} {artifact : TuneExportArtifact Value}
    (hexported : exported = .ok artifact) {report : ApplyReport}
    (h : applyTuneExport codec u text disk exported configPath = .ok (disk', report) ∨
      applyExportArtifact codec u text disk artifact configPath = .ok (disk', report)) :
    (∀ before, fileBefore codec disk configPath = .ok before →
      OnlyScope codec before disk' report.configPath artifact.contextId) ↔
      (configPath = none → ∀ base own,
        loadPresent codec disk disk.globalConfigPath = .ok base →
        loadPresent codec disk disk.localConfigPath = .ok own →
        GlobalAddsNothing artifact.contextId base own) := by
  subst hexported
  have happly : applyExportArtifact codec u text disk artifact configPath = .ok (disk', report) :=
    h.elim id id
  obtain ⟨config, scope, _, hload, -, hsave, hresult⟩ := applyExportArtifact_eq_ok_iff.mp happly
  cases hresult
  have hllm : config.llm = none := (accepted_of_loadTuned hload).llm
  have hwritten := onlyScope_saved_iff hcodec hllm hsave
  simp only [hwritten]
  cases configPath with
  | some path =>
    have hread := readConfig_of_loadTuned hload
    apply iff_of_true
    · intro before hbefore
      obtain rfl : config = before := Except.ok.inj (hread.symm.trans hbefore)
      exact .refl _
    · intro hdefault
      cases hdefault
  | none =>
    obtain ⟨base, own, hbase, hown, rfl⟩ := load_eq_ok (mapError_eq_ok_iff.mp hload)
    have hbefore : fileBefore codec disk none = .ok (own.getD .default) := by
      rw [fileBefore, hown]
      rfl
    simp only [hbefore, hbase, hown, Except.ok.injEq, forall_eq', forall_const]
    constructor
    · rintro honly _ _ rfl rfl
      exact globalAddsNothing_iff.mpr honly
    · intro hnothing
      exact globalAddsNothing_iff.mp (hnothing base own rfl rfl)

end Written

/-- The local file only has its context. -/
def contextOnly : ConfigFile := { ConfigFile.default with contexts := contextFile.contexts }

/-- The context of a local file is tuned, and the upstream it refers to is in the global one. -/
def inherited : TunedText where
  typed := blocks contextText
  source := contextOnly
  rendered := blocks (settingsText ++ contextText ++ scopeText "filter")
  target := contextFile.upsertScope "default" filterScope
  distinct := by decide +kernel

namespace TunedText

variable (t : TunedText)

def localDisk (base : Option String) : Disk where
  globalConfigPath := ⟨"/root/.conproxy/conproxy.toml", true⟩
  localConfigPath := tunedPath
  present p := p = tunedPath ∨ base.isSome
  read p :=
    if p = tunedPath then .ok t.typed
    else base.elim (.error "No such file or directory (os error 2)") .ok
  writeError _ := none
  localDirsError := none

theorem loadPresent_local (base : Option String) :
    loadPresent t.codec (t.localDisk base) tunedPath = .ok (some t.source) := by
  have hread : readConfig t.codec (t.localDisk base) tunedPath = .ok t.source :=
    readConfig_eq_ok_iff.mpr ⟨t.typed, rfl, t.parse_typed⟩
  rw [loadPresent, hread]
  rfl

theorem loadPresent_global :
    loadPresent t.codec (t.localDisk (some t.rendered)) (t.localDisk none).globalConfigPath =
      .ok (some t.target) := by
  have hread : readConfig t.codec (t.localDisk (some t.rendered))
      (t.localDisk none).globalConfigPath = .ok t.target :=
    readConfig_eq_ok_iff.mpr ⟨t.rendered, rfl, t.parse_rendered⟩
  rw [loadPresent, hread]
  rfl

theorem applied_localDisk {base : Option String} {config : ConfigFile}
    (hload : load t.codec CaseTables.ascii (fun _ => "") (t.localDisk base) = .ok config)
    (htarget : ConfigFile.Same (config.upsertScope "default" filterScope) t.target) :
    ∃ disk' report, applyExportArtifact t.codec CaseTables.ascii (fun _ => "") (t.localDisk base)
        filterArtifact none = .ok (disk', report) ∧
      report.configPath = tunedPath ∧ readConfig t.codec disk' tunedPath = .ok t.target := by
  have hrender : t.codec.render (config.upsertScope "default" filterScope) = .ok t.rendered :=
    if_pos htarget
  have hwrite : ∃ disk', (t.localDisk base).write tunedPath t.rendered = .ok disk' := ⟨_, rfl⟩
  obtain ⟨disk', hwrite⟩ := hwrite
  have hsave : saveTuned t.codec (t.localDisk base) none
      (config.upsertScope "default" filterScope) = .ok disk' := by
    simp only [saveTuned, save, bind_result_eq_ok_iff, mapError_eq_ok_iff]
    exact ⟨(), rfl, t.rendered, hrender, hwrite⟩
  refine ⟨disk', _, applyExportArtifact_eq_ok_iff.mpr
    ⟨config, filterScope, disk', mapError_eq_ok_iff.mpr hload, rfl, hsave, rfl⟩, rfl, ?_⟩
  exact readConfig_eq_ok_iff.mpr ⟨t.rendered, Disk.read_write hwrite, t.parse_rendered⟩

end TunedText

/-- Without a global file nothing but the scope is changed. -/
theorem local_tune_only_scope :
    ∃ disk' report, applyExportArtifact overwritten.codec CaseTables.ascii (fun _ => "")
        (overwritten.localDisk none) filterArtifact none = .ok (disk', report) ∧
      ∀ before, fileBefore overwritten.codec (overwritten.localDisk none) none = .ok before →
        OnlyScope overwritten.codec before disk' report.configPath "default" := by
  have hvalid : contextFile.validate CaseTables.ascii (fun _ => "") = .ok () := by rfl
  have hload : load overwritten.codec CaseTables.ascii (fun _ => "") (overwritten.localDisk none) =
      .ok contextFile := by
    apply bind_result_eq_ok_iff.mpr ⟨none, rfl, ?_⟩
    apply bind_result_eq_ok_iff.mpr ⟨some contextFile, overwritten.loadPresent_local none, ?_⟩
    exact validated_eq_ok_iff.mpr ⟨rfl, ConfigFile.validate_eq_ok_iff.mp hvalid⟩
  obtain ⟨disk', report, happly, -⟩ := overwritten.applied_localDisk hload (.refl _)
  refine ⟨disk', report, happly, ?_⟩
  apply (applied_tune_only_scope_iff overwritten.roundTrips rfl (.inr happly)).mpr
  rintro - base own hbase -
  cases hbase
  trivial

/-- The local file said nothing about upstreams, and has that of the global file once its context is
tuned. -/
theorem global_upstream_is_copied :
    ∃ disk' report after,
      fileBefore inherited.codec (inherited.localDisk (some inherited.rendered)) none =
        .ok contextOnly ∧
      applyExportArtifact inherited.codec CaseTables.ascii (fun _ => "")
        (inherited.localDisk (some inherited.rendered)) filterArtifact none =
          .ok (disk', report) ∧
      readConfig inherited.codec disk' report.configPath = .ok after ∧
      "dummy" ∉ contextOnly.upstreams ∧ "dummy" ∈ after.upstreams ∧
      ¬ OnlyScope inherited.codec contextOnly disk' report.configPath "default" := by
  let merged := inherited.target.mergeWith contextOnly
  have hvalid : merged.validate CaseTables.ascii (fun _ => "") = .ok () := by rfl
  have hload : load inherited.codec CaseTables.ascii (fun _ => "")
      (inherited.localDisk (some inherited.rendered)) = .ok merged := by
    apply bind_result_eq_ok_iff.mpr ⟨some inherited.target, inherited.loadPresent_global, ?_⟩
    apply bind_result_eq_ok_iff.mpr ⟨some contextOnly, inherited.loadPresent_local _, ?_⟩
    exact validated_eq_ok_iff.mpr ⟨rfl, ConfigFile.validate_eq_ok_iff.mp hvalid⟩
  have htarget : ConfigFile.Same (merged.upsertScope "default" filterScope) inherited.target := by
    constructor <;> intros <;> rfl
  obtain ⟨disk', report, happly, hpath, hafter⟩ := inherited.applied_localDisk hload htarget
  have hcopied : "dummy" ∈ inherited.target.upstreams := by decide +kernel
  refine ⟨disk', report, inherited.target, ?_, happly, hpath ▸ hafter, ?_, hcopied, ?_⟩
  · exact congrArg ((·.getD .default) <$> ·) (inherited.loadPresent_local _)
  · exact AList.notMem_empty "dummy"
  · rintro ⟨scope, after, hread, honly⟩
    obtain rfl : inherited.target = after := Except.ok.inj (hafter.symm.trans (hpath ▸ hread))
    have hmissing : inherited.target.upstreams.lookup "dummy" = none :=
      (honly.upstreams "dummy").symm
    exact AList.lookup_eq_none.mp hmissing hcopied

end Conproxy
