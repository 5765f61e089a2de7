import MiniDynamo.Replication.Coordinator

/-! How `main.go` configures a node (`DefaultConfig`, `LoadFromFile`, and the flags over them).

`main` starts from the file `--config` names, read by `LoadFromFile` (which fills
`DefaultConfig` from the JSON and validates the result), or from `DefaultConfig` when there is
none. It then sets the node id from `--node-id` when given, and sets the port, data directory,
`N`, `R`, `W` and the virtual nodes from their flags, whether given or not: an unset flag has its
default. Then it validates again and exits on an error.

So the configuration a node runs with is the flags' on all these fields, whatever the file says
(`configure_ignores_file`), and it is accepted exactly when the file loads and the flags pass
`Validate` (`configure_ok_iff`): the node id is never empty by then. `DefaultConfig` passes
`Validate` when the host has a name (`defaultConfig_valid_iff`). Reading and decoding the file are
parameters. -/
namespace MiniDynamo.Cmd

open Replication Storage

/-- `Validate` accepts exactly the configurations whose fields are in its ranges. -/
theorem validate_eq_ok_iff (c : Config) :
    c.validate = .ok () ↔ c.nodeID ≠ "" ∧ 0 < c.port ∧ c.port ≤ 65535 ∧ c.dataDir ≠ "" ∧
      1 ≤ c.replicationFactor ∧ 1 ≤ c.readQuorum ∧ c.readQuorum ≤ c.replicationFactor ∧
      1 ≤ c.writeQuorum ∧ c.writeQuorum ≤ c.replicationFactor ∧ 1 ≤ c.virtualNodes := by
  unfold Config.validate
  split_ifs <;> simp_all <;> omega

/-- `DefaultConfig` on a host named `hostname` (`os.Hostname()`, empty when it fails). -/
def defaultConfig (hostname : String) : Config := ⟨hostname, 8080, "./data", 3, 2, 2, 150⟩

/-- `DefaultConfig` passes `Validate` exactly when the host has a name. -/
theorem defaultConfig_valid_iff (hostname : String) :
    (defaultConfig hostname).validate = .ok () ↔ hostname ≠ "" := by
  rw [validate_eq_ok_iff]
  simp [defaultConfig]

/-- `LoadFromFile path`: read the file, decode it over `DefaultConfig`, validate, each failure
wrapped with its stage. -/
def loadFromFile (readFile : String → Except String Bytes)
    (unmarshal : Bytes → Config → Except String Config) (hostname path : String) :
    Except String Config :=
  match readFile path with
  | .error err => .error ("failed to read config file: " ++ err)
  | .ok data =>
    match unmarshal data (defaultConfig hostname) with
    | .error err => .error ("failed to parse config file: " ++ err)
    | .ok cfg =>
      match cfg.validate with
      | .error err => .error ("invalid configuration: " ++ err)
      | .ok () => .ok cfg

/-- A configuration `LoadFromFile` returns passes `Validate`. -/
theorem validate_of_loadFromFile {readFile : String → Except String Bytes}
    {unmarshal : Bytes → Config → Except String Config} {hostname path : String} {cfg : Config}
    (h : loadFromFile readFile unmarshal hostname path = .ok cfg) : cfg.validate = .ok () := by
  unfold loadFromFile at h
  split at h
  · cases h
  · split at h
    · cases h
    · split at h
      · cases h
      next hv => cases h; exact hv

/-- The flags `main` reads into the configuration, with the defaults `flag` gives them. -/
structure Flags where
  nodeID : String := ""
  port : Int := 8080
  dataDir : String := "./data"
  replication : Int := 3
  readQuorum : Int := 2
  writeQuorum : Int := 2
  vnodes : Int := 150
  config : String := ""
  deriving DecidableEq, Repr

/-- What `main` does to the configuration it starts from: the node id from `--node-id` when
given, else the one it has, else `hostname-port`; every other field from its flag. -/
def Flags.override (flags : Flags) (hostname : String) (cfg : Config) : Config :=
  { nodeID := if flags.nodeID ≠ "" then flags.nodeID
      else if cfg.nodeID = "" then hostname ++ "-" ++ toString flags.port else cfg.nodeID
    port := flags.port
    dataDir := flags.dataDir
    replicationFactor := flags.replication
    readQuorum := flags.readQuorum
    writeQuorum := flags.writeQuorum
    virtualNodes := flags.vnodes }

/-- The configuration `main` starts from: the file's when `--config` names one. -/
def Flags.base (flags : Flags) (load : String → Except String Config) (hostname : String) :
    Except String Config :=
  if flags.config ≠ "" then load flags.config else .ok (defaultConfig hostname)

/-- `main`'s configuration, with `load` for `LoadFromFile`; an error is what `log.Fatalf`
prints before the node exits. -/
def configure (flags : Flags) (load : String → Except String Config) (hostname : String) :
    Except String Config :=
  match flags.base load hostname with
  | .error err => .error ("Failed to load config: " ++ err)
  | .ok cfg =>
    match (flags.override hostname cfg).validate with
    | .error err => .error ("Invalid configuration: " ++ err)
    | .ok () => .ok (flags.override hostname cfg)

/-- The node id `main` sets is never empty. -/
theorem nodeID_override_ne (flags : Flags) (hostname : String) (cfg : Config) :
    (flags.override hostname cfg).nodeID ≠ "" := by
  unfold Flags.override
  split_ifs with h₁ h₂
  · exact h₁
  · intro h
    have := congrArg String.length h
    simp only [String.length_append] at this
    have : "-".length = 1 := rfl
    simp_all
  · exact h₂

/-- What `configure` can return: the configuration it started from, overridden by the flags,
once it passes `Validate`. -/
theorem configure_eq_ok {flags : Flags} {load : String → Except String Config} {hostname : String}
    {cfg : Config} :
    configure flags load hostname = .ok cfg ↔ ∃ file, flags.base load hostname = .ok file ∧
      cfg = flags.override hostname file ∧ cfg.validate = .ok () := by
  unfold configure
  split
  next err hb => simp [hb]
  next file hb =>
    split
    next err hv =>
      refine ⟨(fun h => nomatch h), ?_⟩
      rintro ⟨_, hb', rfl, h⟩
      cases hb.symm.trans hb'
      rw [hv] at h
      cases h
    next hv =>
      simp only [hb, Except.ok.injEq, exists_eq_left']
      exact ⟨fun h => ⟨h.symm, h ▸ hv⟩, fun h => h.1.symm⟩

/-- **The configuration file never sets the port, the data directory, `N`, `R`, `W` or the
virtual nodes.** Whatever file `--config` names and whatever it holds, a node that starts runs
with these fields as its flags give them, their defaults when they are not given. -/
theorem configure_ignores_file {flags : Flags} {load : String → Except String Config}
    {hostname : String} {cfg : Config} (h : configure flags load hostname = .ok cfg) :
    cfg.port = flags.port ∧ cfg.dataDir = flags.dataDir ∧ cfg.replicationFactor = flags.replication ∧
      cfg.readQuorum = flags.readQuorum ∧ cfg.writeQuorum = flags.writeQuorum ∧
      cfg.virtualNodes = flags.vnodes := by
  obtain ⟨file, -, rfl, -⟩ := configure_eq_ok.mp h
  exact ⟨rfl, rfl, rfl, rfl, rfl, rfl⟩

/-- A file asking for `N = 5`, `R = W = 3`, port 9000 and `/var/data`, with no flag but
`--config`: the node runs with `N = 3`, `R = W = 2`, port 8080 and `./data`. -/
example : configure { config := "cluster.json" }
    (fun _ => .ok ⟨"node1", 9000, "/var/data", 5, 3, 3, 100⟩) "host" =
      .ok ⟨"node1", 8080, "./data", 3, 2, 2, 150⟩ :=
  rfl

/-- **`main` starts exactly when the file loads and the flags are in range.** A node starts with a
configuration exactly when the configuration it starts from loads, and the port, the data
directory, `N`, `R`, `W` and the virtual nodes its flags give pass `Validate`'s checks; the node
id check never fails. -/
theorem configure_ok_iff (flags : Flags) (load : String → Except String Config) (hostname : String) :
    (∃ cfg, configure flags load hostname = .ok cfg) ↔
      (∃ file, flags.base load hostname = .ok file) ∧ 0 < flags.port ∧ flags.port ≤ 65535 ∧
        flags.dataDir ≠ "" ∧ 1 ≤ flags.replication ∧ 1 ≤ flags.readQuorum ∧
        flags.readQuorum ≤ flags.replication ∧ 1 ≤ flags.writeQuorum ∧
        flags.writeQuorum ≤ flags.replication ∧ 1 ≤ flags.vnodes := by
  simp only [configure_eq_ok]
  constructor
  · rintro ⟨cfg, file, hb, rfl, hv⟩
    exact ⟨⟨file, hb⟩, ((validate_eq_ok_iff _).mp hv).2⟩
  · rintro ⟨⟨file, hb⟩, hr⟩
    exact ⟨_, file, hb, rfl, (validate_eq_ok_iff _).mpr ⟨nodeID_override_ne flags hostname file, hr⟩⟩

/-- A file whose own `read_quorum` is 0 stops the node, although the flag would replace it. -/
example : configure { config := "cluster.json" }
    (loadFromFile (fun _ => .ok []) (fun _ cfg => .ok { cfg with readQuorum := 0 }) "host") "host" =
      .error "Failed to load config: invalid configuration: read_quorum must be between 1 and replication_factor" :=
  rfl

end MiniDynamo.Cmd
