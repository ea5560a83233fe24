import Mathlib.Data.List.Dedup
import Mathlib.Data.List.Sort
import LanMouse.Listen.Task
import LanMouse.Sync.Service

/-!
# The configuration document

What the configuration file holds, as far as requests of the frontend change it: the clients, the
authorized fingerprints, the idle timeout and the clipboard section. A document is read field by
field with a default for each field that is missing, and written field by field with some defaults
left out. `none` is a configuration that was never read or set.

Each pair of a writer and its reader is written out twice in the source, once for the clients and
once for the clipboard section, with the same rule in mind: a field that has its default is not
written. For the clipboard section the rule is applied to the value `true`, whatever the default.
-/
namespace LanMouse.Config

open Proto Client Sync Listen

/-! ### Clients -/

/-- A client in the file. `host_name` is read from old files and never used. -/
structure TomlClient where
  hostname : Option String := none
  hostName : Option String := none
  ips : Option (List IpAddr) := none
  port : Option UInt16 := none
  position : Option Position := none
  activateOnStartup : Option Bool := none
  enterHook : Option String := none
  inputChannels : Option InputChannelConfig := none
  monitor : Option String := none
  enableClipboardTo : Option Bool := none
  deriving DecidableEq, Repr

/-- The order of `std::net::IpAddr`: v4 before v6, each by its numbers from the left. -/
def ipLe : IpAddr → IpAddr → Bool
  | .v4 a, .v4 b => !b.toList.lex a.toList fun x y => decide (x < y)
  | .v4 _, .v6 _ => true
  | .v6 _, .v4 _ => false
  | .v6 a, .v6 b => !b.toList.lex a.toList fun x y => decide (x < y)

def sortIps (ips : List IpAddr) : List IpAddr := ips.insertionSort fun a b => ipLe a b = true

/-- `From<TomlClient> for ConfigClient`. -/
def TomlClient.toConfig (toml : TomlClient) : ConfigClient where
  ips := (toml.ips.getD []).dedup
  hostname := toml.hostname
  port := toml.port.getD defaultPort
  pos := toml.position.getD .left
  active := toml.activateOnStartup.getD false
  enterHook := toml.enterHook
  inputChannels := toml.inputChannels.getD {}
  monitor := toml.monitor
  enableClipboardTo := toml.enableClipboardTo.getD true

/-- `From<ConfigClient> for TomlClient`. -/
def TomlClient.ofConfig (client : ConfigClient) : TomlClient where
  hostname := client.hostname
  hostName := none
  ips := some (sortIps client.ips)
  port := if client.port = defaultPort then none else some client.port
  position := some client.pos
  activateOnStartup := if client.active then some true else none
  enterHook := client.enterHook
  inputChannels := if client.inputChannels = {} then none else some client.inputChannels
  monitor := client.monitor
  enableClipboardTo := if client.enableClipboardTo then none else some false

/-! ### The document -/

instance (priority := high) : DecidableEq AuthorizedKeys := fun a b =>
  decidable_of_iff (a.entries = b.entries) AList.ext_iff.symm

structure TomlQuic where
  idleTimeoutSecs : Option UInt64 := none
  deriving DecidableEq, Repr

structure ConfigToml where
  clients : Option (List TomlClient) := none
  authorizedFingerprints : Option AuthorizedKeys := none
  quic : Option TomlQuic := none
  clipboard : Option TomlClipboard := none
  deriving DecidableEq

end LanMouse.Config

namespace LanMouse

/-- The field `config_toml` of a `Config`. -/
abbrev Config := Option Config.ConfigToml

namespace Config

open Proto Client Sync Listen

def clients (config : Config) : List ConfigClient :=
  ((config.bind (·.clients)).getD []).map TomlClient.toConfig

/-- An empty list is not taken over. -/
def setClients (config : Config) (clients : List ConfigClient) : Config :=
  if clients.isEmpty then config
  else some { config.getD {} with clients := some (clients.map TomlClient.ofConfig) }

def setAuthorizedKeys (config : Config) (fingerprints : AuthorizedKeys) : Config :=
  some { config.getD {} with authorizedFingerprints := some fingerprints }

def minIdleTimeoutSecs : UInt64 := 5

def setQuicIdleTimeout (config : Config) (secs : UInt64) : Config :=
  let toml := config.getD {}
  some { toml with
    quic := some { toml.quic.getD {} with idleTimeoutSecs := some (max secs minIdleTimeoutSecs) } }

def clipboardConfig (host : Host) (config : Config) : ClipboardConfig :=
  Sync.clipboardConfig host (config.bind (·.clipboard))

/-- Every entry of the section is written. -/
def setClipboardConfig (config : Config) (cfg : ClipboardConfig) : Config :=
  some { config.getD {} with clipboard := some (Sync.setClipboardConfig cfg) }

/-! ### Clients read back -/

theorem getD_omitted {α : Type} [DecidableEq α] (a default : α) :
    (if a = default then none else some a).getD default = a := by
  split_ifs with same
  · exact same.symm
  · rfl

/-- A client is read as it was written, but for the order of its addresses. -/
theorem TomlClient.toConfig_ofConfig (client : ConfigClient) :
    (TomlClient.ofConfig client).toConfig =
      { client with ips := (sortIps client.ips).dedup } := by
  have port := getD_omitted client.port defaultPort
  have channels := getD_omitted client.inputChannels {}
  have active : (if client.active then some true else none).getD false = client.active := by
    cases client.active <;> rfl
  have clipboard : (if client.enableClipboardTo then none else some false).getD true =
      client.enableClipboardTo := by
    cases client.enableClipboardTo <;> rfl
  simp only [TomlClient.toConfig, TomlClient.ofConfig, port, channels, active, clipboard,
    Option.getD_some]

theorem clients_setClients {config : Config} {list : List ConfigClient} (some_ : list ≠ []) :
    (config.setClients list).clients = list.map fun c => (TomlClient.ofConfig c).toConfig := by
  rw [setClients, if_neg (by simpa using some_), clients, Option.bind_some, Option.getD_some,
    List.map_map]
  rfl

theorem clients_setAuthorizedKeys (config : Config) (fingerprints : AuthorizedKeys) :
    (config.setAuthorizedKeys fingerprints).clients = config.clients := by
  cases config <;> rfl

theorem clients_setQuicIdleTimeout (config : Config) (secs : UInt64) :
    (config.setQuicIdleTimeout secs).clients = config.clients := by
  cases config <;> rfl

theorem clients_setClipboardConfig (config : Config) (cfg : ClipboardConfig) :
    (config.setClipboardConfig cfg).clients = config.clients := by
  cases config <;> rfl

/-! ### The clipboard section read back -/

/-- A switch that is on by default is read as it was written. -/
theorem tomlSwitch_getD_true (on : Bool) : (tomlSwitch on).getD true = on := by
  cases on <;> rfl

/-- A switch that is off by default is read as off. -/
theorem tomlSwitch_getD_false (on : Bool) : (tomlSwitch on).getD false = false := by
  cases on <;> rfl

theorem clipboardConfig_setClipboardConfig (host : Host) (config : Config)
    (cfg : ClipboardConfig) : (config.setClipboardConfig cfg).clipboardConfig host =
      { cfg with ignoreText := false, ignoreImages := false, ignoreFiles := false,
                 keepPartial := false } := by
  simp only [setClipboardConfig, Sync.setClipboardConfig, clipboardConfig, Option.bind_some,
    Sync.clipboardConfig, tomlSwitch_getD_true, tomlSwitch_getD_false, getD_omitted,
    Option.getD_some]

/-- The clipboard configuration is read as it was set, just if the switches that are off by default
are off. -/
theorem clipboard_config_read_back_iff (host : Host) (config : Config) (cfg : ClipboardConfig) :
    (config.setClipboardConfig cfg).clipboardConfig host = cfg ↔
      cfg.ignoreText = false ∧ cfg.ignoreImages = false ∧ cfg.ignoreFiles = false ∧
        cfg.keepPartial = false := by
  rw [clipboardConfig_setClipboardConfig]
  constructor
  · intro same
    rw [← same]
    exact ⟨rfl, rfl, rfl, rfl⟩
  · intro off
    obtain ⟨enabled, acceptDir, ignoreText, ignoreImages, ignoreFiles, maxFileSize, keepPartial,
      injectToClipboard⟩ := cfg
    obtain ⟨rfl, rfl, rfl, rfl⟩ := off
    rfl

/-- Text that is to be ignored is not ignored. -/
theorem clipboard_config_not_read_back :
    let host : Host := ⟨fun _ => Vector.replicate 32 0, "/home".toList⟩
    let cfg : ClipboardConfig := { acceptDir := "/in".toList, ignoreText := true }
    (setClipboardConfig none cfg).clipboardConfig host ≠ cfg := by
  intro host cfg same
  have ignored : ((setClipboardConfig none cfg).clipboardConfig host).ignoreText = true := by
    rw [same]
  cases ignored

end Config

end LanMouse
