import Mathlib.Data.List.Forall2
import LanMouse.Config.Document
import LanMouse.Service.Requests

/-!
# The saved clients

Most requests of the frontend end with writing the configuration: the clients of the manager are
turned into records of the file, put into the document, and the document is written. A daemon that
is restarted reads them back. `Faithful` says that what it would read are the clients the manager
has, up to the order of their addresses; it speaks of the states in which the last attempt to save
the clients reached the file.

The TOML library is a parameter. It reads back what it wrote, and does not write every document: a
number that does not fit an `i64` ends the daemon.
-/
namespace LanMouse

open Proto Client Sync Listen Config Transition

/-- `toml_edit`, as the daemon uses it. -/
structure TomlFormat where
  toStringPretty : ConfigToml → Option String
  parse : String → Option ConfigToml
  parse_toStringPretty : ∀ {toml text}, toStringPretty toml = some text → parse text = some toml

/-- What becomes of a write to the file: it can fail before the file is opened, or after, when the
file is left with any text. -/
inductive FileWrite where
  | written
  | refused
  | torn (text : String)
  deriving DecidableEq, Repr

/-- `saved` is not in the source: whether the last attempt to save the clients reached the file, and
the file was not torn since. -/
structure Daemon where
  service : Service
  config : Config
  authorizedKeys : AuthorizedKeys
  quicIdleTimeoutSecs : UInt64
  file : Option String
  saved : Bool := false
  alive : Bool := true

/-- A client of the manager as the file has it. -/
def savedClient (c : ClientConfig × ClientState) : ConfigClient where
  ips := c.1.fixIps.dedup
  hostname := c.1.hostname
  port := c.1.port
  pos := c.1.pos
  active := c.2.active
  enterHook := c.1.cmd
  inputChannels := c.1.inputChannels
  monitor := c.1.monitor
  enableClipboardTo := c.1.enableClipboardTo

namespace Daemon

variable (format : TomlFormat)

def writeBack (d : Daemon) (w : FileWrite) : Daemon :=
  match format.toStringPretty (d.config.getD {}), w with
  | none, _ => { d with alive := false }
  | some text, .written => { d with file := some text }
  | some _, .refused => d
  | some _, .torn text => { d with file := some text, saved := false }

/-- The clients and the keys go into the document. -/
def updateConfig (d : Daemon) : Daemon :=
  { d with
    config := (d.config.setClients (d.service.clientManager.clients.map savedClient)
      ).setAuthorizedKeys d.authorizedKeys }

def saveConfig (d : Daemon) (w : FileWrite) : Daemon :=
  { d.updateConfig with saved := decide (w = FileWrite.written) }.writeBack format w

def setQuicIdleTimeout (d : Daemon) (secs : UInt64) (w : FileWrite) : Daemon :=
  let secs := max secs minIdleTimeoutSecs
  if secs = d.quicIdleTimeoutSecs then d
  else { d with config := d.config.setQuicIdleTimeout secs,
                quicIdleTimeoutSecs := secs }.writeBack format w

def setClipboardConfig (d : Daemon) (cfg : ClipboardConfig) (w : FileWrite) : Daemon :=
  { d with config := d.config.setClipboardConfig cfg }.writeBack format w

/-- The requests that end with saving the clients. -/
def saves : FrontendRequest → Bool
  | .activate .. | .create | .delete _ | .updateFixIps .. | .updateHostname .. | .updatePort ..
  | .updatePosition .. | .updateMonitor .. | .authorizeKey .. | .removeAuthorizedKey _
  | .setClientInputChannels .. | .saveConfiguration | .setEnableClipboardTo .. => true
  | .changePort _ | .enumerate | .resolveDns _ | .enableCapture | .enableEmulation | .sync
  | .updateEnterHook .. | .setQuicIdleTimeout _ | .setClipboardConfig _ => false

/-- What a request does before anything is saved. -/
def edit (d : Daemon) (r : FrontendRequest) : Daemon :=
  { d with
    service := d.service.handleFrontendRequest r
    authorizedKeys := match r with
      | .authorizeKey desc fp => d.authorizedKeys.insert fp desc
      | .removeAuthorizedKey fp => d.authorizedKeys.erase fp
      | _ => d.authorizedKeys }

def handleFrontendRequest (d : Daemon) (r : FrontendRequest) (w : FileWrite) : Daemon :=
  match r with
  | .setQuicIdleTimeout secs => d.setQuicIdleTimeout format secs w
  | .setClipboardConfig cfg => d.setClipboardConfig format cfg w
  | r => if saves r then (d.edit r).saveConfig format w else d.edit r

/-- A daemon that panicked handles nothing more. -/
def step (d : Daemon) (e : FrontendRequest × FileWrite) : Daemon :=
  if d.alive then d.handleFrontendRequest format e.1 e.2 else d

/-- The daemon when its loop begins, with this text in the configuration file. -/
def start (text : String) : Daemon where
  service := Service.start (Config.clients (format.parse text))
  config := format.parse text
  authorizedKeys := ((format.parse text).bind (·.authorizedFingerprints)).getD ∅
  quicIdleTimeoutSecs :=
    max ((((format.parse text).bind (·.quic)).bind (·.idleTimeoutSecs)).getD minIdleTimeoutSecs)
      minIdleTimeoutSecs
  file := some text

/-- The clients a daemon would start with. -/
def reloaded (d : Daemon) : Option (List ConfigClient) :=
  (d.file.bind format.parse).map fun toml => Config.clients (some toml)

end Daemon

/-- The same client, whatever the order of its addresses. -/
structure Describes (cc : ConfigClient) (c : ClientConfig × ClientState) : Prop where
  ips : cc.ips.Perm c.1.fixIps
  config : cc.config = { c.1 with fixIps := cc.ips }
  active : cc.active = c.2.active

namespace Daemon

variable {format : TomlFormat}

/-- What would be read back are the clients of the manager. -/
def Faithful (format : TomlFormat) (d : Daemon) : Prop :=
  d.alive = true → d.saved = true → ∃ list, d.reloaded format = some list ∧
    List.Forall₂ Describes list d.service.clientManager.clients

/-! ### Writing and reading clients -/

/-- A client is read back as it is, just if none of its addresses is listed twice. -/
theorem describes_savedClient_iff (c : ClientConfig × ClientState) :
    Describes (TomlClient.ofConfig (savedClient c)).toConfig c ↔ c.1.fixIps.Nodup := by
  rw [TomlClient.toConfig_ofConfig]
  have sorted : (sortIps (savedClient c).ips).Perm c.1.fixIps.dedup :=
    List.perm_insertionSort ..
  have single := (sorted.nodup_iff.mpr c.1.fixIps.nodup_dedup).dedup
  constructor
  · intro same
    exact same.ips.nodup_iff.mp (List.nodup_dedup _)
  · intro nodup
    rw [nodup.dedup] at sorted
    exact ⟨by rw [single]; exact sorted, rfl, rfl⟩

theorem clients_getD (config : Config) :
    Config.clients (some (config.getD {})) = config.clients := by
  cases config <;> rfl

/-- What saving leaves in the document describes the clients, just if there is a client or the
document had none, and no address is listed twice. -/
theorem forall₂_updateConfig_iff (d : Daemon) :
    List.Forall₂ Describes d.updateConfig.config.clients d.service.clientManager.clients ↔
      (d.service.clientManager.clients = [] → d.config.clients = []) ∧
        ∀ c ∈ d.service.clientManager.clients, c.1.fixIps.Nodup := by
  have config_ : d.updateConfig.config.clients =
      (d.config.setClients (d.service.clientManager.clients.map savedClient)).clients :=
    clients_setAuthorizedKeys ..
  rw [config_]
  generalize d.service.clientManager.clients = list
  cases list with
  | nil =>
    have kept : d.config.setClients (([] : List (ClientConfig × ClientState)).map savedClient) =
        d.config := rfl
    rw [kept, List.forall₂_nil_right_iff]
    simp
  | cons c rest =>
    rw [clients_setClients (by simp), List.map_map, List.forall₂_map_left_iff, List.forall₂_same]
    simp [describes_savedClient_iff]

/-! ### One request -/

/-- What the file holds, where the clients were saved. -/
def Stored (format : TomlFormat) (d : Daemon) : Prop :=
  d.alive = true → d.saved = true →
    (∃ toml, d.file.bind format.parse = some toml ∧
      Config.clients (some toml) = d.config.clients) ∧
    List.Forall₂ Describes d.config.clients d.service.clientManager.clients

theorem Stored.faithful {d : Daemon} (stored : d.Stored format) : d.Faithful format := by
  intro alive saved
  obtain ⟨⟨toml, read, same⟩, described⟩ := stored alive saved
  refine ⟨d.config.clients, ?_, described⟩
  rw [reloaded, read, Option.map_some, same]

/-- A write that succeeds stores what the document says. -/
theorem stored_writeBack {d : Daemon} {w : FileWrite}
    (described : d.saved = true →
      List.Forall₂ Describes d.config.clients d.service.clientManager.clients)
    (before : d.saved = true → w = .refused → ∃ toml, d.file.bind format.parse = some toml ∧
      Config.clients (some toml) = d.config.clients) :
    (d.writeBack format w).Stored format := by
  unfold writeBack
  cases text : format.toStringPretty (d.config.getD {}) with
  | none => exact fun alive => absurd alive Bool.false_ne_true
  | some text_ =>
    cases w with
    | written =>
      intro _ saved
      exact ⟨⟨_, format.parse_toStringPretty text, clients_getD d.config⟩, described saved⟩
    | refused => exact fun _ saved => ⟨before saved rfl, described saved⟩
    | torn other => exact fun _ saved => absurd saved Bool.false_ne_true

/-- The clients a save finds are such that the file can describe them. -/
def Savable (d : Daemon) : Prop :=
  (d.service.clientManager.clients = [] → d.config.clients = []) ∧
    ∀ c ∈ d.service.clientManager.clients, c.1.fixIps.Nodup

theorem stored_saveConfig {d : Daemon} {w : FileWrite}
    (savable : w = .written →
      (format.toStringPretty (d.updateConfig.config.getD {})).isSome = true → d.Savable) :
    (d.saveConfig format w).Stored format := by
  cases print : format.toStringPretty (d.updateConfig.config.getD {}) with
  | none =>
    unfold saveConfig writeBack
    simp only [print]
    exact fun alive => absurd alive Bool.false_ne_true
  | some text =>
    refine stored_writeBack ?_ ?_
    · intro saved
      have savable := savable (of_decide_eq_true saved) (by rw [print]; rfl)
      exact (forall₂_updateConfig_iff d).mpr savable
    · rintro saved rfl
      cases saved

/-- A save that reached the file shows what it found. -/
theorem savable_of_faithful {d : Daemon} (alive : d.alive = true)
    (storable : (format.toStringPretty (d.updateConfig.config.getD {})).isSome = true)
    (faithful : (d.saveConfig format .written).Faithful format) : d.Savable := by
  obtain ⟨text, print⟩ := Option.isSome_iff_exists.mp storable
  have after : d.saveConfig format .written =
      { d.updateConfig with saved := true, file := some text } := by
    unfold saveConfig writeBack
    simp only [print]
    rfl
  rw [after] at faithful
  obtain ⟨list, read, described⟩ := faithful alive rfl
  have parsed : format.parse text = some (d.updateConfig.config.getD {}) :=
    format.parse_toStringPretty print
  obtain rfl : d.updateConfig.config.clients = list := by
    simpa [reloaded, parsed, clients_getD] using read
  exact (forall₂_updateConfig_iff d).mp described

/-! ### The enter hook -/

theorem clients_setEnterHook_of_same {m : ClientManager} {h : ClientHandle} {hook : Option String}
    (same : ∀ c, m.get? h = some c → c.1.cmd = hook) :
    (m.setEnterHook h hook).clients = m.clients := by
  have get (j : ClientHandle) : (m.setEnterHook h hook).get? j = m.get? j := by
    unfold ClientManager.setEnterHook
    rw [Slab.get?_modify]
    split_ifs with own
    · subst own
      cases present : m.get? j with
      | none => rfl
      | some c =>
        obtain rfl := same c present
        rfl
    · rfl
  unfold ClientManager.clients
  rw [ClientManager.setEnterHook, Slab.keys_modify]
  congr 1
  funext j
  exact get j

/-- Two columns that one list describes, entry by entry. -/
theorem exists_of_forall₂_filterMap {α β : Type} {R : α → β → Prop} {list : List α}
    {f g : Nat → Option β} {keys : List Nat} (total : ∀ k ∈ keys, (f k).isSome = true)
    (same : ∀ k, (g k).isSome = (f k).isSome)
    (first : List.Forall₂ R list (keys.filterMap f))
    (second : List.Forall₂ R list (keys.filterMap g)) {k : Nat} (mem : k ∈ keys) :
    ∃ a b c, f k = some b ∧ g k = some c ∧ R a b ∧ R a c := by
  induction keys generalizing list with
  | nil => cases mem
  | cons j keys ih =>
    obtain ⟨b, atF⟩ := Option.isSome_iff_exists.mp (total j List.mem_cons_self)
    obtain ⟨c, atG⟩ := Option.isSome_iff_exists.mp ((same j).trans (Option.isSome_of_eq_some atF))
    rw [List.filterMap_cons_some atF] at first
    rw [List.filterMap_cons_some atG] at second
    cases first with
    | cons rb first =>
      cases second with
      | cons rc second =>
        obtain rfl | mem := List.mem_cons.mp mem
        · exact ⟨_, b, c, atF, atG, rb, rc⟩
        · exact ih (fun k mem => total k (List.mem_cons_of_mem j mem)) first second mem

theorem cmd_eq_of_forall₂ {m : ClientManager} {h : ClientHandle} {hook : Option String}
    {list : List ConfigClient} (before : List.Forall₂ Describes list m.clients)
    (after : List.Forall₂ Describes list (m.setEnterHook h hook).clients)
    {c : ClientConfig × ClientState} (present : m.get? h = some c) : c.1.cmd = hook := by
  have keys : (m.setEnterHook h hook).keys = m.keys := Slab.keys_modify ..
  rw [ClientManager.clients, keys] at after
  obtain ⟨cc, c', d, atM, atNew, old, new⟩ := exists_of_forall₂_filterMap
    (fun _ mem => Slab.mem_keys.mp mem) (fun j => Slab.isSome_get?_modify ..) before after
    (Slab.mem_keys.mpr (Option.isSome_of_eq_some present))
  obtain rfl : c = c' := Option.some.inj (present.symm.trans atM)
  have changed : d = ({ c.1 with cmd := hook }, c.2) := by
    rw [Slab.get?_modify, if_pos rfl, present] at atNew
    exact (Option.some.inj atNew).symm
  have oldHook : cc.config.cmd = c.1.cmd := by rw [old.config]
  have newHook : cc.config.cmd = hook := by rw [new.config, changed]
  exact oldHook.symm.trans newHook

/-! ### Runs -/

/-- A request that saves to a file that takes it finds clients the file can describe; and a request
for another enter hook comes before anything is saved. -/
def Keeps (format : TomlFormat) (d : Daemon) (e : FrontendRequest × FileWrite) : Prop :=
  d.alive = true →
    (saves e.1 = true → e.2 = .written →
      (format.toStringPretty ((d.edit e.1).updateConfig.config.getD {})).isSome = true →
        (d.edit e.1).Savable) ∧
      ∀ h hook, e.1 = .updateEnterHook h hook → d.saved = true →
        ∀ c, d.service.clientManager.get? h = some c → c.1.cmd = hook

theorem handleFrontendRequest_of_saves {d : Daemon} {r : FrontendRequest} {w : FileWrite}
    (saving : saves r = true) :
    d.handleFrontendRequest format r w = (d.edit r).saveConfig format w := by
  cases r <;> first | rfl | cases saving

/-- A document that changes, but not its clients, is written. -/
theorem stored_writeBack_of_clients {d : Daemon} (stored : d.Stored format)
    (alive : d.alive = true) {config : Config} (same : config.clients = d.config.clients)
    (secs : UInt64) (w : FileWrite) :
    ({ d with config := config, quicIdleTimeoutSecs := secs }.writeBack format w).Stored
      format := by
  refine stored_writeBack ?_ ?_
  · intro saved
    change List.Forall₂ Describes config.clients _
    rw [same]
    exact (stored alive saved).2
  · intro saved _
    obtain ⟨⟨toml, read, clients_⟩, -⟩ := stored alive saved
    exact ⟨toml, read, clients_.trans same.symm⟩

theorem stored_step {d : Daemon} {e : FrontendRequest × FileWrite} (stored : d.Stored format)
    (keeps : d.Keeps format e) : (d.step format e).Stored format := by
  obtain ⟨r, w⟩ := e
  unfold step
  split_ifs with alive
  · obtain ⟨savable, hooks⟩ := keeps alive
    cases saving : saves r with
    | true =>
      rw [handleFrontendRequest_of_saves saving]
      exact stored_saveConfig (savable saving)
    | false =>
      cases r with
      | updateEnterHook h hook =>
        intro _ saved
        obtain ⟨file, described⟩ := stored alive saved
        refine ⟨file, ?_⟩
        change List.Forall₂ Describes d.config.clients
          (d.service.clientManager.setEnterHook h hook).clients
        rwa [clients_setEnterHook_of_same (hooks h hook rfl saved)]
      | setQuicIdleTimeout secs =>
        change (d.setQuicIdleTimeout format secs w).Stored format
        unfold setQuicIdleTimeout
        dsimp only
        split_ifs
        · exact stored
        · exact stored_writeBack_of_clients stored alive (clients_setQuicIdleTimeout ..) _ w
      | setClipboardConfig cfg =>
        exact stored_writeBack_of_clients stored alive (clients_setClipboardConfig ..)
          d.quicIdleTimeoutSecs w
      | _ => first | exact stored | cases saving
  · exact stored

theorem keeps_of_faithful {d : Daemon} {e : FrontendRequest × FileWrite}
    (stored : d.Stored format) (faithful : (d.step format e).Faithful format) :
    d.Keeps format e := by
  obtain ⟨r, w⟩ := e
  intro alive
  have step_ : d.step format (r, w) = d.handleFrontendRequest format r w := if_pos alive
  rw [step_] at faithful
  constructor
  · rintro saving rfl storable
    rw [handleFrontendRequest_of_saves saving] at faithful
    exact savable_of_faithful alive storable faithful
  · rintro h hook rfl saved c present
    obtain ⟨⟨toml, read, clients_⟩, described⟩ := stored alive saved
    obtain ⟨list, read', described'⟩ := faithful alive saved
    obtain rfl : d.config.clients = list := by
      change d.reloaded format = some list at read'
      rw [reloaded, read, Option.map_some, clients_] at read'
      exact Option.some.inj read'
    exact cmd_eq_of_forall₂ described described' present

/-- In every run from the start, the file describes the clients of the manager wherever they were
saved, just if every request keeps to the condition. -/
theorem saved_clients_faithful_iff (format : TomlFormat) (text : String)
    (events : List (FrontendRequest × FileWrite)) :
    Transition.Always (step format) (Faithful format) (start format text) events ↔
      Transition.AllMeet (step format) (Keeps format) (start format text) events :=
  Transition.always_iff_allMeet (Stored format) (fun _ _ => stored_step) (fun _ => Stored.faithful)
    (fun _ _ => keeps_of_faithful) (fun _ saved => absurd saved Bool.false_ne_true) events

/-! ### A run -/

/-- The document with one new client in it. -/
def oneClient : ConfigToml where
  clients := some [{ ips := some [], position := some .left }]
  authorizedFingerprints := some ∅

def oneClientText : String :=
  "[[clients]]\nips = []\nposition = \"left\"\n\n[authorized_fingerprints]\n"

/-- The library on the default document and on `oneClient`. -/
def twoDocuments : TomlFormat where
  toStringPretty toml :=
    if toml = {} then some "" else if toml = oneClient then some oneClientText else none
  parse text :=
    if text = "" then some {} else if text = oneClientText then some oneClient else none
  parse_toStringPretty := by
    intro toml text printed
    split_ifs at printed with empty one
    · subst empty
      obtain rfl := Option.some.inj printed
      rfl
    · subst one
      obtain rfl := Option.some.inj printed
      rfl

theorem saved_clients_faithful_create :
    AllMeet (step twoDocuments) (Keeps twoDocuments) (start twoDocuments "")
        [(.create, .written)] ∧
      (step twoDocuments (start twoDocuments "") (.create, .written)).saved = true ∧
      (step twoDocuments (start twoDocuments "") (.create, .written)).reloaded twoDocuments =
        some [{}] := by
  have faithful : Always (step twoDocuments) (Faithful twoDocuments) (start twoDocuments "")
      [(.create, .written)] := by
    refine ⟨fun _ saved => absurd saved Bool.false_ne_true, ?_⟩
    intro _ _
    refine ⟨[{}], by decide +kernel, ?_⟩
    have clients_ : (step twoDocuments (start twoDocuments "")
        (.create, .written)).service.clientManager.clients = [({}, {})] := by decide +kernel
    rw [clients_]
    exact .cons ⟨.refl _, rfl, rfl⟩ .nil
  exact ⟨(saved_clients_faithful_iff twoDocuments "" _).mp faithful, by decide +kernel,
    by decide +kernel⟩

/-- The last client is deleted, and is there again after a restart. -/
theorem deleted_client_comes_back :
    ¬ Always (step twoDocuments) (Faithful twoDocuments) (start twoDocuments "")
      [(.create, .written), (.delete 0, .written)] := by
  rintro ⟨-, -, faithful⟩
  generalize deleted : step twoDocuments (step twoDocuments (start twoDocuments "")
    (.create, .written)) (.delete 0, .written) = d at faithful
  have gone : d.service.clientManager.clients = [] := by
    rw [← deleted]
    decide +kernel
  have kept : d.reloaded twoDocuments = some [{}] := by
    rw [← deleted]
    decide +kernel
  obtain ⟨list, read, described⟩ := faithful (by rw [← deleted]; decide +kernel)
    (by rw [← deleted]; decide +kernel)
  rw [gone, List.forall₂_nil_right_iff] at described
  rw [kept, described] at read
  cases read

end Daemon

end LanMouse
