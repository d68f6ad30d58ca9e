import Prism.Crypto.Verify
import Prism.Lockfree.Saved
import Prism.Server.Epochs
import Prism.Vrf.Committees

/-!
What an epoch saves, and the epoch that a restarted server makes of it
(`prism/server/epoch/epoch.py`, `saved.py`, `genesis.py`, `vrf.py` and `prism/server/pki.py`).

An epoch takes its serial number from a counter of the process and fetches its server key and
certificate under that number. A saved epoch takes a number and fetches a key like any other, and
then takes its pseudonym and its role from what was saved.

* `savedEpoch_saveData`: what a saved epoch keeps, and what it gets anew.
* `Life.machine`: the epochs of a server over its processes, and what they save.
-/

namespace Prism.Server

open Prism.Crypto Prism.Lib Prism.Lockfree Prism.Vrf

/-! ### Roles -/

/-- The classes in the registry of roles. -/
inductive Role where
  | dummy | clientRegistration | dropboxSS | lockFreeDropbox | emix
deriving DecidableEq, Repr

/-- `AbstractRole.role`. -/
def Role.role : Role → String
  | .dummy => "DUMMY"
  | .clientRegistration => "CLIENT_REGISTRATION"
  | .dropboxSS => "DROPBOX"
  | .lockFreeDropbox => "DROPBOX_LF"
  | .emix => "EMIX"

/-- `s.upper()`. -/
def upper (s : String) : String := String.ofList (s.toList.map Char.toUpper)

/-- `_role_registry`. -/
def roleRegistry : List (String × Role) :=
  [Role.dummy, .clientRegistration, .dropboxSS, .lockFreeDropbox, .emix].map
    fun role => (upper role.role, role)

/-- `AbstractRole.create`. -/
def Role.create (registryName : String) : Py Role :=
  match roleRegistry.lookup (upper registryName) with
  | some role => .ok role
  | none => .error (.valueError ("Cannot find class for " ++ upper registryName))

/-- The name of a role gives the role back. -/
@[simp] theorem Role.create_role (role : Role) : Role.create role.role = .ok role := by
  cases role <;> rfl

/-! ### Keys -/

/-- The packages for ECDH keys, which are exported in PEM format, and for certificates. -/
structure KeyPackages where
  EccKey : Type
  exportKey : EccKey → Bytes
  importKey : Bytes → Py EccKey
  import_export : ∀ key, importKey (exportKey key) = .ok key
  x509 : X509
  publicBytes : x509.PublicKey → Bytes
  /-- The certificate for a key, issued with a root key and for the issuer of a root certificate;
  it has a random serial number and the time. -/
  issue : x509.PrivateKey → x509.Certificate → x509.PrivateKey → ℕ → ℤ → Py x509.Certificate

/-- What the code finds outside the process, when it makes an epoch: fresh keys, what the
certificate package draws, and the pair files of the keys directory, if there is one. -/
structure Outside (packages : KeyPackages) where
  eccKey : packages.EccKey
  rsaKey : packages.x509.PrivateKey
  randomSerial : ℕ
  now : ℤ
  keysDir : Option (String → Option (Py (packages.x509.PrivateKey × packages.x509.Certificate)))

/-- `ServerPKI`. -/
structure ServerPKI (packages : KeyPackages) where
  rootCert : Option packages.x509.Certificate
  rootKey : Option packages.x509.PrivateKey

/-- A server key, its certificate, and a pseudonym. -/
structure ServerKey (packages : KeyPackages) where
  serverKey : packages.x509.PrivateKey
  certificate : Option packages.x509.Certificate
  pseudonym : Bytes

/-- The name of a pair file: `epoch-{epoch_serial_num:03d}_{server_name}_pair.json`. -/
def pairFile (epochSerialNum : ℕ) (serverName : String) : String :=
  let digits := Nat.repr epochSerialNum
  "epoch-" ++ "".pushn '0' (3 - digits.length) ++ digits ++ "_" ++ serverName ++ "_pair.json"

section Fetch

variable {packages : KeyPackages} (pki : ServerPKI packages) (out : Outside packages)
  (epochSerialNum : ℕ) (serverName : String)

/-- The key of a server and its certificate: issued with the root key, or else read from the
pair file for the serial number. -/
def ServerPKI.serverPair (rootCert : packages.x509.Certificate) :
    Py (packages.x509.PrivateKey × packages.x509.Certificate) :=
  match pki.rootKey, out.keysDir with
  | some rootKey, _ =>
    (packages.issue rootKey rootCert out.rsaKey out.randomSerial out.now).map
      fun certificate => (out.rsaKey, certificate)
  | none, none => .error (.runtimeError ("No keys dir /config/keys to load " ++
      "certificate/key for server " ++ serverName ++ "!"))
  | none, some file =>
    match file (pairFile epochSerialNum serverName) with
    | none => .error (.runtimeError ("Cannot find key, certificate pair file /config/keys/" ++
        pairFile epochSerialNum serverName))
    | some pair => pair

/-- `fetch_key_cert_pseudonym`. -/
def ServerPKI.fetchKeyCertPseudonym (sha : Sha256) : Py (ServerKey packages) :=
  match pki.rootCert with
  | none =>
    .ok {
      serverKey := out.rsaKey, certificate := none
      pseudonym := sha.digest (packages.publicBytes (packages.x509.keyOf out.rsaKey)) }
  | some rootCert =>
    (pki.serverPair out epochSerialNum serverName rootCert).map fun pair => {
      serverKey := pair.1, certificate := some pair.2
      pseudonym := sha.digest (packages.publicBytes (packages.x509.publicKey pair.2)) }

end Fetch

/-! ### Epochs -/

/-- What an epoch is known by. -/
structure EpochData (packages : KeyPackages) where
  serialNumber : ℕ
  name : String
  privateKey : packages.EccKey
  serverKey : packages.x509.PrivateKey
  certificate : Option packages.x509.Certificate
  pseudonym : Bytes
  role : Role
  committee : String
  dropboxIndex : Option ℤ
  proof : Option String
  state : EpochState

/-- `EpochState.name`. -/
def EpochState.name : EpochState → String
  | .preRun => "PRE_RUN"
  | .running => "RUNNING"
  | .handoff => "HANDOFF"
  | .off => "OFF"

/-- The dictionary that an epoch saves. -/
@[ext] structure SavedState where
  serialNumber : ℕ
  name : String
  pseudonym : String
  roleName : String
  committee : String
  dropboxIndex : Option ℤ
  proof : Option String
  state : String
  privateKey : String
deriving DecidableEq, Repr

variable {packages : KeyPackages}

/-- `Epoch.save_data`. -/
def EpochData.saveData (e : EpochData packages) : SavedState where
  serialNumber := e.serialNumber
  name := e.name
  pseudonym := hex e.pseudonym
  roleName := e.role.role
  committee := e.committee
  dropboxIndex := e.dropboxIndex
  proof := e.proof
  state := e.state.name
  privateKey := hex (packages.exportKey e.privateKey)

/-- A server as its epochs see it. -/
structure Host (packages : KeyPackages) where
  name : String
  sha : Sha256
  pki : ServerPKI packages

/-- The settings that the role of the genesis epoch comes from. -/
structure GenesisSettings where
  pseudonym : Option String := none
  role : String := "dummy"
  dbIndex : Option ℤ := none

/-- What a sortition gives a server: the settings, the committee and its proof. -/
structure Sorted where
  configuration : Settings
  vrfConfig : VRFConfig
  committee : String
  proof : String

section Made

variable (host : Host packages) (serialNumber : ℕ) (out : Outside packages)

/-- The key of an epoch with a serial number. -/
def fetchKey : Py (ServerKey packages) :=
  host.pki.fetchKeyCertPseudonym out serialNumber host.name host.sha

/-- A pseudonym in the configuration goes before that of the key. -/
def GenesisSettings.pseudonymOr (settings : GenesisSettings) (pseudonym : Bytes) : Py Bytes :=
  match settings.pseudonym with
  | some configured => fromHex configured
  | none => .ok pseudonym

/-- `GenesisEpoch.__init__`. -/
def genesisEpoch (settings : GenesisSettings) : Py (EpochData packages) := do
  let key ← fetchKey host serialNumber out
  let pseudonym ← settings.pseudonymOr key.pseudonym
  let committee := match settings.dbIndex with
    | some dropboxIndex => settings.role ++ toString dropboxIndex
    | none => settings.role
  let role ← Role.create settings.role
  .ok {
    serialNumber, name := "genesis", privateKey := out.eccKey
    serverKey := key.serverKey, certificate := key.certificate, pseudonym
    role, committee, dropboxIndex := settings.dbIndex, proof := none, state := .running }

/-- `VRFEpoch.__init__`. -/
def vrfEpoch (seed : String) (sorted : Sorted) : Py (EpochData packages) := do
  let key ← fetchKey host serialNumber out
  let args ← sortIntoRole sorted.configuration sorted.vrfConfig (committees sorted.vrfConfig)
    sorted.committee sorted.proof
  let role ← Role.create args.roleName
  .ok {
    serialNumber, name := seed, privateKey := out.eccKey
    serverKey := key.serverKey, certificate := key.certificate, pseudonym := key.pseudonym
    role, committee := args.committee, dropboxIndex := args.dropboxIndex, proof := args.proof
    state := .preRun }

/-- `SavedEpoch.__init__`, which has a serial number of its own. -/
def savedEpoch (savedState : SavedState) : Py (EpochData packages) := do
  let privateKey ← packages.importKey (← fromHex savedState.privateKey)
  let key ← fetchKey host serialNumber out
  let pseudonym ← fromHex savedState.pseudonym
  let role ← Role.create savedState.roleName
  .ok {
    serialNumber, name := savedState.name, privateKey
    serverKey := key.serverKey, certificate := key.certificate, pseudonym
    role, committee := savedState.committee, dropboxIndex := savedState.dropboxIndex
    proof := savedState.proof, state := .running }

/-- An epoch that runs, with another serial number and another key of its server. -/
def EpochData.restored (e : EpochData packages) (key : ServerKey packages) :
    EpochData packages :=
  { e with
    serialNumber, serverKey := key.serverKey, certificate := key.certificate, state := .running }

/-- **A saved epoch** keeps all that was saved but its serial number and its state, and fetches a
key under the number that it takes. -/
theorem savedEpoch_saveData (e : EpochData packages) :
    savedEpoch host serialNumber out e.saveData =
      (fetchKey host serialNumber out).map (e.restored serialNumber) := by
  rw [savedEpoch, EpochData.saveData]
  simp only [fromHex_hex, ok_bind, packages.import_export, Role.create_role]
  rcases fetchKey host serialNumber out with error | key
  · rfl
  · rfl

end Made

/-! ### Servers and their restarts -/

/-- The life of a server: what is in its state store, and the epochs of its process. Each class has
a counter of serial numbers of its own once it sets one. -/
structure Life (packages : KeyPackages) where
  currentEpoch : Option String := none
  savedEpochs : List (String × SavedState) := []
  /-- `Epoch.serial_num_iterator`. -/
  serialNumIterator : ℕ := 0
  /-- `SavedEpoch.serial_num_iterator`. -/
  savedIterator : Option ℕ := none
  epochs : List (EpochData packages) := []
  alive : Bool := false

/-- What a constructor of epochs is given besides the seed: what it finds outside, whether the
state store is to be ignored, and what the role comes from. -/
structure Surroundings (packages : KeyPackages) where
  out : Outside packages
  ignoreState : Bool := false
  settings : GenesisSettings := {}
  sorted : Sorted

namespace Life

variable (host : Host packages)

/-- `EpochStateStore.load_state` of `saved-epoch`. -/
def loadState (s : Life packages) (given : Surroundings packages) (seed : String) :
    Option SavedState :=
  if given.ignoreState then none else s.savedEpochs.lookup seed

/-- `Epoch.from_seed`. -/
def fromSeed (s : Life packages) (given : Surroundings packages) (seed : String) :
    Py (EpochData packages) :=
  match s.loadState given seed with
  | some savedState => savedEpoch host s.serialNumIterator given.out savedState
  | none =>
    if seed = "genesis" then genesisEpoch host s.serialNumIterator given.out given.settings
    else vrfEpoch host s.serialNumIterator given.out seed given.sorted

/-- An epoch is made and launched. If its constructor raises, the process ends. -/
def launch (s : Life packages) (given : Surroundings packages) (seed : String) :
    Life packages × Option (EpochData packages) :=
  let counted := { s with
    serialNumIterator := s.serialNumIterator + 1
    savedIterator := match s.loadState given seed with
      | some savedState => some savedState.serialNumber
      | none => s.savedIterator }
  match s.fromSeed host given seed with
  | .ok e => ({ counted with epochs := s.epochs ++ [e] }, some e)
  | .error _ => ({ counted with alive := false }, none)

/-- What happens to a server. -/
inductive Change (packages : KeyPackages) where
  /-- A process starts, and loads its first epoch. -/
  | boot (given : Surroundings packages)
  /-- A command NEW. -/
  | new (seed : String) (given : Surroundings packages)
  /-- A command changes the state of an epoch. -/
  | advance (i : ℕ) (state : EpochState)
  /-- `Epoch.run` saves its epoch. -/
  | run (i : ℕ)

/-- A new process: its counters start again. `load_epoch` takes the current epoch. -/
def boot (s : Life packages) (given : Surroundings packages) :
    Life packages × Option (EpochData packages) :=
  let s : Life packages :=
    { currentEpoch := s.currentEpoch, savedEpochs := s.savedEpochs, alive := true }
  let seed := if given.ignoreState then "genesis" else s.currentEpoch.getD "genesis"
  s.launch host given seed

/-- `Epoch.run` saves its epoch, as the current one. -/
def save (s : Life packages) (e : EpochData packages) : Life packages :=
  { s with
    currentEpoch := some e.name
    savedEpochs := dictSet s.savedEpochs e.name e.saveData }

/-- One change, and the epoch that it makes. -/
def step (s : Life packages) : Change packages → Life packages × Option (EpochData packages)
  | .boot given => s.boot host given
  | .new seed given => if s.alive then s.launch host given seed else (s, none)
  | .advance i state => ({ s with epochs := s.epochs.modify i fun e => { e with state } }, none)
  | .run i =>
    match s.alive, s.epochs[i]? with
    | true, some e => (s.save e, none)
    | _, _ => (s, none)

/-- A server over time. -/
def machine : Machine (Life packages) (Change packages) (Option (EpochData packages)) where
  init := {}
  step := step host

end Life

end Prism.Server
