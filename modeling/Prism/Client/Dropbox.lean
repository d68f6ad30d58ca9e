import Prism.Crypto.SecretSharing
import Prism.Crypto.ServerMessage

/-!
The client's side of the MPC dropbox (`MPCDropbox` and `MPCRequestRegistry` in
`prism/client/dropbox.py`).

To write a message, the client shares the pseudonym and the encoded message among the
members of the committee, and sends each member its shares, encrypted for it. To read, it
shares the pseudonym, and sends each member a fresh half key along with its share. The
registry keeps the private keys, and puts a reply together again.

What the requests carry, and that a reply is put together again, is proved with the round trip
of a message.
-/

namespace Prism.Client

open Crypto

/-- `get_ssobj_from_map`. The committees use the Shamir scheme; for the other schemes, and
for a threshold or modulus below zero, there is no value. -/
def getSsobjFromMap (ssMap : Value) : Py (Option ShamirSS) :=
  match ssMap with
  | .object .secretSharingMap fields => do
    let field := fieldOf ClassName.secretSharingMap.schema fields
    pyAssert ((field .parties).truthy)
    pyAssert ((field .threshold).truthy)
    pyAssert ((field .modulus).truthy)
    match field .sharingType, field .parties, field .threshold, field .modulus with
    | .enum (.secretSharing .shamir), .int parties, .int threshold, .int modulus =>
      if ge : 3 ≤ parties.toNat then
        if 0 < threshold ∧ 0 < modulus then
          return some ⟨parties.toNat, threshold.toNat, modulus.toNat, ge⟩
        else return none
      else throw .assertionError
    | _, _, _, _ => return none
  | _ => .error .assertionError

/-- A dropbox with the sharing scheme of its announcement. -/
structure MPCDropbox where
  dropbox : ServerRecord
  secretSharing : ShamirSS
  loaded : getSsobjFromMap (dropbox.ark.get .secretSharing) = .ok (some secretSharing)

/-- What a client draws for a request to a committee: the coefficients of the sharings, and
the keys, nonces and times of the messages to the parties and of the one around them. -/
structure RequestDraws (package : CryptoPackage) (ss : ShamirSS) where
  pseudonymCoeffs : ℕ → ss.Draw
  messageCoeffs : ℕ → ss.Draw
  partyNow : ℕ → ℤ
  partyFresh : ℕ → Fresh package
  requestNow : ℤ
  requestFresh : Fresh package

/-- What the client keeps of a read request. -/
structure MPCRequestInfo (package : CryptoPackage) where
  server : MPCDropbox
  requestId : Bytes
  key : package.PrivateKey
  peerKeys : ℕ → Option package.PrivateKey

/-- The read requests that are under way, by their ids. -/
structure MPCRequestRegistry (package : CryptoPackage) where
  requests : Bytes → Option (MPCRequestInfo package)

/-- `pseudo_shares[party_id][0].share`. -/
def pseudonymShare (pseudoShares : List (List Share)) (partyId : ℕ) : Py ℤ := do
  let shares ← pyIndex pseudoShares partyId
  return (← pyIndex shares 0).share

namespace MPCDropbox

variable {package : CryptoPackage} (cbor : Cbor2) (builtins : Builtins) (self : MPCDropbox)

/-- The members of the committee that announced a key:
`party_id for party_id, key in enumerate(worker_keys) if key`. -/
def workerParties : Py (List ℕ) :=
  match self.dropbox.ark.get .workerKeys with
  | .list keys => .ok ((keys.zipIdx.filter fun entry => entry.1.truthy).map Prod.snd)
  | _ => .error .typeError

/-! ### Writing -/

/-- What `write_request` sends to a party. -/
def writeMessage (now : ℤ) (pseudoShares messageShares : List (List Share)) (partyId : ℕ) :
    Py PrismMessage := do
  let share ← pseudonymShare pseudoShares partyId
  let ciphertext ← ShamirSS.joinShares cbor (← pyIndex messageShares partyId)
  return PrismMessage.create now .writeDropbox
    [(.pseudonymShare, .int share), (.ciphertext, .bytes ciphertext)]

/-- `write_request`. -/
def writeRequest (pseudonym : Bytes) (message : PrismMessage)
    (draws : RequestDraws package self.secretSharing) : Py PrismMessage := do
  let pseudoShares ← self.secretSharing.shareBytes cbor pseudonym draws.pseudonymCoeffs
  let messageShares ←
    self.secretSharing.shareBytes cbor (← message.encode cbor) draws.messageCoeffs
  let submessages ← (← self.workerParties).mapM fun partyId => do
    let inner ← writeMessage cbor (draws.partyNow partyId) pseudoShares messageShares partyId
    encryptMessage package cbor builtins self.dropbox inner (some partyId) false
      (draws.partyFresh partyId)
  let request := PrismMessage.create draws.requestNow .writeObliviousDropbox
    [(.submessages, .list (submessages.map PrismMessage.toValue))]
  encryptMessage package cbor builtins self.dropbox request none true draws.requestFresh

/-! ### Reading -/

/-- `generate_private` on a public key of the dropbox, for a key that is drawn. -/
def generatePrivate (partyId : Option ℕ) (drawn : package.PrivateKey) :
    Py package.PrivateKey := do
  match ← self.dropbox.publicKey package partyId with
  | some _ => return drawn
  | none => throw .attributeError

/-- `MPCRequestInfo.generate`. -/
def generate (requestId : Bytes) (key : package.PrivateKey) (peerKey : ℕ → package.PrivateKey) :
    Py (MPCRequestInfo package) := do
  let key ← self.generatePrivate none key
  let parties ← self.workerParties
  let peerKeys ← parties.mapM fun partyId => do
    return (partyId, ← self.generatePrivate (some partyId) (peerKey partyId))
  return ⟨self, requestId, key, fun partyId => peerKeys.lookup partyId⟩

/-- What `read_request` sends to a party. -/
def readMessage (now : ℤ) (pseudoShares : List (List Share)) (info : MPCRequestInfo package)
    (partyId : ℕ) : Py PrismMessage := do
  let share ← pseudonymShare pseudoShares partyId
  match info.peerKeys partyId with
  | none => throw .keyError
  | some key =>
    let halfKey ← fromKey package builtins (package.publicKey key)
    return PrismMessage.create now .readDropbox
      [(.pseudonymShare, .int share), (.halfKey, halfKey)]

/-- `read_request`: the request, and what is registered for it. -/
def readRequest (pseudonym requestId : Bytes) (returnLinks : List Value) (expiration : Option ℤ)
    (key : package.PrivateKey) (peerKey : ℕ → package.PrivateKey)
    (draws : RequestDraws package self.secretSharing) :
    Py (PrismMessage × MPCRequestInfo package) := do
  let info ← self.generate requestId key peerKey
  let pseudoShares ← self.secretSharing.shareBytes cbor pseudonym draws.pseudonymCoeffs
  let submessages ← (← self.workerParties).mapM fun partyId => do
    let inner ← readMessage builtins (draws.partyNow partyId) pseudoShares info partyId
    encryptMessage package cbor builtins self.dropbox inner (some partyId) false
      (draws.partyFresh partyId)
  let halfKey ← fromKey package builtins (package.publicKey info.key)
  let request := PrismMessage.create draws.requestNow .readObliviousDropbox
    [(.nonce, .bytes requestId), (.halfKey, halfKey),
      (.submessages, .list (submessages.map PrismMessage.toValue)),
      (.linkAddresses, .list returnLinks),
      (.expiration, expiration.elim .none .int)]
  let encrypted ←
    encryptMessage package cbor builtins self.dropbox request none true draws.requestFresh
  return (encrypted, info)

end MPCDropbox

namespace MPCRequestRegistry

variable {package : CryptoPackage} (cbor : Cbor2) (builtins : Builtins) (now : ℤ)

/-- `register`. -/
def register (self : MPCRequestRegistry package) (info : MPCRequestInfo package) :
    MPCRequestRegistry package :=
  ⟨Function.update self.requests info.requestId (some info)⟩

/-- The shares in one fragment of a reply. -/
def fragmentShares (request : MPCRequestInfo package) (frag : Value) : Py (List Share) :=
  match PrismMessage.ofValue? frag with
  | none => .error .attributeError
  | some frag =>
    match frag.get .partyId with
    | .int (.ofNat partyId) =>
      match request.peerKeys partyId with
      | none => .error .keyError
      | some key => do
        match ← decryptData package frag key none with
        | none => throw .typeError
        | some data => ShamirSS.splitShares cbor data
    | _ => .error .keyError

/-- `reassemble`. -/
def reassemble (self : MPCRequestRegistry package) (message : PrismMessage) :
    Py (Option PrismMessage) :=
  match (message.get .encDropboxResponseId).bytes?.bind self.requests with
  | none => .ok none
  | some request => do
    match ← decrypt package cbor builtins now message request.key none with
    | none => return none
    | some encryptedFragments =>
      match encryptedFragments.get .submessages with
      | .list frags => do
        let decryptedFragments ← frags.mapM (fragmentShares cbor request)
        let data ← request.server.secretSharing.reconstructBytes cbor decryptedFragments 0
        PrismMessage.decode cbor builtins now data
      | _ => throw .typeError

end MPCRequestRegistry

end Prism.Client
