import Mathlib.Data.Int.Notation
import Mathlib.Data.Nat.Notation

/-!
The integer enumerations of `prism/common/message.py`.

Each `MyIntEnum` is an inductive type with its members' integers (`value`) and the
conversion back (`ofValue`), which is what encoding and decoding a message uses.
-/

namespace Prism

/-- The types of a `PrismMessage`. -/
inductive TypeEnum where
  | userMessage | encryptEmixMessage | sendToDropbox | readDropbox | announceRoleKey
  | arkResponse | encryptUserMessage | encryptDropboxMessage | writeDropbox
  | readDropboxRecipients | readSelectedDropboxMessages | dropboxRecipients | sendToEmix
  | encryptDropboxRecipients | mpcRequest | mpcResponse | writeObliviousDropbox
  | readObliviousDropbox | readObliviousDropboxResponse | encryptedReadObliviousDropboxResponse
  | messageFragment | encryptedMessageFragment | encryptPeerMessage | mpcHello | lsp | lspAck
  | lspDatabaseRequest | lspDatabaseResponse | lspHello | lspHelloResponse | mpcAck | arks
  | lspFwd | mpcHelloResponse | nark | clientRegistrationRequest | clientRegistrationResponse
  | encryptRegistrationMessage | linkRequest | floodMsg | epochArk | encryptLinkRequest
  | linkRequestAck | lspFlood | epochArkWrapper | lspFwdAddr | encLspFwdAddr | lspFwdAddrAck
deriving DecidableEq, Repr

/-- The integer of each member. -/
def TypeEnum.value : TypeEnum → ℕ
  | .userMessage => 0 | .encryptEmixMessage => 1 | .sendToDropbox => 2 | .readDropbox => 3
  | .announceRoleKey => 4 | .arkResponse => 5 | .encryptUserMessage => 6
  | .encryptDropboxMessage => 7 | .writeDropbox => 8 | .readDropboxRecipients => 9
  | .readSelectedDropboxMessages => 10 | .dropboxRecipients => 11 | .sendToEmix => 12
  | .encryptDropboxRecipients => 13 | .mpcRequest => 14 | .mpcResponse => 15
  | .writeObliviousDropbox => 16 | .readObliviousDropbox => 17
  | .readObliviousDropboxResponse => 18 | .encryptedReadObliviousDropboxResponse => 19
  | .messageFragment => 20 | .encryptedMessageFragment => 21 | .encryptPeerMessage => 22
  | .mpcHello => 23 | .lsp => 24 | .lspAck => 25 | .lspDatabaseRequest => 26
  | .lspDatabaseResponse => 27 | .lspHello => 28 | .lspHelloResponse => 29 | .mpcAck => 30
  | .arks => 31 | .lspFwd => 32 | .mpcHelloResponse => 33 | .nark => 34
  | .clientRegistrationRequest => 35 | .clientRegistrationResponse => 36
  | .encryptRegistrationMessage => 37 | .linkRequest => 38 | .floodMsg => 39 | .epochArk => 40
  | .encryptLinkRequest => 41 | .linkRequestAck => 42 | .lspFlood => 43 | .epochArkWrapper => 44
  | .lspFwdAddr => 45 | .encLspFwdAddr => 46 | .lspFwdAddrAck => 47

/-- `TypeEnum(value)`: the member with that integer; `none` where Python raises a
`ValueError`. -/
def TypeEnum.ofValue : ℤ → Option TypeEnum
  | 0 => some .userMessage | 1 => some .encryptEmixMessage | 2 => some .sendToDropbox
  | 3 => some .readDropbox | 4 => some .announceRoleKey | 5 => some .arkResponse
  | 6 => some .encryptUserMessage | 7 => some .encryptDropboxMessage | 8 => some .writeDropbox
  | 9 => some .readDropboxRecipients | 10 => some .readSelectedDropboxMessages
  | 11 => some .dropboxRecipients | 12 => some .sendToEmix | 13 => some .encryptDropboxRecipients
  | 14 => some .mpcRequest | 15 => some .mpcResponse | 16 => some .writeObliviousDropbox
  | 17 => some .readObliviousDropbox | 18 => some .readObliviousDropboxResponse
  | 19 => some .encryptedReadObliviousDropboxResponse | 20 => some .messageFragment
  | 21 => some .encryptedMessageFragment | 22 => some .encryptPeerMessage | 23 => some .mpcHello
  | 24 => some .lsp | 25 => some .lspAck | 26 => some .lspDatabaseRequest
  | 27 => some .lspDatabaseResponse | 28 => some .lspHello | 29 => some .lspHelloResponse
  | 30 => some .mpcAck | 31 => some .arks | 32 => some .lspFwd | 33 => some .mpcHelloResponse
  | 34 => some .nark | 35 => some .clientRegistrationRequest
  | 36 => some .clientRegistrationResponse | 37 => some .encryptRegistrationMessage
  | 38 => some .linkRequest | 39 => some .floodMsg | 40 => some .epochArk
  | 41 => some .encryptLinkRequest | 42 => some .linkRequestAck | 43 => some .lspFlood
  | 44 => some .epochArkWrapper | 45 => some .lspFwdAddr | 46 => some .encLspFwdAddr
  | 47 => some .lspFwdAddrAck
  | _ => none

@[simp] theorem TypeEnum.ofValue_value (member : TypeEnum) :
    TypeEnum.ofValue member.value = some member := by
  cases member <;> rfl

/-- The ciphers. -/
inductive CipherEnum where
  | aesGcm
deriving DecidableEq, Repr

/-- The integer of each member. -/
def CipherEnum.value : CipherEnum → ℕ
  | .aesGcm => 0

/-- `CipherEnum(value)`: the member with that integer; `none` where Python raises a
`ValueError`. -/
def CipherEnum.ofValue : ℤ → Option CipherEnum
  | 0 => some .aesGcm
  | _ => none

@[simp] theorem CipherEnum.ofValue_value (member : CipherEnum) :
    CipherEnum.ofValue member.value = some member := by
  cases member
  rfl

/-- The ways to encrypt a message key. -/
inductive MessageKeyEncryptionTypeEnum where
  | ibeScheme
deriving DecidableEq, Repr

/-- The integer of each member. -/
def MessageKeyEncryptionTypeEnum.value : MessageKeyEncryptionTypeEnum → ℕ
  | .ibeScheme => 0

/-- `MessageKeyEncryptionTypeEnum(value)`: the member with that integer; `none` where Python raises a
`ValueError`. -/
def MessageKeyEncryptionTypeEnum.ofValue : ℤ → Option MessageKeyEncryptionTypeEnum
  | 0 => some .ibeScheme
  | _ => none

@[simp] theorem MessageKeyEncryptionTypeEnum.ofValue_value (member : MessageKeyEncryptionTypeEnum) :
    MessageKeyEncryptionTypeEnum.ofValue member.value = some member := by
  cases member
  rfl

/-- The key systems of a half key. -/
inductive HalfKeyTypeEnum where
  | diffieHellman | ecdh
deriving DecidableEq, Repr

/-- The integer of each member. -/
def HalfKeyTypeEnum.value : HalfKeyTypeEnum → ℕ
  | .diffieHellman => 0 | .ecdh => 1

/-- `HalfKeyTypeEnum(value)`: the member with that integer; `none` where Python raises a
`ValueError`. -/
def HalfKeyTypeEnum.ofValue : ℤ → Option HalfKeyTypeEnum
  | 0 => some .diffieHellman | 1 => some .ecdh
  | _ => none

@[simp] theorem HalfKeyTypeEnum.ofValue_value (member : HalfKeyTypeEnum) :
    HalfKeyTypeEnum.ofValue member.value = some member := by
  cases member <;> rfl

/-- The modes of a dropbox. -/
inductive DropboxModeType where
  | singleServer | mpcCommittee
deriving DecidableEq, Repr

/-- The integer of each member. -/
def DropboxModeType.value : DropboxModeType → ℕ
  | .singleServer => 0 | .mpcCommittee => 1

/-- `DropboxModeType(value)`: the member with that integer; `none` where Python raises a
`ValueError`. -/
def DropboxModeType.ofValue : ℤ → Option DropboxModeType
  | 0 => some .singleServer | 1 => some .mpcCommittee
  | _ => none

@[simp] theorem DropboxModeType.ofValue_value (member : DropboxModeType) :
    DropboxModeType.ofValue member.value = some member := by
  cases member <;> rfl

/-- The secret sharing systems. -/
inductive SecretSharingType where
  | shamir | feldman | full
deriving DecidableEq, Repr

/-- The integer of each member. -/
def SecretSharingType.value : SecretSharingType → ℕ
  | .shamir => 0 | .feldman => 1 | .full => 2

/-- `SecretSharingType(value)`: the member with that integer; `none` where Python raises a
`ValueError`. -/
def SecretSharingType.ofValue : ℤ → Option SecretSharingType
  | 0 => some .shamir | 1 => some .feldman | 2 => some .full
  | _ => none

@[simp] theorem SecretSharingType.ofValue_value (member : SecretSharingType) :
    SecretSharingType.ofValue member.value = some member := by
  cases member <;> rfl

/-- The actions of an MPC request or response. -/
inductive ActionEnum where
  | modulus | offlineInit | offlineTripleHandler | offlineRndbitHandler | openHandler
  | shareHandler1 | shareHandler2 | store | update | delete | retrieve | refresh | shuffle
  | clear | recoverInit | recover | recoverHandler | recoverComplete | changeStructureInit
  | changeStructure | changeStructureHandler | changeStructureComplete | size | refreshHandler
  | findHandler | mulHandler | nextBatchTriple | nextBatchRndbit | shareHandler3
  | nextBatchRndnum | mulOfflineTripleHandler | mulOfflineRndbitHandler | retrieveAndDelete
  | retrieveFragmentAndDelete | storeFragment | ready | generateShares | mulmBgwRand
  | mulmBgwOpen | hello
deriving DecidableEq, Repr

/-- The integer of each member. -/
def ActionEnum.value : ActionEnum → ℕ
  | .modulus => 0 | .offlineInit => 1 | .offlineTripleHandler => 2 | .offlineRndbitHandler => 3
  | .openHandler => 4 | .shareHandler1 => 5 | .shareHandler2 => 6 | .store => 7 | .update => 8
  | .delete => 9 | .retrieve => 10 | .refresh => 11 | .shuffle => 12 | .clear => 13
  | .recoverInit => 14 | .recover => 15 | .recoverHandler => 16 | .recoverComplete => 17
  | .changeStructureInit => 18 | .changeStructure => 19 | .changeStructureHandler => 20
  | .changeStructureComplete => 21 | .size => 22 | .refreshHandler => 24 | .findHandler => 25
  | .mulHandler => 26 | .nextBatchTriple => 27 | .nextBatchRndbit => 28 | .shareHandler3 => 29
  | .nextBatchRndnum => 30 | .mulOfflineTripleHandler => 31 | .mulOfflineRndbitHandler => 32
  | .retrieveAndDelete => 33 | .retrieveFragmentAndDelete => 34 | .storeFragment => 35
  | .ready => 36 | .generateShares => 37 | .mulmBgwRand => 38 | .mulmBgwOpen => 39 | .hello => 40

/-- `ActionEnum(value)`: the member with that integer; `none` where Python raises a
`ValueError`. -/
def ActionEnum.ofValue : ℤ → Option ActionEnum
  | 0 => some .modulus | 1 => some .offlineInit | 2 => some .offlineTripleHandler
  | 3 => some .offlineRndbitHandler | 4 => some .openHandler | 5 => some .shareHandler1
  | 6 => some .shareHandler2 | 7 => some .store | 8 => some .update | 9 => some .delete
  | 10 => some .retrieve | 11 => some .refresh | 12 => some .shuffle | 13 => some .clear
  | 14 => some .recoverInit | 15 => some .recover | 16 => some .recoverHandler
  | 17 => some .recoverComplete | 18 => some .changeStructureInit | 19 => some .changeStructure
  | 20 => some .changeStructureHandler | 21 => some .changeStructureComplete | 22 => some .size
  | 24 => some .refreshHandler | 25 => some .findHandler | 26 => some .mulHandler
  | 27 => some .nextBatchTriple | 28 => some .nextBatchRndbit | 29 => some .shareHandler3
  | 30 => some .nextBatchRndnum | 31 => some .mulOfflineTripleHandler
  | 32 => some .mulOfflineRndbitHandler | 33 => some .retrieveAndDelete
  | 34 => some .retrieveFragmentAndDelete | 35 => some .storeFragment | 36 => some .ready
  | 37 => some .generateShares | 38 => some .mulmBgwRand | 39 => some .mulmBgwOpen
  | 40 => some .hello
  | _ => none

@[simp] theorem ActionEnum.ofValue_value (member : ActionEnum) :
    ActionEnum.ofValue member.value = some member := by
  cases member <;> rfl

end Prism
