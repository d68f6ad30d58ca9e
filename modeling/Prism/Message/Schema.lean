import Prism.Message.Enums
import Prism.Python

/-!
The message format of `prism/common/message.py` as data.

Every message type there is a dataclass derived from `CBORFactory`, and the generic
methods of `CBORFactory` walk over its fields. `ClassName.schema` is the table of those
fields: for each class its fields in order, with the declared type and the default. The
position of a field in its class is its key in an encoded message.

`Value` is what a field can hold, as a Python value; `Value.hasType` says that it is a
value of the declared type, or absent where the field may be absent.
-/

namespace Prism

/-- The message classes. -/
inductive ClassName where
  | halfKeyMap | debugMap | listenerMap | serverMap | recipientInfoMap | messageInfoMap
  | secretSharingMap | share | preproductInfo | mpcMap | neighborInfoMap | linkAddress
  | prismMessage
deriving DecidableEq, Repr

/-- The names of the fields of all message classes. -/
inductive FieldName where
  | version | msgType | messagetext | cipher | ciphertext | halfKey | subMsg | name | pseudonym
  | whiteboardId | opaqueRecipient | signature | dropboxIndex | msgKeyEncryptionType
  | encryptedMsgKey | hopCount | certificate | nonce | csOutput | role | committee | expiration
  | originationTimestamp | keyshare | debugInfo | servers | pad | minimumTransitTime
  | maximumTransitTime | sequenceNumber | maxRows | recipients | selectedMessages | dropboxMode
  | requestedMessages | mpcMap | helloList | transportSeqNo | transportSrcAddr
  | encDropboxResponseId | secretSharing | workerKeys | submessages | pseudonymShare
  | fromNeighbor | toNeighbor | originator | sender | ttl | microTimestamp | neighbors | done
  | linkAddresses | partyId | destPartyId | deadServers | epoch | proof | broadcastAddresses
  | lsDbSize | lsAcks | transportTimestamp | degraded
  | keyType | dhPValue | dhGValue | dhQValue | dhYValue | ecdhPublicBytes
  | traceInfo | decryptionKey | nextHopName | tag
  | ipAddress | port | listeningOn | message
  | sharingType | parties | threshold | modulus | p | g
  | share | x | coeffcommits | originalcommit
  | batches | starts | sizes
  | action | requestId | origin | offlineParams | sharePseudonym | encFragment | size
  | operationId | syn | ack | opSuccess | value | valueId | participants | targetFragments
  | shares | preproductInfo
  | cost | channelId | linkAddress
deriving DecidableEq, Repr

/-- The enumerations that are field types. -/
inductive EnumKind where
  | type | cipher | messageKeyEncryptionType | halfKeyType | dropboxMode | secretSharing | action
deriving DecidableEq, Repr

/-- A member of one of the enumerations. -/
inductive EnumValue where
  | type (e : TypeEnum)
  | cipher (e : CipherEnum)
  | messageKeyEncryptionType (e : MessageKeyEncryptionTypeEnum)
  | halfKeyType (e : HalfKeyTypeEnum)
  | dropboxMode (e : DropboxModeType)
  | secretSharing (e : SecretSharingType)
  | action (e : ActionEnum)
deriving DecidableEq, Repr

namespace EnumValue

def kind : EnumValue → EnumKind
  | type _ => .type
  | cipher _ => .cipher
  | messageKeyEncryptionType _ => .messageKeyEncryptionType
  | halfKeyType _ => .halfKeyType
  | dropboxMode _ => .dropboxMode
  | secretSharing _ => .secretSharing
  | action _ => .action

/-- The integer of the member. -/
def value : EnumValue → ℕ
  | type e => e.value
  | cipher e => e.value
  | messageKeyEncryptionType e => e.value
  | halfKeyType e => e.value
  | dropboxMode e => e.value
  | secretSharing e => e.value
  | action e => e.value

end EnumValue

/-- The member of an enumeration with the given integer. -/
def EnumKind.ofValue : EnumKind → ℤ → Option EnumValue
  | type, n => (TypeEnum.ofValue n).map .type
  | cipher, n => (CipherEnum.ofValue n).map .cipher
  | messageKeyEncryptionType, n =>
      (MessageKeyEncryptionTypeEnum.ofValue n).map .messageKeyEncryptionType
  | halfKeyType, n => (HalfKeyTypeEnum.ofValue n).map .halfKeyType
  | dropboxMode, n => (DropboxModeType.ofValue n).map .dropboxMode
  | secretSharing, n => (SecretSharingType.ofValue n).map .secretSharing
  | action, n => (ActionEnum.ofValue n).map .action

/-- A member is found again by its integer. -/
@[simp] theorem EnumKind.ofValue_value (e : EnumValue) : e.kind.ofValue e.value = some e := by
  cases e <;> simp [EnumKind.ofValue, EnumValue.kind, EnumValue.value]

/-- The builtin field types. -/
inductive Scalar where
  | int | float | str | bytes | bool
deriving DecidableEq, Repr

/-- The declared type of the elements of a list. A `generic` element is a `CBORFactory`
whose class the metadata of the field names. -/
inductive ElementType where
  | scalar (s : Scalar)
  | pair (first second : Scalar)
  | object (c : ClassName)
  | generic (c : ClassName)
deriving DecidableEq, Repr

/-- The declared type of a field. The class that the metadata of a `generic` field names
is `none` where no such class is defined. -/
inductive FieldType where
  | scalar (s : Scalar)
  | enum (e : EnumKind)
  | object (c : ClassName)
  | generic (c : Option ClassName)
  | list (t : ElementType)
deriving DecidableEq, Repr

/-- What a field is initialised with when no value is given. A `fixed` field is not a
parameter of `__init__`, and `now` is the time of construction in seconds. -/
inductive FieldDefault where
  | required | absent | now | fixed (n : ℤ)
deriving DecidableEq, Repr

/-- A field of a dataclass. -/
structure FieldInfo where
  name : FieldName
  type : FieldType
  default : FieldDefault := .absent
deriving DecidableEq, Repr

/-- The fields of each class, in order. -/
def ClassName.schema : ClassName → List FieldInfo
  | halfKeyMap => [
      ⟨.keyType, .enum .halfKeyType, .required⟩,
      ⟨.dhPValue, .scalar .int, .absent⟩,
      ⟨.dhGValue, .scalar .int, .absent⟩,
      ⟨.dhQValue, .scalar .int, .absent⟩,
      ⟨.dhYValue, .scalar .int, .absent⟩,
      ⟨.ecdhPublicBytes, .scalar .bytes, .absent⟩]
  | debugMap => [
      ⟨.traceInfo, .list (.scalar .str), .absent⟩,
      ⟨.decryptionKey, .scalar .bytes, .absent⟩,
      ⟨.nextHopName, .scalar .str, .absent⟩,
      ⟨.tag, .scalar .str, .absent⟩]
  | listenerMap => [
      ⟨.ipAddress, .scalar .bytes, .required⟩,
      ⟨.port, .scalar .int, .required⟩]
  | serverMap => [⟨.listeningOn, .list (.object .listenerMap), .required⟩]
  | recipientInfoMap => [
      ⟨.sequenceNumber, .scalar .int, .required⟩,
      ⟨.opaqueRecipient, .scalar .bytes, .required⟩,
      ⟨.nonce, .scalar .bytes, .absent⟩]
  | messageInfoMap => [
      ⟨.sequenceNumber, .scalar .int, .required⟩,
      ⟨.message, .scalar .bytes, .required⟩]
  | secretSharingMap => [
      ⟨.sharingType, .enum .secretSharing, .required⟩,
      ⟨.parties, .scalar .int, .required⟩,
      ⟨.threshold, .scalar .int, .required⟩,
      ⟨.modulus, .scalar .int, .required⟩,
      ⟨.p, .scalar .int, .absent⟩,
      ⟨.g, .scalar .int, .absent⟩]
  | share => [
      ⟨.share, .scalar .int, .required⟩,
      ⟨.x, .scalar .int, .required⟩,
      ⟨.coeffcommits, .list (.scalar .int), .absent⟩,
      ⟨.originalcommit, .scalar .int, .absent⟩]
  | preproductInfo => [
      ⟨.batches, .list (.scalar .bytes), .required⟩,
      ⟨.starts, .list (.scalar .int), .required⟩,
      ⟨.sizes, .list (.scalar .int), .required⟩]
  | mpcMap => [
      ⟨.action, .enum .action, .absent⟩,
      ⟨.requestId, .scalar .bytes, .absent⟩,
      ⟨.origin, .scalar .str, .absent⟩,
      ⟨.offlineParams, .list (.scalar .float), .absent⟩,
      ⟨.sharePseudonym, .object .share, .absent⟩,
      ⟨.encFragment, .scalar .bytes, .absent⟩,
      ⟨.size, .scalar .int, .absent⟩,
      ⟨.operationId, .scalar .bytes, .absent⟩,
      ⟨.syn, .scalar .int, .absent⟩,
      ⟨.ack, .scalar .int, .absent⟩,
      ⟨.opSuccess, .scalar .bool, .absent⟩,
      ⟨.value, .scalar .bytes, .absent⟩,
      ⟨.valueId, .scalar .bytes, .absent⟩,
      ⟨.participants, .list (.scalar .int), .absent⟩,
      ⟨.targetFragments, .list (.scalar .bytes), .absent⟩,
      ⟨.shares, .list (.object .share), .absent⟩,
      ⟨.preproductInfo, .object .preproductInfo, .absent⟩]
  | neighborInfoMap => [
      ⟨.pseudonym, .scalar .bytes, .required⟩,
      ⟨.cost, .scalar .int, .required⟩]
  | linkAddress => [
      ⟨.channelId, .scalar .str, .required⟩,
      ⟨.linkAddress, .scalar .str, .required⟩]
  | prismMessage => [
      ⟨.version, .scalar .int, .fixed 0⟩,
      ⟨.msgType, .enum .type, .required⟩,
      ⟨.messagetext, .scalar .str, .absent⟩,
      ⟨.cipher, .enum .cipher, .absent⟩,
      ⟨.ciphertext, .scalar .bytes, .absent⟩,
      ⟨.halfKey, .object .halfKeyMap, .absent⟩,
      ⟨.subMsg, .generic (some .prismMessage), .absent⟩,
      ⟨.name, .scalar .str, .absent⟩,
      ⟨.pseudonym, .scalar .bytes, .absent⟩,
      ⟨.whiteboardId, .scalar .str, .absent⟩,
      ⟨.opaqueRecipient, .scalar .bytes, .absent⟩,
      ⟨.signature, .scalar .bytes, .absent⟩,
      ⟨.dropboxIndex, .scalar .int, .absent⟩,
      ⟨.msgKeyEncryptionType, .enum .messageKeyEncryptionType, .absent⟩,
      ⟨.encryptedMsgKey, .scalar .bytes, .absent⟩,
      ⟨.hopCount, .scalar .int, .absent⟩,
      ⟨.certificate, .scalar .bytes, .absent⟩,
      ⟨.nonce, .scalar .bytes, .absent⟩,
      ⟨.csOutput, .scalar .bytes, .absent⟩,
      ⟨.role, .scalar .str, .absent⟩,
      ⟨.committee, .scalar .str, .absent⟩,
      ⟨.expiration, .scalar .int, .absent⟩,
      ⟨.originationTimestamp, .scalar .int, .now⟩,
      ⟨.keyshare, .generic none, .absent⟩,
      ⟨.debugInfo, .object .debugMap, .absent⟩,
      ⟨.servers, .list (.object .serverMap), .absent⟩,
      ⟨.pad, .scalar .bytes, .absent⟩,
      ⟨.minimumTransitTime, .scalar .int, .absent⟩,
      ⟨.maximumTransitTime, .scalar .int, .absent⟩,
      ⟨.sequenceNumber, .scalar .int, .absent⟩,
      ⟨.maxRows, .scalar .int, .absent⟩,
      ⟨.recipients, .list (.object .recipientInfoMap), .absent⟩,
      ⟨.selectedMessages, .list (.scalar .int), .absent⟩,
      ⟨.dropboxMode, .enum .dropboxMode, .absent⟩,
      ⟨.requestedMessages, .list (.object .messageInfoMap), .absent⟩,
      ⟨.mpcMap, .object .mpcMap, .absent⟩,
      ⟨.helloList, .list (.pair .int .str), .absent⟩,
      ⟨.transportSeqNo, .scalar .int, .absent⟩,
      ⟨.transportSrcAddr, .scalar .str, .absent⟩,
      ⟨.encDropboxResponseId, .scalar .bytes, .absent⟩,
      ⟨.secretSharing, .object .secretSharingMap, .absent⟩,
      ⟨.workerKeys, .list (.object .halfKeyMap), .absent⟩,
      ⟨.submessages, .list (.generic .prismMessage), .absent⟩,
      ⟨.pseudonymShare, .scalar .int, .absent⟩,
      ⟨.fromNeighbor, .scalar .bytes, .absent⟩,
      ⟨.toNeighbor, .scalar .bytes, .absent⟩,
      ⟨.originator, .scalar .bytes, .absent⟩,
      ⟨.sender, .scalar .bytes, .absent⟩,
      ⟨.ttl, .scalar .int, .absent⟩,
      ⟨.microTimestamp, .scalar .int, .absent⟩,
      ⟨.neighbors, .list (.object .neighborInfoMap), .absent⟩,
      ⟨.done, .scalar .int, .absent⟩,
      ⟨.linkAddresses, .list (.object .linkAddress), .absent⟩,
      ⟨.partyId, .scalar .int, .absent⟩,
      ⟨.destPartyId, .scalar .int, .absent⟩,
      ⟨.deadServers, .list (.scalar .bytes), .absent⟩,
      ⟨.epoch, .scalar .str, .absent⟩,
      ⟨.proof, .scalar .str, .absent⟩,
      ⟨.broadcastAddresses, .list (.object .linkAddress), .absent⟩,
      ⟨.lsDbSize, .scalar .int, .absent⟩,
      ⟨.lsAcks, .list (.scalar .int), .absent⟩,
      ⟨.transportTimestamp, .scalar .int, .absent⟩,
      ⟨.degraded, .scalar .bool, .absent⟩]

/-! ### Values -/

/-- A Python value. The keys of a dictionary that are not integers are left out: no key is
ever looked up but the position of a field. A float is its 64 bits. -/
inductive Value where
  | none
  | bool (b : Bool)
  | int (n : ℤ)
  | float (bits : UInt64)
  | str (s : String)
  | bytes (bs : Bytes)
  | enum (e : EnumValue)
  | list (xs : List Value)
  | tuple (xs : List Value)
  | dict (entries : List (ℤ × Value))
  | object (c : ClassName) (fields : List Value)

namespace Value

/-- The value is of the builtin type. -/
def isScalar : Scalar → Value → Bool
  | .int, int _ => true
  | .float, float _ => true
  | .str, str _ => true
  | .bytes, bytes _ => true
  | .bool, bool _ => true
  | _, _ => false

/-- `bool(v)`. -/
def truthy : Value → Bool
  | none => false
  | bool b => b
  | int n => n ≠ 0
  | float bits => bits.toNat % 2 ^ 63 ≠ 0
  | str s => s ≠ ""
  | bytes bs => bs ≠ []
  | enum e => e.value ≠ 0
  | list xs => !xs.isEmpty
  | tuple xs => !xs.isEmpty
  | dict entries => !entries.isEmpty
  | object _ _ => true

/-- The value as a byte string. -/
def bytes? : Value → Option Bytes
  | bytes bs => some bs
  | _ => Option.none

/-- The value as an integer. -/
def int? : Value → Option ℤ
  | int n => some n
  | _ => Option.none

/-- The value as a list. -/
def list? : Value → Option (List Value)
  | list xs => some xs
  | _ => Option.none

/-- The value has no values inside. -/
def isAtom : Value → Bool
  | list _ | tuple _ | dict _ | object _ _ => false
  | _ => true

/-- The integer that a double is equal to. -/
def doubleInt? (bits : UInt64) : Option ℤ :=
  let exponent := bits.toNat / 2 ^ 52 % 2048
  let fraction := bits.toNat % 2 ^ 52
  let mantissa := if exponent = 0 then fraction else fraction + 2 ^ 52
  let magnitude : Option ℕ :=
    if exponent = 2047 then Option.none
    else if 1075 ≤ exponent then some (mantissa * 2 ^ (exponent - 1075))
    else if mantissa % 2 ^ (1075 - max exponent 1) = 0 then
      some (mantissa / 2 ^ (1075 - max exponent 1))
    else Option.none
  magnitude.map fun n => if bits.toNat < 2 ^ 63 then (n : ℤ) else -n

/-- The integer that a Python number is equal to. -/
def number? : Value → Option ℤ
  | bool b => some b.toNat
  | int n => some n
  | float bits => doubleInt? bits
  | enum e => some e.value
  | _ => Option.none

/-- A field that is not a parameter of `__init__` holds the value it is initialised with. -/
def admittedBy : FieldDefault → Value → Bool
  | .fixed n, int m => n = m
  | .fixed _, _ => false
  | _, _ => true

/-- An element of a list of pairs has the declared types. -/
def isPair (first second : Scalar) : Value → Bool
  | tuple [a, b] => a.isScalar first && b.isScalar second
  | _ => false

mutual

/-- The value is of the declared type of a field. -/
def hasType : Value → FieldType → Bool
  | enum e, .enum k => e.kind = k
  | object c fields, .object c' => c = c' && hasFields fields c.schema
  | object c fields, .generic c' => some c = c' && hasFields fields c.schema
  | list xs, .list t => hasElements xs t
  | v, .scalar s => v.isScalar s
  | _, _ => false

/-- The elements are of the declared type. A list of messages or scalars can have gaps. -/
def hasElements : List Value → ElementType → Bool
  | [], _ => true
  | none :: xs, .object c => hasElements xs (.object c)
  | none :: xs, .generic c => hasElements xs (.generic c)
  | none :: xs, .scalar s => hasElements xs (.scalar s)
  | object c fields :: xs, .object c' =>
      c = c' && hasFields fields c.schema && hasElements xs (.object c')
  | object c fields :: xs, .generic c' =>
      c = c' && hasFields fields c.schema && hasElements xs (.generic c')
  | v :: xs, .scalar s => v.isScalar s && hasElements xs (.scalar s)
  | v :: xs, .pair s s' => v.isPair s s' && hasElements xs (.pair s s')
  | _, _ => false

/-- The values are those of the fields of one class: each is of its declared type, or
absent where that is the default. -/
def hasFields : List Value → List FieldInfo → Bool
  | [], [] => true
  | none :: vs, field :: rest => field.default = .absent && hasFields vs rest
  | v :: vs, field :: rest =>
      v.hasType field.type && v.admittedBy field.default && hasFields vs rest
  | _, _ => false

end

end Value

end Prism
