import Prism.Message.Clone
import Prism.Vrf.Sortition

/-!
Announcements of role keys and their authentication (`prism/common/crypto/verify.py`).

A server signs the digest of its announcement with the key of its certificate, and a
receiver checks the certificate against the root, the signature against the certificate, and
the proof of the claimed committee against the sortition. Certificates and signatures are
those of the `cryptography` package, a parameter (`X509`). Each check is made only where the
announcement carries the field that it is about.

* `verifyArk_iff`: which announcements are accepted.
* `verifyArk_guards`: what acceptance guarantees, and which fields can be left out without
  making an announcement more acceptable.
-/

namespace Prism.Crypto

open Vrf

/-- The `cryptography` package: certificates, keys and signatures. `verify` reports an
`InvalidSignature` as `false`. -/
structure X509 where
  Certificate : Type
  PublicKey : Type
  PrivateKey : Type
  HashAlgorithm : Type
  loadPemX509Certificate : Bytes → Py Certificate
  publicKey : Certificate → PublicKey
  signature : Certificate → Bytes
  tbsCertificateBytes : Certificate → Bytes
  signatureHashAlgorithm : Certificate → HashAlgorithm
  verify : PublicKey → Bytes → Bytes → HashAlgorithm → Py Bool
  sign : PrivateKey → Bytes → HashAlgorithm → Py Bytes
  keyOf : PrivateKey → PublicKey
  verify_sign : ∀ key data algorithm s, sign key data algorithm = .ok s →
    s ≠ [] ∧ verify (keyOf key) s data algorithm = .ok true

/-- The message is an announcement: `msg_type == TypeEnum.ANNOUNCE_ROLE_KEY`. -/
def isArk (ark : PrismMessage) : Bool :=
  match ark.get .msgType with
  | .enum (.type .announceRoleKey) => true
  | _ => false

/-- `v is None`. -/
def isNone : Value → Bool
  | .none => true
  | _ => false

/-- A field as the byte string that a callee asks for. -/
def asBytes (v : Value) : Py Bytes :=
  match v.bytes? with
  | some bs => .ok bs
  | none => .error .typeError

@[simp] theorem asBytes_bytes (bs : Bytes) : asBytes (.bytes bs) = .ok bs := rfl

/-- A field as text. -/
def asStr : Value → Py String
  | .str s => .ok s
  | _ => .error .typeError

/-- A field that is text or absent, as it is compared with a role. -/
def str? : Value → Option String
  | .str s => some s
  | _ => none

section Verify

variable (cbor : Cbor2) (builtins : Builtins) (now : ℤ) (sha : Sha256) (pem : PemFormat)
  (x509 : X509)

/-- `is_valid_server`. -/
def isValidServer (serverCertBytes : Value) (rootCert : Option x509.Certificate) : Py Bool :=
  if !serverCertBytes.truthy then .ok false
  else do
    let serverCert ← x509.loadPemX509Certificate (← asBytes serverCertBytes)
    match rootCert with
    | none => throw .attributeError
    | some rootCert =>
      x509.verify (x509.publicKey rootCert) (x509.signature serverCert)
        (x509.tbsCertificateBytes serverCert) (x509.signatureHashAlgorithm serverCert)

/-- `verify_signed_ARK`: the signature is over the message without it. -/
def verifySignedArk (ark : PrismMessage) : Py Bool :=
  if !(ark.get .certificate).truthy || !(ark.get .signature).truthy then .ok false
  else do
    let cert ← x509.loadPemX509Certificate (← asBytes (ark.get .certificate))
    let unsigned ← ark.clone builtins now [(.signature, .none)]
    let digest ← unsigned.digest cbor builtins now sha.digest
    x509.verify (x509.publicKey cert) (← asBytes (ark.get .signature)) digest
      (x509.signatureHashAlgorithm cert)

/-- The last step of `verify_ARK`: the role that the announcement claims. -/
def verifyRole (cryptographyAvailable : Bool) (ark : PrismMessage)
    (sortition : Option VRFSortition) : Py Bool :=
  match sortition with
  | none => .ok true
  | some sortition =>
    if (ark.get .proof).truthy then do
      sortition.verify sha pem cryptographyAvailable (← asStr (ark.get .proof))
        (str? (ark.get .committee))
    else .ok true

/-- `verify_ARK`. -/
def verifyArk (cryptographyAvailable : Bool) (ark : PrismMessage)
    (sortition : Option VRFSortition) (rootCert : Option x509.Certificate) : Py Bool :=
  if !isArk ark then .ok false
  else if (ark.get .certificate).truthy then
    if !cryptographyAvailable then .ok true
    else do
      if !(← isValidServer x509 (ark.get .certificate) rootCert) then return false
      if !(← verifySignedArk cbor builtins now sha x509 ark) then return false
      verifyRole sha pem cryptographyAvailable ark sortition
  else verifyRole sha pem cryptographyAvailable ark sortition

/-- `sign_ARK`: nothing is done without a key or a certificate. -/
def signArk (ark : PrismMessage) (privateKey : Option x509.PrivateKey) : Py PrismMessage := do
  pyAssert (isArk ark = true ∧ isNone (ark.get .signature) = true)
  match privateKey with
  | none => return ark
  | some key =>
    if !(ark.get .certificate).truthy then return ark
    let certificate ← x509.loadPemX509Certificate (← asBytes (ark.get .certificate))
    let signature ← x509.sign key (← ark.digest cbor builtins now sha.digest)
      (x509.signatureHashAlgorithm certificate)
    ark.clone builtins now [(.signature, .bytes signature)]

end Verify

/-! ### Fields of an announcement -/

section Fields

variable {ark : PrismMessage}

/-- An optional field that is given has its type. -/
theorem isScalar_of_truthy (typed : ark.Typed) {f : FieldName} {scalar : Scalar}
    (declared : ClassName.prismMessage.info f = some ⟨f, .scalar scalar, .absent⟩)
    (given : (ark.get f).truthy = true) : (ark.get f).isScalar scalar = true := by
  rcases PrismMessage.get_scalar typed declared with absent | isScalar
  · rw [absent] at given
    cases given
  · exact isScalar

theorem bytes_of_truthy (typed : ark.Typed) {f : FieldName}
    (declared : ClassName.prismMessage.info f = some ⟨f, .scalar .bytes, .absent⟩)
    (given : (ark.get f).truthy = true) : ∃ bs, ark.get f = .bytes bs ∧ bs ≠ [] := by
  have isScalar := isScalar_of_truthy typed declared given
  cases value : ark.get f with
  | bytes bs =>
      rw [value] at given
      exact ⟨bs, rfl, of_decide_eq_true given⟩
  | _ =>
      rw [value] at isScalar
      cases isScalar

theorem str_of_truthy (typed : ark.Typed) {f : FieldName}
    (declared : ClassName.prismMessage.info f = some ⟨f, .scalar .str, .absent⟩)
    (given : (ark.get f).truthy = true) : ∃ s, ark.get f = .str s := by
  have isScalar := isScalar_of_truthy typed declared given
  cases value : ark.get f with
  | str s => exact ⟨s, rfl⟩
  | _ =>
      rw [value] at isScalar
      cases isScalar

end Fields

/-! ### What is signed -/

section Signed

variable (cbor : Cbor2) (builtins : Builtins) (now : ℤ) (sha : Sha256) (pem : PemFormat)
  (x509 : X509) {ark : PrismMessage}

/-- The message without its signature and its debug information. -/
def bare (ark : PrismMessage) : PrismMessage :=
  (ark.replace [(.signature, .none)]).replace [(.debugInfo, .none)]

/-- The digest of a typed message. -/
theorem digest_eq (typed : ark.Typed) :
    (ark.replace [(.debugInfo, .none)]).Typed ∧ ∃ data,
      (ark.replace [(.debugInfo, .none)]).encode cbor = .ok data ∧
      ark.digest cbor builtins now sha.digest = .ok (sha.digest data) := by
  obtain ⟨cloned, typed'⟩ :=
    PrismMessage.clone_single builtins now typed (@PrismMessage.none_clonable .debugInfo _ rfl)
  obtain ⟨data, encoded, -⟩ := PrismMessage.decode_encode cbor builtins now typed'
  refine ⟨typed', data, encoded, ?_⟩
  rw [PrismMessage.digest, cloned, ok_bind, encoded]
  rfl

/-- What a signature is checked against. -/
theorem bare_eq (typed : ark.Typed) :
    (bare ark).Typed ∧ ∃ data unsigned, (bare ark).encode cbor = .ok data ∧
      ark.clone builtins now [(.signature, .none)] = .ok unsigned ∧
      unsigned.digest cbor builtins now sha.digest = .ok (sha.digest data) := by
  obtain ⟨cloned, typed'⟩ :=
    PrismMessage.clone_single builtins now typed (@PrismMessage.none_clonable .signature _ rfl)
  obtain ⟨typed'', data, encoded, digested⟩ := digest_eq cbor builtins now sha typed'
  exact ⟨typed'', data, _, encoded, cloned, digested⟩

/-- The signature of the announcement verifies over its digest, with the key of its
certificate. -/
def SignatureVerifies (ark : PrismMessage) : Prop :=
  ∃ certificate cert s data, ark.get .certificate = .bytes certificate ∧ certificate ≠ [] ∧
    x509.loadPemX509Certificate certificate = .ok cert ∧
    ark.get .signature = .bytes s ∧ s ≠ [] ∧ (bare ark).encode cbor = .ok data ∧
    x509.verify (x509.publicKey cert) s (sha.digest data) (x509.signatureHashAlgorithm cert) =
      .ok true

/-- **Which signatures are accepted.** -/
theorem verifySignedArk_iff (typed : ark.Typed) :
    verifySignedArk cbor builtins now sha x509 ark = .ok true ↔
      SignatureVerifies cbor sha x509 ark := by
  obtain ⟨-, data, unsigned, encoded, cloned, digested⟩ := bare_eq cbor builtins now sha typed
  rw [verifySignedArk]
  constructor
  · intro accepted
    split_ifs at accepted with lacking
    · cases accepted
    rw [Bool.or_eq_true, not_or] at lacking
    simp only [Bool.not_eq_true', Bool.not_eq_false] at lacking
    obtain ⟨certificate, atCertificate, certificate_ne⟩ :=
      bytes_of_truthy typed (f := .certificate) rfl lacking.1
    obtain ⟨s, atSignature, s_ne⟩ := bytes_of_truthy typed (f := .signature) rfl lacking.2
    simp only [atCertificate, atSignature, asBytes_bytes, ok_bind, cloned, digested] at accepted
    obtain ⟨cert, loaded, accepted⟩ := bind_eq_ok.mp accepted
    exact ⟨certificate, cert, s, data, atCertificate, certificate_ne, loaded, atSignature, s_ne,
      encoded, accepted⟩
  · rintro ⟨certificate, cert, s, data', atCertificate, certificate_ne, loaded, atSignature, s_ne,
      encoded', verified⟩
    obtain rfl : data' = data := Except.ok.inj (encoded'.symm.trans encoded)
    rw [if_neg, atCertificate, atSignature]
    · simp only [asBytes_bytes, ok_bind, loaded, cloned, digested]
      exact verified
    · simp [atCertificate, atSignature, Value.truthy, certificate_ne, s_ne]

/-- The certificate is signed by the root, as `is_valid_server` checks it. -/
def SignedByRoot (ark : PrismMessage) (rootCert : Option x509.Certificate) : Prop :=
  ∃ root certificate cert, rootCert = some root ∧ ark.get .certificate = .bytes certificate ∧
    x509.loadPemX509Certificate certificate = .ok cert ∧
    x509.verify (x509.publicKey root) (x509.signature cert) (x509.tbsCertificateBytes cert)
      (x509.signatureHashAlgorithm cert) = .ok true

theorem isValidServer_iff (typed : ark.Typed) (given : (ark.get .certificate).truthy = true)
    (rootCert : Option x509.Certificate) :
    isValidServer x509 (ark.get .certificate) rootCert = .ok true ↔
      SignedByRoot x509 ark rootCert := by
  obtain ⟨certificate, atCertificate, -⟩ := bytes_of_truthy typed (f := .certificate) rfl given
  rw [isValidServer, given, atCertificate, asBytes_bytes, ok_bind]
  constructor
  · intro valid
    obtain ⟨cert, loaded, valid⟩ := bind_eq_ok.mp valid
    cases rootCert with
    | none => cases valid
    | some root => exact ⟨root, certificate, cert, rfl, atCertificate, loaded, valid⟩
  · rintro ⟨root, certificate', cert, rfl, atCertificate', loaded, verified⟩
    obtain rfl : certificate' = certificate :=
      Value.bytes.inj (atCertificate'.symm.trans atCertificate)
    rw [Bool.not_true, if_neg Bool.false_ne_true, loaded]
    exact verified

/-- The sortition accepts the proof for the claimed committee. -/
def ProofAccepted (cryptographyAvailable : Bool) (ark : PrismMessage) (sortition : VRFSortition) :
    Prop :=
  ∃ serial, ark.get .proof = .str serial ∧
    sortition.verify sha pem cryptographyAvailable serial (str? (ark.get .committee)) = .ok true

theorem verifyRole_iff (typed : ark.Typed) (available : Bool) (sortition : Option VRFSortition) :
    verifyRole sha pem available ark sortition = .ok true ↔
      ∀ s, sortition = some s → (ark.get .proof).truthy = true →
        ProofAccepted sha pem available ark s := by
  cases sortition with
  | none => simp [verifyRole]
  | some sortition =>
      rw [verifyRole]
      by_cases given : (ark.get .proof).truthy = true
      · obtain ⟨serial, atProof⟩ := str_of_truthy typed (f := .proof) rfl given
        have run : (do
            let serial ← asStr (ark.get .proof)
            sortition.verify sha pem available serial (str? (ark.get .committee))) =
              sortition.verify sha pem available serial (str? (ark.get .committee)) := by
          rw [atProof]
          rfl
        rw [if_pos given, run]
        constructor
        · intro accepted s eq _
          cases eq
          exact ⟨serial, atProof, accepted⟩
        · intro accepted
          obtain ⟨serial', atProof', accepted⟩ := accepted sortition rfl given
          obtain rfl : serial' = serial := Value.str.inj (atProof'.symm.trans atProof)
          exact accepted
      · simp [given]

/-- **Which announcements are accepted.** -/
theorem verifyArk_iff (typed : ark.Typed) (available : Bool) (sortition : Option VRFSortition)
    (rootCert : Option x509.Certificate) :
    verifyArk cbor builtins now sha pem x509 available ark sortition rootCert = .ok true ↔
      isArk ark = true ∧
      ((ark.get .certificate).truthy = true → available = true →
        SignedByRoot x509 ark rootCert ∧ SignatureVerifies cbor sha x509 ark) ∧
      ∀ s, sortition = some s → (ark.get .proof).truthy = true →
        ProofAccepted sha pem available ark s := by
  rw [← verifyRole_iff sha pem typed, verifyArk]
  by_cases announced : isArk ark = true
  · rw [announced]
    by_cases given : (ark.get .certificate).truthy = true
    · rw [given]
      cases available with
      | false =>
          have free : verifyRole sha pem false ark sortition = .ok true := by
            rw [verifyRole_iff sha pem typed]
            intro s _ given
            obtain ⟨serial, atProof⟩ := str_of_truthy typed (f := .proof) rfl given
            exact ⟨serial, atProof, rfl⟩
          simp [free]
      | true =>
          rw [← isValidServer_iff x509 typed given,
            ← verifySignedArk_iff cbor builtins now sha x509 typed]
          cases isValidServer x509 (ark.get .certificate) rootCert with
          | error e => simp
          | ok valid =>
              cases verifySignedArk cbor builtins now sha x509 ark with
              | error e => cases valid <;> simp [pure, Except.pure]
              | ok signed => cases valid <;> cases signed <;> simp [pure, Except.pure]
    · simp [given]
  · simp [announced]

/-! ### Leaving a field out -/

/-- What the announcement is without one field. -/
abbrev without (ark : PrismMessage) (f : FieldName) : PrismMessage := ark.replace [(f, .none)]

theorem get_without_self (typed : ark.Typed) {f : FieldName} (declared : f ∈ PrismMessage.names) :
    (without ark f).get f = .none := by
  rw [PrismMessage.get_replace typed _ declared, List.lookup_cons_self]
  rfl

theorem get_without_ne (typed : ark.Typed) {f other : FieldName}
    (declared : other ∈ PrismMessage.names) (ne : other ≠ f) :
    (without ark f).get other = ark.get other := by
  rw [PrismMessage.get_replace typed _ declared, List.lookup_cons, beq_false_of_ne ne]
  rfl

/-- A field that may be absent can be left out. -/
theorem typed_without (typed : ark.Typed) {f : FieldName} {t : FieldType}
    (declared : ClassName.prismMessage.info f = some ⟨f, t, .absent⟩) : (without ark f).Typed :=
  (PrismMessage.clone_single Builtins.strict 0 typed (PrismMessage.none_clonable declared)).2

theorem isArk_congr {ark' : PrismMessage} (same : ark'.get .msgType = ark.get .msgType) :
    isArk ark' = isArk ark := by
  rw [isArk, isArk, same]

theorem get_bare (typed : ark.Typed) {f : FieldName} (declared : f ∈ PrismMessage.names) :
    (bare ark).get f = if f = .signature ∨ f = .debugInfo then .none else ark.get f := by
  have unsigned := typed_without typed (f := .signature) rfl
  by_cases debug : f = .debugInfo
  · subst debug
    exact get_without_self unsigned declared
  · refine (get_without_ne unsigned declared debug).trans ?_
    by_cases signature : f = .signature
    · subst signature
      exact get_without_self typed declared
    · rw [if_neg (not_or.mpr ⟨signature, debug⟩)]
      exact get_without_ne typed declared signature

/-- The signature and the debug information are not signed, and everything else is. -/
theorem bare_eq_iff {ark' : PrismMessage} (typed : ark.Typed) (typed' : ark'.Typed) :
    bare ark = bare ark' ↔
      ∀ f ∈ PrismMessage.names, f ≠ .signature → f ≠ .debugInfo → ark.get f = ark'.get f := by
  constructor
  · intro same f declared signature debug
    have atField := congrArg (fun m => PrismMessage.get m f) same
    simp only [get_bare typed declared, get_bare typed' declared, signature, debug, or_self,
      if_false] at atField
    exact atField
  · intro same
    have bareTyped := typed_without (typed_without typed (f := .signature) rfl) (f := .debugInfo) rfl
    have bareTyped' :=
      typed_without (typed_without typed' (f := .signature) rfl) (f := .debugInfo) rfl
    refine PrismMessage.ext_get bareTyped bareTyped' fun f declared => ?_
    rw [get_bare typed declared, get_bare typed' declared]
    split_ifs with left
    · rfl
    · rw [not_or] at left
      exact same f declared left.1 left.2

theorem bare_without_debugInfo (typed : ark.Typed) : bare (without ark .debugInfo) = bare ark :=
  (bare_eq_iff (typed_without typed (f := .debugInfo) rfl) typed).mpr
    fun _ declared _ debug => get_without_ne typed declared debug

/-- No sortition accepts a proof for no committee. -/
theorem verify_noRole (sortition : VRFSortition) (serial : String) :
    sortition.verify sha pem true serial none ≠ .ok true := by
  intro accepted
  rw [VRFSortition.verify, if_neg (by decide)] at accepted
  obtain ⟨⟨pk, alpha, pi⟩, -, accepted⟩ := bind_eq_ok.mp accepted
  obtain ⟨result, -, accepted⟩ := bind_eq_ok.mp accepted
  obtain ⟨hash, -, accepted⟩ := bind_eq_ok.mp accepted
  obtain ⟨role, -, accepted⟩ := bind_eq_ok.mp accepted
  cases accepted

theorem verifyArk_uncertified (missing : (ark.get .certificate).truthy = false)
    (available : Bool) (sortition : Option VRFSortition) (rootCert : Option x509.Certificate) :
    verifyArk cbor builtins now sha pem x509 available ark sortition rootCert = .ok true ↔
      isArk ark = true ∧ verifyRole sha pem available ark sortition = .ok true := by
  rw [verifyArk, missing]
  cases isArk ark <;> simp

/-- Leaving out the signature does not make an announcement acceptable. -/
theorem accepted_without_signature (typed : ark.Typed) {available : Bool}
    {sortition : Option VRFSortition} {rootCert : Option x509.Certificate}
    (accepted : verifyArk cbor builtins now sha pem x509 available (without ark .signature)
      sortition rootCert = .ok true) :
    verifyArk cbor builtins now sha pem x509 available ark sortition rootCert = .ok true := by
  have typed' := typed_without typed (f := .signature) rfl
  have same : ∀ f ∈ PrismMessage.names, f ≠ .signature →
      (without ark .signature).get f = ark.get f := fun f => get_without_ne typed
  obtain ⟨announced, guarded, proved⟩ :=
    (verifyArk_iff cbor builtins now sha pem x509 typed' _ _ _).mp accepted
  refine (verifyArk_iff cbor builtins now sha pem x509 typed _ _ _).mpr ⟨?_, ?_, ?_⟩
  · rwa [isArk_congr (same .msgType (by decide) (by decide))] at announced
  · intro given isAvailable
    rw [same .certificate (by decide) (by decide)] at guarded
    obtain ⟨-, certificate, cert, s, data, -, -, -, atSignature, -⟩ := guarded given isAvailable
    rw [get_without_self typed (by decide)] at atSignature
    cases atSignature
  · intro s eq given
    rw [same .proof (by decide) (by decide)] at proved
    obtain ⟨serial, atProof, accepted⟩ := proved s eq given
    rw [same .proof (by decide) (by decide)] at atProof
    rw [same .committee (by decide) (by decide)] at accepted
    exact ⟨serial, atProof, accepted⟩

/-- The debug information makes no difference. -/
theorem accepted_without_debugInfo (typed : ark.Typed) (available : Bool)
    (sortition : Option VRFSortition) (rootCert : Option x509.Certificate) :
    verifyArk cbor builtins now sha pem x509 available (without ark .debugInfo) sortition rootCert =
        .ok true ↔
      verifyArk cbor builtins now sha pem x509 available ark sortition rootCert = .ok true := by
  have typed' := typed_without typed (f := .debugInfo) rfl
  have same : ∀ f ∈ PrismMessage.names, f ≠ .debugInfo →
      (without ark .debugInfo).get f = ark.get f := fun f => get_without_ne typed
  rw [verifyArk_iff cbor builtins now sha pem x509 typed',
    verifyArk_iff cbor builtins now sha pem x509 typed, SignedByRoot, SignedByRoot,
    SignatureVerifies, SignatureVerifies, bare_without_debugInfo typed,
    isArk_congr (same .msgType (by decide) (by decide)),
    same .certificate (by decide) (by decide), same .signature (by decide) (by decide)]
  simp only [ProofAccepted, same .proof (by decide) (by decide),
    same .committee (by decide) (by decide)]

/-- An announcement without a certificate becomes acceptable only by leaving out its proof. -/
theorem accepted_without_uncertified (typed : ark.Typed) {f : FieldName}
    (declared : f ∈ PrismMessage.names) (ne : f ≠ .proof)
    (missing : (ark.get .certificate).truthy = false) {available : Bool}
    {sortition : Option VRFSortition} {rootCert : Option x509.Certificate}
    (accepted : verifyArk cbor builtins now sha pem x509 available (without ark f) sortition
      rootCert = .ok true) :
    verifyArk cbor builtins now sha pem x509 available ark sortition rootCert = .ok true := by
  have missing' : ((without ark f).get .certificate).truthy = false := by
    by_cases same : f = .certificate
    · subst same
      rw [get_without_self typed declared]
      rfl
    · rwa [get_without_ne typed (by decide) (Ne.symm same)]
  obtain ⟨announced, proved⟩ :=
    (verifyArk_uncertified cbor builtins now sha pem x509 missing' _ _ _).mp accepted
  refine (verifyArk_uncertified cbor builtins now sha pem x509 missing _ _ _).mpr ⟨?_, ?_⟩
  · by_cases same : f = .msgType
    · subst same
      rw [isArk, get_without_self typed declared] at announced
      cases announced
    · rwa [isArk_congr (get_without_ne typed (by decide) (Ne.symm same))] at announced
  · cases sortition with
    | none => rfl
    | some s =>
        have atProof := @get_without_ne ark typed f .proof (by decide) (Ne.symm ne)
        rw [verifyRole, atProof] at proved
        rw [verifyRole]
        split_ifs at proved ⊢ with given
        · obtain ⟨serial, proof⟩ := str_of_truthy typed (f := .proof) rfl given
          rw [proof] at proved ⊢
          by_cases same : f = .committee
          · subst same
            rw [get_without_self typed declared] at proved
            cases available with
            | false => rfl
            | true => exact absurd proved (verify_noRole sha pem s serial)
          · rwa [get_without_ne typed (by decide) (Ne.symm same)] at proved
        · rfl

/-- **What acceptance guarantees.** Of an announcement that carries a certificate, where the
cryptography package is available, that a root is configured and has signed the certificate and
that the announcement carries a signature that verifies over its digest; of one that carries a
proof, where a sortition is configured, that the sortition accepts the proof for the claimed
committee. Leaving out the signature or the debug information makes no announcement more
acceptable, and of one without a certificate nothing does but leaving out its proof. -/
theorem verifyArk_guards (typed : ark.Typed) (available : Bool) (sortition : Option VRFSortition)
    (rootCert : Option x509.Certificate) :
    let accepted := fun m =>
      verifyArk cbor builtins now sha pem x509 available m sortition rootCert = .ok true
    (accepted ark → (ark.get .certificate).truthy = true → available = true →
      SignedByRoot x509 ark rootCert ∧ SignatureVerifies cbor sha x509 ark) ∧
    (accepted ark → ∀ s, sortition = some s → (ark.get .proof).truthy = true →
      ProofAccepted sha pem available ark s) ∧
    (accepted (without ark .signature) → accepted ark) ∧
    (accepted (without ark .debugInfo) ↔ accepted ark) ∧
    ((ark.get .certificate).truthy = false → ∀ f ∈ PrismMessage.names, f ≠ .proof →
      accepted (without ark f) → accepted ark) := by
  have iff := verifyArk_iff cbor builtins now sha pem x509 typed available sortition rootCert
  refine ⟨fun accepted => (iff.mp accepted).2.1, fun accepted => (iff.mp accepted).2.2,
    accepted_without_signature cbor builtins now sha pem x509 typed,
    accepted_without_debugInfo cbor builtins now sha pem x509 typed _ _ _, ?_⟩
  intro missing f declared ne
  exact accepted_without_uncertified cbor builtins now sha pem x509 typed declared ne missing

end Signed

/-! ### An example -/

/-- Certificates that name the key of their owner and that of their issuer, and signatures that
hold the key and the text. -/
def exampleX509 : X509 where
  Certificate := UInt8 × UInt8
  PublicKey := UInt8
  PrivateKey := UInt8
  HashAlgorithm := Unit
  loadPemX509Certificate bs :=
    match bs with
    | [owner, issuer] => .ok (owner, issuer)
    | _ => .error (.valueError "Unable to load PEM file")
  publicKey certificate := certificate.1
  signature certificate := [certificate.2, certificate.1]
  tbsCertificateBytes certificate := [certificate.1]
  signatureHashAlgorithm _ := ()
  verify key s data _ := .ok (s = key :: data)
  sign key data _ := .ok (key :: data)
  keyOf key := key
  verify_sign := by
    rintro key data algorithm s signed
    cases signed
    simp

/-- An announcement with a certificate that the given key has issued for key 2. -/
def exampleAnnouncement (issuer : UInt8) : PrismMessage :=
  PrismMessage.create 0 .announceRoleKey [(.certificate, .bytes [2, issuer])]

/-- The announcement signed with a key. -/
def exampleSigned (issuer key : UInt8) : PrismMessage :=
  match signArk Cbor.package Builtins.strict 0 exampleSha exampleX509
      (exampleAnnouncement issuer) (some key) with
  | .ok signed => signed
  | .error _ => exampleAnnouncement issuer

/-- The announcement that key 2 has signed is accepted under root 1, and so it is signed. -/
theorem exampleSigned_guards :
    SignedByRoot exampleX509 (exampleSigned 1 2) (some (1, 1)) ∧
      SignatureVerifies Cbor.package exampleSha exampleX509 (exampleSigned 1 2) :=
  (verifyArk_guards Cbor.package Builtins.strict 0 exampleSha examplePem exampleX509
    (by decide +kernel : (exampleSigned 1 2).Typed) true (some exampleSortition) (some (1, 1))).1
    (by decide +kernel) (by decide +kernel) rfl

/-- **An announcement without certificate and proof is accepted**, though a root and a sortition
are configured, and is more acceptable than the same with a certificate of some other issuer. -/
theorem unauthenticated_accepted :
    let accepted := fun m => verifyArk Cbor.package Builtins.strict 0 exampleSha examplePem
      exampleX509 true m (some exampleSortition) (some (1, 1))
    accepted (PrismMessage.create 0 .announceRoleKey []) = .ok true ∧
      accepted (exampleSigned 9 2) = .ok false ∧
      accepted (without (exampleSigned 9 2) .certificate) = .ok true := by
  decide +kernel

end Prism.Crypto
