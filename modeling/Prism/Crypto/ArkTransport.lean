import Prism.Crypto.Verify

/-!
The signature of an announcement on its way (`sign_ARK` and `verify_signed_ARK` in
`prism/common/crypto/verify.py`, `PrismMessage.digest` in `prism/common/message.py`).

A signed announcement is encoded and decoded, passed along with other debug information, and
put inside other messages, which are encoded, decoded and passed along themselves
(`Transported`). The signer takes the digest of the announcement before it has a signature, a
verifier that of what arrived, with the signature and the debug information taken out.

* `Transported.keeps`: nothing changes on the way but the debug information.
* `signature_survives`: what arrives is accepted, and it is rejected with any other field changed.
-/

namespace Prism.Crypto

open Vrf

/-- What becomes of a message by encoding and decoding it, by changing its debug information,
and inside other messages, as their `sub_msg` or one of their `submessages`. -/
inductive Transported (cbor : Cbor2) (builtins : Builtins) : PrismMessage → PrismMessage → Prop
  | refl (m : PrismMessage) : Transported cbor builtins m m
  | wire {m m' m'' : PrismMessage} {data : Bytes} (now : ℤ)
      (before : Transported cbor builtins m m') (encoded : m'.encode cbor = .ok data)
      (decoded : PrismMessage.decode cbor builtins now data = .ok (some m'')) :
      Transported cbor builtins m m''
  | debug {m m' m'' : PrismMessage} {info : Value} (now : ℤ)
      (before : Transported cbor builtins m m')
      (typed : info = .none ∨ info.hasType (.object .debugMap) = true)
      (cloned : m'.clone builtins now [(.debugInfo, info)] = .ok m'') :
      Transported cbor builtins m m''
  | subMsg {m m' m'' outer outer' : PrismMessage} (before : Transported cbor builtins m m')
      (typed : outer.Typed) (inside : outer.get .subMsg = m'.toValue)
      (carried : Transported cbor builtins outer outer')
      (inside' : outer'.get .subMsg = m''.toValue) : Transported cbor builtins m m''
  | submessages {m m' m'' outer outer' : PrismMessage} {xs ys : List Value} {i : ℕ}
      (before : Transported cbor builtins m m') (typed : outer.Typed)
      (inside : outer.get .submessages = .list xs) (at_i : xs[i]? = some m'.toValue)
      (carried : Transported cbor builtins outer outer')
      (inside' : outer'.get .submessages = .list ys) (at_i' : ys[i]? = some m''.toValue) :
      Transported cbor builtins m m''

section Transport

variable {cbor : Cbor2} {builtins : Builtins}

theorem toValue_injective {m m' : PrismMessage} (same : m.toValue = m'.toValue) : m = m' := by
  cases m
  cases m'
  exact congrArg PrismMessage.mk (Value.object.inj same).2

/-- **On its way a message keeps everything but its debug information.** -/
theorem Transported.keeps {m m' : PrismMessage} (carried : Transported cbor builtins m m')
    (typed : m.Typed) : m'.Typed ∧
      ∀ f ∈ PrismMessage.names, f ≠ .debugInfo → m'.get f = m.get f := by
  induction carried with
  | refl m => exact ⟨typed, fun _ _ _ => rfl⟩
  | @wire m m' m'' data now before encoded decoded ih =>
      obtain ⟨typed', same⟩ := ih typed
      obtain ⟨data', encoded', -, decoded'⟩ :=
        PrismMessage.decode_encode cbor builtins now typed'
      rw [encoded] at encoded'
      cases encoded'
      rw [decoded] at decoded'
      cases decoded'
      exact ⟨typed', same⟩
  | @debug m m' m'' info now before infoTyped cloned ih =>
      obtain ⟨typed', same⟩ := ih typed
      have fits : Value.Assignable .prismMessage (.debugInfo, info) ∧
          Value.Clonable .prismMessage (.debugInfo, info) := by
        rcases infoTyped with rfl | infoTyped
        · exact PrismMessage.none_clonable rfl
        · refine PrismMessage.value_clonable (f := .debugInfo) rfl infoTyped ?_
          cases info with
          | list xs => cases infoTyped
          | _ => rfl
      obtain ⟨run, replacedTyped⟩ := PrismMessage.clone_single builtins now typed' fits
      rw [cloned] at run
      cases run
      refine ⟨replacedTyped, fun f declared debug => ?_⟩
      rw [PrismMessage.get_replace typed' _ declared, List.lookup_cons, beq_false_of_ne debug]
      exact same f declared debug
  | subMsg before outerTyped inside carried inside' ih ihOuter =>
      have kept := (ihOuter outerTyped).2 .subMsg (by decide) (by decide)
      rw [inside, inside'] at kept
      rw [toValue_injective kept]
      exact ih typed
  | submessages before outerTyped inside at_i carried inside' at_i' ih ihOuter =>
      have kept := (ihOuter outerTyped).2 .submessages (by decide) (by decide)
      rw [inside, inside'] at kept
      cases kept
      rw [at_i] at at_i'
      rw [← toValue_injective (Option.some.inj at_i')]
      exact ih typed

end Transport

/-! ### Signatures -/

section Signature

variable (cbor : Cbor2) (builtins : Builtins) (now : ℤ) (sha : Sha256) (x509 : X509)
  {ark signed : PrismMessage} {key : x509.PrivateKey}

/-- Only signatures made with the private key of a public key verify with it, another private
key has another public key, and a signature is that of one text. -/
structure X509.Unforgeable (x509 : X509) : Prop where
  forged : ∀ pk s data algorithm, x509.verify pk s data algorithm = .ok true →
    ∃ key, x509.keyOf key = pk ∧ x509.sign key data algorithm = .ok s
  keyOf_injective : Function.Injective x509.keyOf
  sign_injective : ∀ key key' data data' algorithm algorithm' s,
    x509.sign key data algorithm = .ok s → x509.sign key' data' algorithm' = .ok s → data = data'

/-- What `sign_ARK` made: the digest that it signed is the one that is verified. -/
structure SignedWith (key : x509.PrivateKey) (signed : PrismMessage) (certificate : Bytes)
    (cert : x509.Certificate) (s data : Bytes) : Prop where
  typed : signed.Typed
  certificate_eq : signed.get .certificate = .bytes certificate
  certificate_ne : certificate ≠ []
  loaded : x509.loadPemX509Certificate certificate = .ok cert
  signature_eq : signed.get .signature = .bytes s
  encoded : (bare signed).encode cbor = .ok data
  signature_run : x509.sign key (sha.digest data) (x509.signatureHashAlgorithm cert) = .ok s

theorem signArk_signed (typed : ark.Typed) (given : (ark.get .certificate).truthy = true)
    (run : signArk cbor builtins now sha x509 ark (some key) = .ok signed) :
    ∃ certificate cert s data, ark.get .certificate = .bytes certificate ∧
      SignedWith cbor sha x509 key signed certificate cert s data := by
  obtain ⟨certificate, atCertificate, certificate_ne⟩ :=
    bytes_of_truthy typed (f := .certificate) rfl given
  obtain ⟨-, data, encoded, digested⟩ := digest_eq cbor builtins now sha typed
  obtain ⟨_, asserted, run⟩ := bind_eq_ok.mp run
  have unsigned : ark.get .signature = .none := by
    by_contra signature
    rw [pyAssert_of_false] at asserted
    · cases asserted
    · rintro ⟨-, none⟩
      cases value : ark.get .signature with
      | none => exact signature value
      | _ =>
          rw [value] at none
          cases none
  simp only [given, Bool.not_true, Bool.false_eq_true, if_false] at run
  simp only [atCertificate, asBytes_bytes, ok_bind, digested] at run
  obtain ⟨cert, loaded, run⟩ := bind_eq_ok.mp run
  obtain ⟨s, signature_run, run⟩ := bind_eq_ok.mp run
  obtain ⟨cloned, signedTyped⟩ := PrismMessage.clone_single builtins now typed
    (@PrismMessage.value_clonable .signature _ (.bytes s) rfl rfl rfl)
  rw [cloned] at run
  cases run
  have same : ∀ f ∈ PrismMessage.names, f ≠ .signature →
      (ark.replace [(.signature, .bytes s)]).get f = ark.get f := by
    intro f declared ne
    rw [PrismMessage.get_replace typed _ declared, List.lookup_cons, beq_false_of_ne ne]
    rfl
  have bare_signed : bare (ark.replace [(.signature, .bytes s)]) = without ark .debugInfo := by
    have debugTyped := typed_without typed (f := .debugInfo) rfl
    have unsignedTyped := typed_without signedTyped (f := .signature) rfl
    refine PrismMessage.ext_get (typed_without unsignedTyped rfl) debugTyped fun f declared => ?_
    rw [get_bare signedTyped declared]
    split_ifs with left
    · rcases left with rfl | rfl
      · rw [get_without_ne typed declared (by decide), unsigned]
      · rw [get_without_self typed declared]
    · rw [not_or] at left
      rw [get_without_ne typed declared left.2, same f declared left.1]
  refine ⟨certificate, cert, s, data, atCertificate, signedTyped, ?_, certificate_ne, loaded, ?_,
    ?_, signature_run⟩
  · rw [same .certificate (by decide) (by decide), atCertificate]
  · rw [PrismMessage.get_replace typed _ (by decide), List.lookup_cons_self]
    rfl
  · rw [bare_signed]
    exact encoded

variable {cbor} {sha} {x509}

/-- What differs from a signed announcement in its debug information only is accepted. -/
theorem SignedWith.accepted {certificate s data : Bytes} {cert : x509.Certificate}
    (h : SignedWith cbor sha x509 key signed certificate cert s data)
    (matching : x509.keyOf key = x509.publicKey cert) {m : PrismMessage} (typed : m.Typed)
    (same : ∀ f ∈ PrismMessage.names, f ≠ .debugInfo → m.get f = signed.get f) :
    verifySignedArk cbor builtins now sha x509 m = .ok true := by
  rw [verifySignedArk_iff cbor builtins now sha x509 typed]
  obtain ⟨s_ne, verified⟩ := x509.verify_sign _ _ _ _ h.signature_run
  have bare_same : bare m = bare signed := (bare_eq_iff typed h.typed).mpr
    fun f declared _ debug => same f declared debug
  refine ⟨certificate, cert, s, data, ?_, h.certificate_ne, h.loaded, ?_, s_ne, ?_, ?_⟩
  · rw [same .certificate (by decide) (by decide), h.certificate_eq]
  · rw [same .signature (by decide) (by decide), h.signature_eq]
  · rw [bare_same, h.encoded]
  · rw [← matching]
    exact verified

/-- What is accepted with the signature of an announcement, or with what was signed of it, is
that announcement. -/
theorem SignedWith.unchanged (unforgeable : x509.Unforgeable) {certificate s data : Bytes}
    {cert : x509.Certificate} (h : SignedWith cbor sha x509 key signed certificate cert s data)
    (matching : x509.keyOf key = x509.publicKey cert) {m : PrismMessage} (typed : m.Typed)
    (partly : m.get .signature = signed.get .signature ∨
      ∀ f ∈ PrismMessage.names, f ≠ .signature → f ≠ .debugInfo → m.get f = signed.get f)
    (collisionFree : ∀ data', (bare m).encode cbor = .ok data' →
      sha.digest data' = sha.digest data → data' = data)
    (accepted : verifySignedArk cbor builtins now sha x509 m = .ok true) :
    ∀ f ∈ PrismMessage.names, f ≠ .debugInfo → m.get f = signed.get f := by
  obtain ⟨certificate', cert', s', data', atCertificate, -, loaded, atSignature, -, encoded,
    verified⟩ := (verifySignedArk_iff cbor builtins now sha x509 typed).mp accepted
  obtain ⟨key', key'_eq, signature_run⟩ := unforgeable.forged _ _ _ _ verified
  have bareTyped : ∀ {m : PrismMessage}, m.Typed → (bare m).Typed := fun typed =>
    typed_without (typed_without typed (f := .signature) rfl) (f := .debugInfo) rfl
  rcases partly with signature | rest
  · -- one signature is of one text, and one text is the encoding of one message
    obtain rfl : s' = s := by
      rw [atSignature, h.signature_eq] at signature
      exact Value.bytes.inj signature
    have digests := unforgeable.sign_injective _ _ _ _ _ _ _ signature_run h.signature_run
    obtain rfl := collisionFree data' encoded digests
    have bare_same : bare m = bare signed := by
      obtain ⟨_, encoded₁, -, decoded₁⟩ :=
        PrismMessage.decode_encode cbor builtins now (bareTyped typed)
      obtain ⟨_, encoded₂, -, decoded₂⟩ :=
        PrismMessage.decode_encode cbor builtins now (bareTyped h.typed)
      rw [encoded] at encoded₁
      rw [h.encoded] at encoded₂
      cases encoded₁
      cases encoded₂
      exact Option.some.inj (Except.ok.inj (decoded₁.symm.trans decoded₂))
    intro f declared debug
    by_cases same : f = .signature
    · rw [same, atSignature, h.signature_eq]
    · exact (bare_eq_iff typed h.typed).mp bare_same f declared same debug
  · -- the certificate is the same, and its key makes one signature of what was signed
    have bare_same := (bare_eq_iff typed h.typed).mpr rest
    rw [bare_same, h.encoded] at encoded
    cases encoded
    have sameCertificate := rest .certificate (by decide) (by decide) (by decide)
    rw [atCertificate, h.certificate_eq] at sameCertificate
    cases sameCertificate
    rw [h.loaded] at loaded
    cases loaded
    obtain rfl : key' = key := unforgeable.keyOf_injective (key'_eq.trans matching.symm)
    rw [h.signature_run] at signature_run
    cases signature_run
    intro f declared debug
    by_cases same : f = .signature
    · rw [same, atSignature, h.signature_eq]
    · exact rest f declared same debug

/-- **Signatures survive transport.** A signed announcement is accepted however it was encoded,
decoded, passed on with other debug information and put inside other messages on its way. With
any other field changed it is rejected: whatever keeps the signature or all that was signed and
differs in some field but the debug information is not accepted, for a signature scheme that
can not be forged and a digest that does not collide on the two texts. -/
theorem signature_survives (cbor : Cbor2) (builtins : Builtins) (now : ℤ) (sha : Sha256)
    (x509 : X509) {ark signed : PrismMessage} {key : x509.PrivateKey} (typed : ark.Typed)
    (given : (ark.get .certificate).truthy = true)
    (matching : ∀ certificate cert, ark.get .certificate = .bytes certificate →
      x509.loadPemX509Certificate certificate = .ok cert → x509.keyOf key = x509.publicKey cert)
    (run : signArk cbor builtins now sha x509 ark (some key) = .ok signed) :
    (∀ m, Transported cbor builtins signed m → ∀ later,
      verifySignedArk cbor builtins later sha x509 m = .ok true) ∧
    (x509.Unforgeable → ∀ m : PrismMessage, m.Typed →
      (∃ f ∈ PrismMessage.names, f ≠ .debugInfo ∧ m.get f ≠ signed.get f) →
      (m.get .signature = signed.get .signature ∨
        ∀ f ∈ PrismMessage.names, f ≠ .signature → f ≠ .debugInfo → m.get f = signed.get f) →
      (∀ data data', (bare m).encode cbor = .ok data → (bare signed).encode cbor = .ok data' →
        sha.digest data = sha.digest data' → data = data') →
      ∀ later, verifySignedArk cbor builtins later sha x509 m ≠ .ok true) := by
  obtain ⟨certificate, cert, s, data, atCertificate, h⟩ :=
    signArk_signed cbor builtins now sha x509 typed given run
  have keys := matching certificate cert atCertificate h.loaded
  constructor
  · intro m carried later
    obtain ⟨mTyped, same⟩ := carried.keeps h.typed
    exact h.accepted builtins later keys mTyped same
  · rintro unforgeable m mTyped ⟨f, declared, debug, changed⟩ partly collisionFree later accepted
    refine changed (h.unchanged builtins later unforgeable keys mTyped partly ?_ accepted f declared
      debug)
    exact fun data' encoded => collisionFree data' data encoded h.encoded

end Signature

/-! ### An example -/

theorem exampleX509_unforgeable : exampleX509.Unforgeable where
  forged := by
    intro pk s data algorithm verified
    exact ⟨pk, rfl, congrArg Except.ok (of_decide_eq_true (Except.ok.inj verified)).symm⟩
  keyOf_injective := fun _ _ same => same
  sign_injective := by
    intro key key' data data' algorithm algorithm' s signed signed'
    exact (List.cons.inj (Except.ok.inj (signed.trans signed'.symm))).2

theorem exampleSigned_run : signArk Cbor.package Builtins.strict 0 exampleSha exampleX509
    (exampleAnnouncement 1) (some (2 : UInt8)) = .ok (exampleSigned 1 2) := by
  have signs : (signArk Cbor.package Builtins.strict 0 exampleSha exampleX509
      (exampleAnnouncement 1) (some (2 : UInt8))).isOk = true := by decide +kernel
  unfold exampleSigned
  cases run : signArk Cbor.package Builtins.strict 0 exampleSha exampleX509
      (exampleAnnouncement 1) (some (2 : UInt8)) with
  | ok signed => rfl
  | error e =>
      rw [run] at signs
      cases signs

/-- The signed announcement is accepted after transport, and not with a role added. -/
theorem exampleSigned_survives :
    (∀ m, Transported Cbor.package Builtins.strict (exampleSigned 1 2) m → ∀ later,
      verifySignedArk Cbor.package Builtins.strict later exampleSha exampleX509 m = .ok true) ∧
    verifySignedArk Cbor.package Builtins.strict 0 exampleSha exampleX509
      ((exampleSigned 1 2).replace [(.role, .str "EMIX")]) ≠ .ok true := by
  have typed : (exampleSigned 1 2).Typed := by decide +kernel
  have matching : ∀ certificate cert,
      (exampleAnnouncement 1).get .certificate = .bytes certificate →
      exampleX509.loadPemX509Certificate certificate = .ok cert →
      exampleX509.keyOf (2 : UInt8) = exampleX509.publicKey cert := by
    intro certificate cert atCertificate loaded
    obtain rfl : [2, 1] = certificate := Value.bytes.inj atCertificate
    cases loaded
    rfl
  have survives := signature_survives Cbor.package Builtins.strict 0 exampleSha exampleX509
    (by decide +kernel : (exampleAnnouncement 1).Typed) (by decide +kernel) matching
    exampleSigned_run
  refine ⟨survives.1, survives.2 exampleX509_unforgeable _ (by decide +kernel) ?_ ?_ ?_ 0⟩
  · refine ⟨.role, by decide, by decide, fun same => ?_⟩
    exact absurd (congrArg Value.truthy same) (by decide +kernel)
  · left
    have kept : [(FieldName.role, Value.str "EMIX")].lookup .signature = none := rfl
    rw [PrismMessage.get_replace typed _ (by decide), kept, Option.getD_none]
  · have differ : (do
        let data ← (bare ((exampleSigned 1 2).replace [(.role, .str "EMIX")])).encode Cbor.package
        let data' ← (bare (exampleSigned 1 2)).encode Cbor.package
        return decide (exampleSha.digest data = exampleSha.digest data') : Py Bool) =
          .ok false := by decide +kernel
    intro data data' encoded encoded' same
    rw [encoded, ok_bind, encoded', ok_bind, decide_eq_true same] at differ
    cases differ

end Prism.Crypto
