import Prism.Client.Dropbox
import Prism.Lockfree.Find
import Prism.Message.Cbor

/-!
When the committee matches pseudonyms.

Of the shares of a pseudonym only those of its first chunk travel in a request
(`pseudo_shares[party_id][0]`), so the committee compares the first chunks, not the
pseudonyms. A chunk has `chunk_size_bytes`, which depends on the modulus.

* `pseudonymShare_eq`: the shares in the requests are those of the first secret.
* `Compares.found_iff`: which fragments a find operation reports.
* `matchesExactly_iff`: pseudonyms are told apart exactly when their first chunks are.
* `pseudonyms_collide`: two pseudonyms that are not told apart at the default modulus.
-/

namespace Prism.Client

open Crypto Lockfree

section Shares

variable {ss : ShamirSS} {cbor : Cbor2}

/-- The share that a request carries for a party is its share of the first secret. -/
theorem pseudonymShare_eq {data : Bytes} {secret : ℤ} {rest : List ℤ}
    (encoded : ss.encodeBytes cbor data = .ok (secret :: rest)) {drawn : ℕ → ss.Draw}
    {pseudoShares : List (List Share)} (shared : ss.shareBytes cbor data drawn = .ok pseudoShares)
    (partyId : ℕ) :
    pseudonymShare pseudoShares partyId =
      if partyId < ss.nparties then .ok (ss.shareOf secret (drawn 0).1 partyId).share
      else .error .indexError := by
  rw [ShamirSS.shareBytes_eq encoded (List.cons_ne_nil _ _)] at shared
  cases shared
  by_cases lt : partyId < ss.nparties
  · rw [if_pos lt, pseudonymShare, pyIndex_map_range _ lt]
    rfl
  · rw [if_neg lt, pseudonymShare, pyIndex, List.getElem?_eq_none (by simpa using lt)]
    rfl

/-- With no capacity there are no chunks, and a request for a party fails. -/
theorem pseudonymShare_of_neg (neg : ss.chunkSizeBytes < 0) {data : Bytes} {drawn : ℕ → ss.Draw}
    {pseudoShares : List (List Share)} (shared : ss.shareBytes cbor data drawn = .ok pseudoShares)
    (partyId : ℕ) : pseudonymShare pseudoShares partyId = .error .indexError := by
  rw [ShamirSS.shareBytes, ShamirSS.encodeBytes, if_neg (by omega), if_pos neg] at shared
  cases shared
  rfl

/-- The first secrets of two pseudonyms agree exactly when their first chunks do. -/
theorem secrets_agree_iff {P Q : Bytes} (lenP : P.length = 32) (lenQ : Q.length = 32)
    {sP sQ : ℤ} (firstP : ss.encodeChunk cbor (P.take ss.chunkSizeBytes.toNat) = .ok sP)
    (firstQ : ss.encodeChunk cbor (Q.take ss.chunkSizeBytes.toNat) = .ok sQ) :
    sP ≡ sQ [ZMOD ss.modulus] ↔
      P.take ss.chunkSizeBytes.toNat = Q.take ss.chunkSizeBytes.toNat := by
  have shortP : (P.take ss.chunkSizeBytes.toNat).length < 256 := by
    rw [List.length_take]
    omega
  have shortQ : (Q.take ss.chunkSizeBytes.toNat).length < 256 := by
    rw [List.length_take]
    omega
  constructor
  · intro agree
    obtain ⟨valueP, ltP⟩ := (ShamirSS.encodeChunk_eq shortP).mp firstP
    obtain ⟨valueQ, ltQ⟩ := (ShamirSS.encodeChunk_eq shortQ).mp firstQ
    have equal : sP = sQ := by
      rw [Int.ModEq, Int.emod_eq_of_lt (by omega) (by omega),
        Int.emod_eq_of_lt (by omega) (by omega)] at agree
      exact agree
    subst equal
    exact ShamirSS.encodeChunk_inj shortP shortQ firstP firstQ
  · intro chunks
    rw [chunks, firstQ] at firstP
    rw [Except.ok.inj firstP]

end Shares

/-- In a find operation, the peers that have the `k`-th target hold what was written to
them, and the peers that take part hold what was sent to them to read. -/
structure Compares (find : FindOp) (k : ℕ) (written read : ℕ → Py PrismMessage) : Prop where
  lt : k < find.targets.length
  stored : ∀ i fragment, find.stored i find.targets[k] = some fragment →
    ∃ message share, written i = .ok message ∧ message.get .pseudonymShare = .int share ∧
      fragment.pseudonymShare = ⟨share, i⟩
  polled : ∀ i share, find.readPeer i = some share →
    ∃ message, read i = .ok message ∧ message.get .pseudonymShare = .int share

/-- The messages to the parties carry the shares of a secret. -/
def CarryShares (ss : ShamirSS) (secret : ℤ) (drawn : ss.Draw) (sent : ℕ → Py PrismMessage) :
    Prop :=
  ∀ i message, sent i = .ok message → i < ss.nparties ∧
    message.get .pseudonymShare = .int (ss.shareOf secret drawn.1 i).share

section Requests

variable (cbor : Cbor2) (builtins : Builtins) {package : CryptoPackage} {ss : ShamirSS}
  {secret : ℤ} {drawn : ss.Draw} {pseudoShares : List (List Share)}
  (shares : ∀ i, pseudonymShare pseudoShares i =
    if i < ss.nparties then .ok (ss.shareOf secret drawn.1 i).share else .error .indexError)
include shares

/-- What `write_request` sends carries the shares of the first secret. -/
theorem carryShares_write (now : ℕ → ℤ) (messageShares : List (List Share)) :
    CarryShares ss secret drawn fun i =>
      MPCDropbox.writeMessage cbor (now i) pseudoShares messageShares i := by
  intro i message sent
  dsimp only at sent
  rw [MPCDropbox.writeMessage, shares i] at sent
  by_cases lt : i < ss.nparties
  · rw [if_pos lt, ok_bind] at sent
    obtain ⟨row, -, sent⟩ := bind_eq_ok.mp sent
    obtain ⟨ciphertext, -, sent⟩ := bind_eq_ok.mp sent
    cases sent
    exact ⟨lt, rfl⟩
  · rw [if_neg lt] at sent
    cases sent

/-- So does what `read_request` sends. -/
theorem carryShares_read (now : ℕ → ℤ) (info : MPCRequestInfo package) :
    CarryShares ss secret drawn fun i =>
      MPCDropbox.readMessage builtins (now i) pseudoShares info i := by
  intro i message sent
  dsimp only at sent
  rw [MPCDropbox.readMessage, shares i] at sent
  by_cases lt : i < ss.nparties
  · rw [if_pos lt, ok_bind] at sent
    cases key : info.peerKeys i with
    | none =>
        rw [key] at sent
        cases sent
    | some key' =>
        rw [key] at sent
        obtain ⟨halfKey, -, sent⟩ := bind_eq_ok.mp sent
        cases sent
        exact ⟨lt, rfl⟩
  · rw [if_neg lt] at sent
    cases sent

end Requests

/-- The shares that some of the parties hold of a secret. -/
theorem sharedAmong_carried {sharing : Sharing} (pos : 1 ≤ sharing.threshold) {secret : ℤ}
    (drawn : sharing.secretSharing.Draw) {f : ℕ → Option Share}
    (held : ∀ i share, f i = some share → i < sharing.nparties ∧
      share = sharing.secretSharing.shareOf secret drawn.1 i) :
    SharedAmong sharing secret f := by
  have dealt := sharedAmong_share pos secret drawn (fun i => (f i).isSome) fun i some => by
    obtain ⟨share, eq⟩ := Option.isSome_iff_exists.mp some
    exact (held i share eq).1
  have same : (fun i => if (f i).isSome then
      some (sharing.secretSharing.shareOf secret drawn.1 i) else none) = f := by
    funext i
    cases eq : f i with
    | none => rfl
    | some share => rw [(held i share eq).2]; rfl
  rwa [same] at dealt

/-- **What the committee reports** of a fragment written for one pseudonym to the poller of
another: that it is found, if its value is opened, exactly when the secrets agree or the
random number is zero. -/
theorem Compares.found_iff {find : FindOp} {x : ℕ → ℤ} {y : ℤ} {r a b c : ℕ → ℤ}
    (valid : find.Valid x y r a b c) {k : ℕ} {written read : ℕ → Py PrismMessage}
    (compares : Compares find k written read) {sP sQ : ℤ}
    {drawnP drawnQ : find.sharing.secretSharing.Draw}
    (carriesP : CarryShares find.sharing.secretSharing sP drawnP written)
    (carriesQ : CarryShares find.sharing.secretSharing sQ drawnQ read)
    {opPeers js : List ℕ} {fragments : List Bytes} {size : ℕ}
    (distinct : fragments.Nodup) (targets : find.targets = fragments.take size)
    (js_nodup : js.Nodup) (js_parties : ∀ j ∈ js, j < find.sharing.nparties) {checked : Checked}
    (run : checkTask find.sharing opPeers fragments size (find.replies js) = .ok checked) :
    find.targets.get ⟨k, compares.lt⟩ ∈ checked.found ↔
      (∃ w, checked.results[k]? = some (some w)) ∧
        (sP ≡ sQ [ZMOD find.sharing.modulus] ∨ r k ≡ 0 [ZMOD find.sharing.modulus]) := by
  have stored : SharedAmong find.sharing sP fun i =>
      (find.stored i (find.targets.get ⟨k, compares.lt⟩)).map (·.pseudonymShare) := by
    refine sharedAmong_carried valid.threshold_pos drawnP fun i share held => ?_
    obtain ⟨fragment, atFragment, rfl⟩ := Option.map_eq_some_iff.mp held
    obtain ⟨message, value, sent, carried, eq⟩ := compares.stored i fragment atFragment
    obtain ⟨lt, carried'⟩ := carriesP i message sent
    rw [carried] at carried'
    cases carried'
    exact ⟨lt, eq⟩
  have polled : SharedAmong find.sharing sQ fun i =>
      (find.readPeer i).map fun share => ⟨share, i⟩ := by
    refine sharedAmong_carried valid.threshold_pos drawnQ fun i share held => ?_
    obtain ⟨value, atValue, rfl⟩ := Option.map_eq_some_iff.mp held
    obtain ⟨message, sent, carried⟩ := compares.polled i value atValue
    obtain ⟨lt, carried'⟩ := carriesQ i message sent
    rw [carried] at carried'
    cases carried'
    exact ⟨lt, rfl⟩
  have valid' : find.Valid (Function.update x k sP) sQ r a b c := {
    valid with
    stored := fun k' lt => by
      by_cases same : k' = k
      · subst same
        rwa [Function.update_self]
      · rw [Function.update_of_ne same]
        exact valid.stored k' lt
    polled := polled }
  have found := valid'.found_iff distinct targets js_nodup js_parties run compares.lt
  rwa [Function.update_self] at found

/-- Pseudonym matching is exact for two pseudonyms: the secrets agree exactly when the
pseudonyms are equal, and whatever find operation compares what was written for one with
what was sent to read the other reports it found only then, a zero random number apart. -/
structure MatchesExactly (ss : ShamirSS) (P Q : Bytes) (sP sQ : ℤ)
    (written read : ℕ → Py PrismMessage) : Prop where
  agree : sP ≡ sQ [ZMOD ss.modulus] ↔ P = Q
  never : ∀ (find : FindOp) (x : ℕ → ℤ) (y : ℤ) (r a b c : ℕ → ℤ) (k : ℕ),
    find.sharing = ⟨ss⟩ → find.Valid x y r a b c → (compares : Compares find k written read) →
    ∀ (opPeers js : List ℕ) (fragments : List Bytes) (size : ℕ) (checked : Checked),
      fragments.Nodup → find.targets = fragments.take size → js.Nodup →
      (∀ j ∈ js, j < ss.nparties) →
      checkTask find.sharing opPeers fragments size (find.replies js) = .ok checked →
      find.targets.get ⟨k, compares.lt⟩ ∈ checked.found → P = Q ∨ r k ≡ 0 [ZMOD ss.modulus]

/-- Whether pseudonyms are told apart by their first chunks. -/
theorem matchesExactly_iff_chunks {ss : ShamirSS} {P Q : Bytes} {sP sQ : ℤ} {c : ℕ}
    (agree : sP ≡ sQ [ZMOD ss.modulus] ↔ P.take c = Q.take c) {drawnP drawnQ : ss.Draw}
    {written read : ℕ → Py PrismMessage} (carriesP : CarryShares ss sP drawnP written)
    (carriesQ : CarryShares ss sQ drawnQ read) :
    MatchesExactly ss P Q sP sQ written read ↔ P = Q ∨ P.take c ≠ Q.take c := by
  constructor
  · intro exact_
    by_cases chunks : P.take c = Q.take c
    · exact .inl (exact_.agree.mp (agree.mpr chunks))
    · exact .inr chunks
  · intro apart
    have secrets : sP ≡ sQ [ZMOD ss.modulus] ↔ P = Q := by
      rw [agree]
      constructor
      · intro chunks
        exact apart.resolve_right (not_not.mpr chunks)
      · rintro rfl
        rfl
    refine ⟨secrets, ?_⟩
    intro find x y r a b c k sharing valid compares opPeers js fragments size checked distinct
      targets js_nodup js_parties run found
    obtain ⟨⟨fss⟩, requestId, ts, stored, chunk, readPeer, opP, gathered⟩ := find
    cases sharing
    obtain ⟨-, cause⟩ := (compares.found_iff valid carriesP carriesQ distinct targets js_nodup
      js_parties run).mp found
    exact cause.imp_left secrets.mp

/-- **When pseudonym matching is exact.** Where two pseudonyms are shared, either there is
no capacity and no request carries a share of them, or the shares in the requests are
those of one secret each, and matching is exact exactly when the pseudonyms are equal or
differ in their first `chunk_size_bytes` bytes. -/
theorem matchesExactly_iff (cbor : Cbor2) (builtins : Builtins) (package : CryptoPackage)
    (self : MPCDropbox) {P Q : Bytes} (lenP : P.length = 32) (lenQ : Q.length = 32)
    {drawnP drawnQ : ℕ → self.secretSharing.Draw} {pseudoP pseudoQ : List (List Share)}
    (sharedP : self.secretSharing.shareBytes cbor P drawnP = .ok pseudoP)
    (sharedQ : self.secretSharing.shareBytes cbor Q drawnQ = .ok pseudoQ) :
    (self.secretSharing.chunkSizeBytes < 0 ∧ ∀ i,
      pseudonymShare pseudoP i = .error .indexError ∧
      pseudonymShare pseudoQ i = .error .indexError) ∨
    (0 < self.secretSharing.chunkSizeBytes ∧ ∃ sP sQ restP restQ,
      self.secretSharing.encodeBytes cbor P = .ok (sP :: restP) ∧
      self.secretSharing.encodeBytes cbor Q = .ok (sQ :: restQ) ∧
      ∀ (nowP nowQ : ℕ → ℤ) (messageShares : List (List Share)) (info : MPCRequestInfo package)
        (written read : ℕ → Py PrismMessage),
        (written = fun i => MPCDropbox.writeMessage cbor (nowP i) pseudoP messageShares i) →
        (read = fun i => MPCDropbox.readMessage builtins (nowQ i) pseudoQ info i) →
        CarryShares self.secretSharing sP (drawnP 0) written ∧
        CarryShares self.secretSharing sQ (drawnQ 0) read ∧
        (MatchesExactly self.secretSharing P Q sP sQ written read ↔
          P = Q ∨ P.take self.secretSharing.chunkSizeBytes.toNat ≠
            Q.take self.secretSharing.chunkSizeBytes.toNat)) := by
  have neP : P ≠ [] := by
    rintro rfl
    cases lenP
  have neQ : Q ≠ [] := by
    rintro rfl
    cases lenQ
  rcases lt_trichotomy self.secretSharing.chunkSizeBytes 0 with neg | zero | pos
  · left
    exact ⟨neg, fun i => ⟨pseudonymShare_of_neg neg sharedP i, pseudonymShare_of_neg neg sharedQ i⟩⟩
  · rw [ShamirSS.shareBytes, ShamirSS.encodeBytes, if_pos zero] at sharedP
    cases sharedP
  · right
    obtain ⟨secretsP, encodedP, -⟩ := bind_eq_ok.mp sharedP
    obtain ⟨secretsQ, encodedQ, -⟩ := bind_eq_ok.mp sharedQ
    obtain ⟨sP, restP, rfl, firstP⟩ := ShamirSS.encodeBytes_head pos neP encodedP
    obtain ⟨sQ, restQ, rfl, firstQ⟩ := ShamirSS.encodeBytes_head pos neQ encodedQ
    refine ⟨pos, sP, sQ, restP, restQ, encodedP, encodedQ, ?_⟩
    rintro nowP nowQ messageShares info written read rfl rfl
    have carriesP := carryShares_write cbor (pseudonymShare_eq encodedP sharedP) nowP
      messageShares
    have carriesQ := carryShares_read builtins (pseudonymShare_eq encodedQ sharedQ)
      nowQ info
    exact ⟨carriesP, carriesQ,
      matchesExactly_iff_chunks (secrets_agree_iff lenP lenQ firstP firstQ) carriesP carriesQ⟩

/-- The announcement of a dropbox whose committee shares with the default modulus. -/
def defaultArk : PrismMessage :=
  PrismMessage.create 0 .announceRoleKey [(.secretSharing, .object .secretSharingMap
    [.enum (.secretSharing .shamir), .int 4, .int 2,
      .int 210340362182463027693671312934069294429519269866912637212799832923523392566897,
      .none, .none])]

/-- That dropbox. -/
def defaultDropbox : MPCDropbox where
  dropbox := ⟨defaultArk⟩
  secretSharing := ⟨4, 2,
    210340362182463027693671312934069294429519269866912637212799832923523392566897,
    four_parties⟩
  loaded := rfl

/-- Two pseudonyms that differ in their last byte only. -/
def pseudonymEndingIn (b : UInt8) : Bytes := List.replicate 31 7 ++ [b]

/-- One draw of coefficients for all chunks. -/
def defaultDraws (_ : ℕ) : defaultDropbox.secretSharing.Draw := ⟨[1], by decide +kernel⟩

/-- The number of the first chunk of these pseudonyms, which has 30 bytes. -/
def defaultSecret : ℤ := intFromBytes (0x58 :: 30 :: List.replicate 30 7)

theorem encodeBytes_defaultDropbox :
    defaultDropbox.secretSharing.encodeBytes Cbor.package (pseudonymEndingIn 1) =
        .ok [defaultSecret, 0x420701] ∧
      defaultDropbox.secretSharing.encodeBytes Cbor.package (pseudonymEndingIn 2) =
        .ok [defaultSecret, 0x420702] := by
  constructor <;> decide +kernel

/-- **Different pseudonyms collide** at the default modulus: both are shared, and their
first secrets are the same number. -/
theorem pseudonyms_collide :
    pseudonymEndingIn 1 ≠ pseudonymEndingIn 2 ∧
    (pseudonymEndingIn 1).length = 32 ∧ (pseudonymEndingIn 2).length = 32 ∧
    (∃ shares, defaultDropbox.secretSharing.shareBytes Cbor.package (pseudonymEndingIn 1)
      defaultDraws = .ok shares) ∧
    (∃ shares, defaultDropbox.secretSharing.shareBytes Cbor.package (pseudonymEndingIn 2)
      defaultDraws = .ok shares) ∧
    ∃ s restP restQ,
      defaultDropbox.secretSharing.encodeBytes Cbor.package (pseudonymEndingIn 1) =
        .ok (s :: restP) ∧
      defaultDropbox.secretSharing.encodeBytes Cbor.package (pseudonymEndingIn 2) =
        .ok (s :: restQ) := by
  obtain ⟨encodedP, encodedQ⟩ := encodeBytes_defaultDropbox
  refine ⟨by decide, rfl, rfl, ?_, ?_, defaultSecret, _, _, encodedP, encodedQ⟩
  · exact ⟨_, ShamirSS.shareBytes_eq encodedP (List.cons_ne_nil _ _) defaultDraws⟩
  · exact ⟨_, ShamirSS.shareBytes_eq encodedQ (List.cons_ne_nil _ _) defaultDraws⟩

/-- At the default modulus matching is not exact for these two pseudonyms. -/
theorem defaultDropbox_not_matchesExactly :
    ∃ pseudoP pseudoQ sP sQ, ∀ (nowP nowQ : ℕ → ℤ) (messageShares : List (List Share))
      (info : MPCRequestInfo CryptoPackage.additive),
      defaultDropbox.secretSharing.shareBytes Cbor.package (pseudonymEndingIn 1) defaultDraws =
        .ok pseudoP ∧
      defaultDropbox.secretSharing.shareBytes Cbor.package (pseudonymEndingIn 2) defaultDraws =
        .ok pseudoQ ∧
      ¬ MatchesExactly defaultDropbox.secretSharing (pseudonymEndingIn 1) (pseudonymEndingIn 2)
        sP sQ (fun i => MPCDropbox.writeMessage Cbor.package (nowP i) pseudoP messageShares i)
        (fun i => MPCDropbox.readMessage Builtins.strict (nowQ i) pseudoQ info i) := by
  obtain ⟨encodedP, encodedQ⟩ := encodeBytes_defaultDropbox
  have sharedP := ShamirSS.shareBytes_eq encodedP (List.cons_ne_nil _ _) defaultDraws
  have sharedQ := ShamirSS.shareBytes_eq encodedQ (List.cons_ne_nil _ _) defaultDraws
  rcases matchesExactly_iff Cbor.package Builtins.strict CryptoPackage.additive defaultDropbox
    rfl rfl sharedP sharedQ with ⟨neg, -⟩ | ⟨-, sP, sQ, -, -, -, -, at_default⟩
  · exact absurd neg (by decide +kernel)
  refine ⟨_, _, sP, sQ, fun nowP nowQ messageShares info => ⟨sharedP, sharedQ, fun exact_ => ?_⟩⟩
  obtain ⟨-, -, iff⟩ := at_default nowP nowQ messageShares info _ _ rfl rfl
  revert exact_
  rw [iff]
  decide +kernel

end Prism.Client
