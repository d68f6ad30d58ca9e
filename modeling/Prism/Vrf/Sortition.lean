import Mathlib.Data.Rat.Defs
import Mathlib.Algebra.Order.Ring.Rat
import Prism.Vrf.Completeness

/-!
Sortition of roles (`prism/common/vrf/sortition.py` and the lookup of
`prism/common/vrf/distribution.py`).

The hash of a proof is looked up in a distribution, a partition of the numbers up to
`space` by upper bounds, one for each role. A server claims a role with a serialized proof.

* `verify_serialized`: which claims are accepted.
* `verify_sound_iff`: an accepted proof is valid, unless the verifier's result is a pair of
  `False` and `None`, which is true like any pair.
* `verify_sortAndProve`: honest claims are accepted.
-/

namespace Prism.Vrf

/-- The loop of `bisect.bisect_left`. The interval gets smaller in each round, so there are
no more rounds than its length. -/
def bisectLoop (a : List ℚ) (x : ℚ) : ℕ → ℕ → ℕ → ℕ
  | 0, lo, _ => lo
  | rounds + 1, lo, hi =>
    if lo < hi then
      if a.getD ((lo + hi) / 2) 0 < x then bisectLoop a x rounds ((lo + hi) / 2 + 1) hi
      else bisectLoop a x rounds lo ((lo + hi) / 2)
    else lo

/-- `bisect.bisect_left`. -/
def bisectLeft (a : List ℚ) (x : ℚ) : ℕ := bisectLoop a x a.length 0 a.length

/-- A role distribution: the roles, an upper bound for each, and the largest number. -/
structure VRFDistribution where
  roles : List String
  upperBounds : List ℚ
  space : ℤ
  length_eq : upperBounds.length = roles.length

namespace VRFDistribution

/-- `role`: the role for a payload. -/
def role (self : VRFDistribution) (payload : ℤ) : Py String :=
  if payload < 0 ∨ payload > self.space then .error (.valueError "Out of Domain")
  else pyIndex self.roles (bisectLeft self.upperBounds payload)

end VRFDistribution

/-- `VRFSortition`. -/
structure VRFSortition where
  rd : VRFDistribution

/-- `bool` of a pair. -/
def pairTruthy {α β : Type} (_ : α × β) : Bool := true

namespace VRFSortition

variable (sha : Sha256) (pem : PemFormat) (self : VRFSortition)

/-- `sort_and_prove`: the role for an input, and the serialized proof. -/
def sortAndProve (sk : RSAPrivateKey) (alpha : Bytes) : Py (String × String) := do
  let pi ← vrfProve sha sk alpha
  let h := bytes2ip (← vrfProofToHash sha pi)
  return (← self.rd.role h, serializeProof pem sk.publicKey alpha pi)

/-- `verify`: whether a serialized proof is accepted for a role. Without the cryptography
package everything is. -/
def verify (cryptographyAvailable : Bool) (serialProof : String) (role : Option String) :
    Py Bool :=
  if !cryptographyAvailable then .ok true
  else do
    let (pk, alpha, pi) ← deserializeProof pem serialProof
    if pairTruthy (← vrfVerify sha pk alpha pi) then
      let beta := bytes2ip (← vrfProofToHash sha pi)
      return some (← self.rd.role beta) = role
    else return false

/-- The distribution maps the hash of a proof to a role. -/
def Maps (pi : Bytes) (role : Option String) : Prop :=
  ∃ r, self.rd.role (bytes2ip (sha.digest ([2] ++ pi))) = .ok r ∧ some r = role

variable {pem} {self}

/-- **Which claims are accepted**: those for which the verifier returns something and the
hash of the proof is mapped to the role. -/
theorem verify_serialized (pk : RSAPublicKey) (alpha pi : Bytes) (role : Option String) :
    verify sha pem self true (serializeProof pem pk alpha pi) role = .ok true ↔
      (∃ result, vrfVerify sha pk alpha pi = .ok result) ∧ Maps sha self pi role := by
  rw [verify, if_neg (by decide), deserialize_serialize]
  simp only [ok_bind, pairTruthy, if_true, vrfProofToHash_ok]
  cases verified : vrfVerify sha pk alpha pi with
  | error e => simp
  | ok result =>
      simp only [ok_bind, Except.ok.injEq, exists_eq', true_and, Maps]
      cases mapped : self.rd.role (bytes2ip (sha.digest ([2] ++ pi))) with
      | error e => simp
      | ok r =>
          change Except.ok (decide (some r = role)) = Except.ok true ↔ _
          simp

/-- **When acceptance means validity.** Where the cryptography package is available,
`verify` returns `True` only for a valid proof whose hash is mapped to the role, if and only
if the proof is valid, or the verifier raises, or the hash is not mapped to the role. -/
theorem verify_sound_iff (pk : RSAPublicKey) (alpha pi : Bytes) (role : Option String) :
    (verify sha pem self true (serializeProof pem pk alpha pi) role = .ok true →
        Valid sha pk alpha pi ∧ Maps sha self pi role) ↔
      Valid sha pk alpha pi ∨ (∃ e, vrfVerify sha pk alpha pi = .error e) ∨
        ¬ Maps sha self pi role := by
  rw [verify_serialized]
  constructor
  · intro sound
    cases verified : vrfVerify sha pk alpha pi with
    | error e => exact .inr (.inl ⟨e, rfl⟩)
    | ok result =>
        by_cases mapped : Maps sha self pi role
        · exact .inl (sound ⟨⟨result, verified⟩, mapped⟩).1
        · exact .inr (.inr mapped)
  · rintro cause ⟨⟨result, verified⟩, mapped⟩
    refine ⟨?_, mapped⟩
    rcases cause with valid | ⟨e, raised⟩ | unmapped
    · exact valid
    · rw [verified] at raised
      cases raised
    · exact absurd mapped unmapped

/-- **Honest claims are accepted.** -/
theorem verify_sortAndProve {sk : RSAPrivateKey} {p q k : ℕ} (key : ValidKey sk p q k)
    (short : k < 2 ^ 32) {alpha : Bytes} {role serial : String}
    (sorted : sortAndProve sha pem self sk alpha = .ok (role, serial)) :
    verify sha pem self true serial (some role) = .ok true := by
  obtain ⟨pi, proved, -, verified⟩ := key.vrfVerify_vrfProve sha short alpha
  rw [sortAndProve, proved, ok_bind, vrfProofToHash_ok, ok_bind] at sorted
  obtain ⟨r, mapped, sorted⟩ := bind_eq_ok.mp sorted
  cases sorted
  exact (verify_serialized sha _ _ _ _).mpr ⟨⟨_, verified⟩, role, mapped, rfl⟩

end VRFSortition

/-- A distribution with one role. -/
def exampleSortition : VRFSortition where
  rd := {
    roles := ["EMIX"]
    upperBounds := [2 ^ 256 - 1]
    space := 2 ^ 256 - 1
    length_eq := rfl }

/-- **An invalid proof is accepted**: the verifier reports that it is not valid. -/
theorem verify_unsound :
    VRFSortition.verify exampleSha examplePem exampleSortition true
      (serializeProof examplePem exampleKey.publicKey [] [5]) (some "EMIX") = .ok true ∧
    vrfVerify exampleSha exampleKey.publicKey [] [5] = .ok (false, none) := by
  have verified : vrfVerify exampleSha exampleKey.publicKey [] [5] = .ok (false, none) := by
    decide +kernel
  have mapped : exampleSortition.rd.role (bytes2ip (exampleSha.digest ([2] ++ [5]))) =
      .ok "EMIX" := by decide +kernel
  exact ⟨(VRFSortition.verify_serialized _ _ _ _ _).mpr ⟨⟨_, verified⟩, _, mapped, rfl⟩, verified⟩

end Prism.Vrf
