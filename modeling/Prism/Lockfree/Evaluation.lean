import Prism.Crypto.RootPolynomial
import Prism.Lockfree.Sharing

/-!
Sharings at any point (`prism/common/crypto/secretsharing/shamir.py`,
`prism/server/CS2/roles/lockfree/sharing.py`).

`reconstruct` evaluates the shared polynomial at the point that it is asked for, and not only at
zero, from the shares of any parties, if they are enough. So the operations on shares are the
operations on the values at any point, and a sharing with a root is one of zero there.

* `OnPolynomial`: the shares are the values of a polynomial of degree below the threshold.
* `OnPolynomial.reconstruct`: from enough shares, its value at any point.
* `evaluation`: all of this together, with the operations.
-/

namespace Prism.Lockfree

open Prism.Crypto Polynomial

/-- **A sharing of a polynomial**: the shares of the parties are its values, and its degree is below
the threshold. -/
structure OnPolynomial (ss : ShamirSS) (Q : (ZMod ss.modulus)[X]) (f : ℕ → Share) : Prop where
  degree_lt : Q.degree < ss.threshold
  x_eq : ∀ i < ss.nparties, (f i).x = i
  value : ∀ i < ss.nparties, ((f i).share : ZMod ss.modulus) = Q.eval (point ss.modulus i)

namespace OnPolynomial

variable {ss : ShamirSS} {Q R : (ZMod ss.modulus)[X]} {f g : ℕ → Share}

theorem eta (shared : OnPolynomial ss Q f) {i : ℕ} (lt : i < ss.nparties) :
    f i = ⟨(f i).share, i⟩ := by
  rw [← shared.x_eq i lt]

/-- Shares with a root lie on a polynomial that is zero there. -/
theorem root (pos : 1 ≤ ss.threshold) (iq : ℤ) (drawn : ss.Draw) :
    ∃ Q, OnPolynomial ss Q (ss.rootShareOf iq drawn.1) ∧ Q.eval (iq : ZMod ss.modulus) = 0 := by
  refine ⟨coeffPoly ss.modulus (rootCoeffs ss.modulus iq drawn.1), ⟨?_, fun _ _ => rfl, ?_⟩,
    rootCoeffs_eval ss.modulus iq drawn.1⟩
  · refine lt_of_lt_of_le (coeffPoly_degree _ _) ?_
    rw [length_rootCoeffs, drawn.2.1, Nat.sub_add_cancel pos]
  · intro i _
    simp [ShamirSS.rootShareOf, P_cast, point]

section Operations

variable {sh : Sharing} {Q R : (ZMod sh.secretSharing.modulus)[X]}

/-- Sums of shares are shares of the sum. -/
theorem add (hf : OnPolynomial sh.secretSharing Q f) (hg : OnPolynomial sh.secretSharing R g) :
    OnPolynomial sh.secretSharing (Q + R) fun i =>
      ⟨((f i).share + (g i).share) % sh.modulus, i⟩ where
  degree_lt := lt_of_le_of_lt (degree_add_le Q R) (max_lt hf.degree_lt hg.degree_lt)
  x_eq _ _ := rfl
  value i lt := by
    rw [eval_add, ← hf.value i lt, ← hg.value i lt, Sharing.modulus, ZMod.intCast_mod, Int.cast_add]

/-- Differences of shares are shares of the difference. -/
theorem sub (hf : OnPolynomial sh.secretSharing Q f) (hg : OnPolynomial sh.secretSharing R g) :
    OnPolynomial sh.secretSharing (Q - R) fun i =>
      ⟨((f i).share - (g i).share) % sh.modulus, i⟩ where
  degree_lt := lt_of_le_of_lt (degree_sub_le Q R) (max_lt hf.degree_lt hg.degree_lt)
  x_eq _ _ := rfl
  value i lt := by
    rw [eval_sub, ← hf.value i lt, ← hg.value i lt, Sharing.modulus, ZMod.intCast_mod, Int.cast_sub]

/-- Multiples of shares are shares of the multiple. -/
theorem mulc (hf : OnPolynomial sh.secretSharing Q f) (c : ℤ) :
    OnPolynomial sh.secretSharing (C (c : ZMod sh.secretSharing.modulus) * Q) fun i =>
      ⟨(f i).share * c % sh.modulus, i⟩ where
  degree_lt := by
    rw [← smul_eq_C_mul]
    exact lt_of_le_of_lt (degree_smul_le _ Q) hf.degree_lt
  x_eq _ _ := rfl
  value i lt := by
    rw [eval_mul, eval_C, ← hf.value i lt, Sharing.modulus, ZMod.intCast_mod, Int.cast_mul, mul_comm]

end Operations

section Reconstruct

variable {parties : List ℕ} (prime : ss.modulus.Prime) (lt : ss.nparties < ss.modulus)
  (nodup : parties.Nodup) (known : ∀ i ∈ parties, i < ss.nparties)
  (enough : ss.threshold ≤ parties.length)

include prime lt nodup known enough

/-- **Evaluation**: enough shares give the polynomial's value at any point. -/
theorem reconstruct (shared : OnPolynomial ss Q f) (iq : ℤ) :
    ∃ v : ℤ, ss.reconstruct (parties.map f) iq = .ok v ∧ 0 ≤ v ∧ v < ss.modulus ∧
      (v : ZMod ss.modulus) = Q.eval (iq : ZMod ss.modulus) := by
  have : Fact ss.modulus.Prime := ⟨prime⟩
  exact reconstruct_at lt ⟨Q, shared.degree_lt, rfl, shared.value⟩
    (fun i mem => shared.x_eq i (known i mem)) known nodup known enough

/-- The value, as the residue of a number. -/
theorem reconstruct_eq (shared : OnPolynomial ss Q f) (iq : ℤ) {n : ℤ}
    (value : (n : ZMod ss.modulus) = Q.eval (iq : ZMod ss.modulus)) :
    ss.reconstruct (parties.map f) iq = .ok (n % ss.modulus) := by
  obtain ⟨v, run, low, high, same⟩ :=
    reconstruct prime lt nodup known enough shared iq
  rw [← value, ZMod.intCast_eq_intCast_iff', Int.emod_eq_of_lt low high] at same
  rw [run, same]

end Reconstruct

end OnPolynomial

/-- Enough shares are opened to what is reconstructed from them. -/
theorem open_onPolynomial {sh : Sharing} {Q : (ZMod sh.secretSharing.modulus)[X]} {f : ℕ → Share}
    {parties : List ℕ} (shared : OnPolynomial sh.secretSharing Q f)
    (known : ∀ i ∈ parties, i < sh.nparties) (enough : sh.threshold ≤ parties.length) :
    sh.open (parties.map f) = some <$> sh.secretSharing.reconstruct (parties.map f) 0 := by
  have real : (parties.map f).filter (fun share => share.x != -1) = parties.map f := by
    refine List.filter_eq_self.mpr fun s mem => ?_
    obtain ⟨i, isIn, rfl⟩ := List.mem_map.mp mem
    rw [shared.x_eq i (known i isIn), bne_iff_ne]
    omega
  unfold Sharing.«open»
  simp only [real, List.length_map, not_lt.mpr enough, if_false]

/-- **Sharings at any point**: what is reconstructed from enough shares of distinct parties is the
value of the polynomial, sharings with a root are zero there, and the operations on shares are
those on the values. -/
theorem evaluation {sh : Sharing} (prime : sh.modulus.Prime) (lt : sh.nparties < sh.modulus)
    (pos : 1 ≤ sh.threshold) (iq : ℤ) {parties : List ℕ} (nodup : parties.Nodup)
    (known : ∀ i ∈ parties, i < sh.nparties) (enough : sh.threshold ≤ parties.length) :
    (∀ Q f, OnPolynomial sh.secretSharing Q f →
        (∃ v : ℤ, sh.secretSharing.reconstruct (parties.map f) iq = .ok v ∧ 0 ≤ v ∧
          v < sh.modulus ∧
          (v : ZMod sh.secretSharing.modulus) = Q.eval (iq : ZMod sh.secretSharing.modulus)) ∧
        sh.open (parties.map f) = some <$> sh.secretSharing.reconstruct (parties.map f) 0) ∧
      (∀ drawn : sh.secretSharing.Draw,
        (∃ Q, OnPolynomial sh.secretSharing Q (sh.secretSharing.rootShareOf iq drawn.1)) ∧
        sh.secretSharing.reconstruct
          (parties.map (sh.secretSharing.rootShareOf iq drawn.1)) iq = .ok 0) ∧
      ∀ Q R f g (c : ℤ), OnPolynomial sh.secretSharing Q f → OnPolynomial sh.secretSharing R g →
        ∃ v w sums differences multiples,
          sh.secretSharing.reconstruct (parties.map f) iq = .ok v ∧
          sh.secretSharing.reconstruct (parties.map g) iq = .ok w ∧
          (parties.mapM fun i => sh.add (f i) (g i)) = .ok sums ∧
          sh.secretSharing.reconstruct sums iq = .ok ((v + w) % sh.modulus) ∧
          (parties.mapM fun i => sh.sub (f i) (g i)) = .ok differences ∧
          sh.secretSharing.reconstruct differences iq = .ok ((v - w) % sh.modulus) ∧
          (parties.mapM fun i => sh.mulc (f i) c) = .ok multiples ∧
          sh.secretSharing.reconstruct multiples iq = .ok (v * c % sh.modulus) := by
  refine ⟨fun Q f shared => ⟨?_, ?_⟩, fun drawn => ?_, fun Q R f g c hf hg => ?_⟩
  · exact OnPolynomial.reconstruct prime lt nodup known enough shared iq
  · exact open_onPolynomial shared known enough
  · obtain ⟨Q, shared, zero⟩ := OnPolynomial.root pos iq drawn
    refine ⟨⟨Q, shared⟩, ?_⟩
    have value := @OnPolynomial.reconstruct_eq _ _ _ _ prime lt nodup known enough shared iq 0
      (by rw [zero, Int.cast_zero])
    rwa [Int.zero_emod] at value
  · obtain ⟨v, runF, -, -, valueF⟩ :=
      OnPolynomial.reconstruct prime lt nodup known enough hf iq
    obtain ⟨w, runG, -, -, valueG⟩ :=
      OnPolynomial.reconstruct prime lt nodup known enough hg iq
    have added : (parties.mapM fun i => sh.add (f i) (g i)) =
        .ok (parties.map fun i => ⟨((f i).share + (g i).share) % sh.modulus, i⟩) :=
      mapM_ok fun i mem => by
        rw [hf.eta (known i mem), hg.eta (known i mem)]
        exact sh.add_party _ _ i
    have subtracted : (parties.mapM fun i => sh.sub (f i) (g i)) =
        .ok (parties.map fun i => ⟨((f i).share - (g i).share) % sh.modulus, i⟩) :=
      mapM_ok fun i mem => by
        rw [hf.eta (known i mem), hg.eta (known i mem)]
        exact sh.sub_party _ _ i
    have scaled : (parties.mapM fun i => sh.mulc (f i) c) =
        .ok (parties.map fun i => ⟨(f i).share * c % sh.modulus, i⟩) :=
      mapM_ok fun i mem => by
        rw [hf.eta (known i mem)]
        exact sh.mulc_party _ _ i
    refine ⟨v, w, _, _, _, runF, runG, added, ?_, subtracted, ?_, scaled, ?_⟩
    · refine OnPolynomial.reconstruct_eq prime lt nodup known enough (hf.add hg) iq ?_
      rw [Int.cast_add, valueF, valueG, eval_add]
    · refine OnPolynomial.reconstruct_eq prime lt nodup known enough (hf.sub hg) iq ?_
      rw [Int.cast_sub, valueF, valueG, eval_sub]
    · refine OnPolynomial.reconstruct_eq prime lt nodup known enough (hf.mulc c) iq ?_
      rw [Int.cast_mul, valueF, eval_mul, eval_C, mul_comm]

/-- Three parties, of which two are enough, modulo 7. -/
def threeParties : Sharing := ⟨⟨3, 2, 7, three_parties⟩⟩

/-- The last party and the first one, at the point of the second. -/
theorem evaluation_threeParties :
    (∀ Q f, OnPolynomial threeParties.secretSharing Q f →
        (∃ v : ℤ, threeParties.secretSharing.reconstruct ([2, 0].map f) 2 = .ok v ∧ 0 ≤ v ∧
          v < threeParties.modulus ∧ (v : ZMod threeParties.secretSharing.modulus) =
            Q.eval ((2 : ℤ) : ZMod threeParties.secretSharing.modulus)) ∧
        threeParties.open ([2, 0].map f) =
          some <$> threeParties.secretSharing.reconstruct ([2, 0].map f) 0) ∧
      (∀ drawn : threeParties.secretSharing.Draw,
        (∃ Q, OnPolynomial threeParties.secretSharing Q
          (threeParties.secretSharing.rootShareOf 2 drawn.1)) ∧
        threeParties.secretSharing.reconstruct
          ([2, 0].map (threeParties.secretSharing.rootShareOf 2 drawn.1)) 2 = .ok 0) ∧
      ∀ Q R f g (c : ℤ), OnPolynomial threeParties.secretSharing Q f →
        OnPolynomial threeParties.secretSharing R g →
        ∃ v w sums differences multiples,
          threeParties.secretSharing.reconstruct ([2, 0].map f) 2 = .ok v ∧
          threeParties.secretSharing.reconstruct ([2, 0].map g) 2 = .ok w ∧
          ([2, 0].mapM fun i => threeParties.add (f i) (g i)) = .ok sums ∧
          threeParties.secretSharing.reconstruct sums 2 = .ok ((v + w) % threeParties.modulus) ∧
          ([2, 0].mapM fun i => threeParties.sub (f i) (g i)) = .ok differences ∧
          threeParties.secretSharing.reconstruct differences 2 =
            .ok ((v - w) % threeParties.modulus) ∧
          ([2, 0].mapM fun i => threeParties.mulc (f i) c) = .ok multiples ∧
          threeParties.secretSharing.reconstruct multiples 2 =
            .ok (v * c % threeParties.modulus) :=
  @evaluation threeParties (show Nat.Prime 7 by decide) (by decide) (by decide) 2 [2, 0] (by decide)
    (by decide) (by decide)

end Prism.Lockfree
