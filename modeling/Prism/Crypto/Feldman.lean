import Mathlib.GroupTheory.OrderOfElement
import Prism.Crypto.RootPolynomial

/-!
Verifiable secret sharing (`prism/common/crypto/secretsharing/feldmans.py`).

Next to the shares, the dealer hands out commitments to the coefficients: the powers of a generator
`g` modulo `p`. A party checks its share against them. Shares are reduced modulo `q`, the order of
`g`, and commitments modulo `p`.

* `commit_ok`: a commitment is a power of `g`, for negative numbers as well.
* `verifyd_eq`: a value is accepted exactly if it is the committed polynomial's value, modulo `q`.
* `verify_shares`: the shares that are handed out with their commitments are accepted; without the
  commitments, only `verifyd` can check them.
-/

namespace Prism.Crypto

open Polynomial

/-- `pow(base, exp, mod)`: for a negative exponent, a power of the inverse. -/
def powMod (base exp mod : ℤ) : Py ℤ :=
  if 0 ≤ exp then .ok (base ^ exp.toNat % mod)
  else
    match modinv base mod with
    | .ok inv => .ok (inv ^ (-exp).toNat % mod)
    | .error _ => .error (.valueError "base is not invertible for the given modulus")

/-- A share with its commitments. -/
structure FeldmanShare where
  share : ℤ
  x : ℕ
  coeffcommits : Option (List ℤ)
  originalcommit : Option ℤ := none
deriving DecidableEq, Repr

/-- What can be shared: a number, or a share. -/
inductive Shareable where
  | secret (value : ℤ)
  | reshare (value : FeldmanShare)

/-- The coefficient of degree zero. -/
def Shareable.constant : Shareable → ℤ
  | secret value => value
  | reshare value => value.share

/-- `FeldmansVSS`, with what the constructor checks. -/
structure FeldmansVSS where
  nparties : ℕ
  threshold : ℤ
  modulus : ℕ
  p : ℕ
  g : ℤ
  parties_ge : 3 ≤ nparties
  threshold_lt : 3 * (threshold - 1) < nparties
  threshold_le : threshold ≤ nparties
  parties_le : nparties ≤ modulus

namespace FeldmansVSS

variable (vss : FeldmansVSS)

/-- `commit`. -/
def commit (value : ℤ) : Py ℤ := powMod vss.g value vss.p

/-- The loop of `verify` and `verifyd`: what a party expects its commitment to be. -/
def expected (x : ℕ) (coeffcommits : List ℤ) : ℤ :=
  coeffcommits.zipIdx.foldl (fun ref (cc, i) => ref * cc ^ (x + 1) ^ i % vss.p) 1

/-- `verifyd`. -/
def verifyd (share : ℤ) (x : ℕ) (coeffcommits : List ℤ) : Py Bool := do
  return vss.expected x coeffcommits = (← vss.commit share)

/-- `verify`: the commitments that are missing are not a list. -/
def verify (share : FeldmanShare) : Py Bool :=
  match share.coeffcommits with
  | none => .error .typeError
  | some coeffcommits => vss.verifyd share.share share.x coeffcommits

/-- `_P`. -/
def P (coeffs : List ℤ) (x : ℤ) : ℤ :=
  coeffs.zipIdx.foldl (fun y (coeff, i) => (y + coeff * x ^ i) % vss.modulus) 0

/-- The values of `randrange(1, modulus)` for the degrees from 1 on. -/
def IsDraw (drawn : List ℤ) : Prop :=
  drawn.length = (vss.threshold - 1).toNat ∧ ∀ c ∈ drawn, 1 ≤ c ∧ c < vss.modulus

instance (drawn : List ℤ) : Decidable (vss.IsDraw drawn) := by
  unfold IsDraw; infer_instance

/-- `share`. -/
def share (value : Shareable) (drawn : List ℤ) (coeffRequired : Bool) : Py (List FeldmanShare) := do
  let coeffs := value.constant :: drawn
  let first ← vss.commit value.constant
  let rest ← drawn.mapM vss.commit
  let originalcommit := match value with
    | .secret _ => some first
    | .reshare share => share.originalcommit
  return (List.range vss.nparties).map fun i : ℕ =>
    { share := vss.P coeffs (i + 1)
      x := i
      coeffcommits := if coeffRequired then some (first :: rest) else none
      originalcommit }

/-- `random_polynomial_root_at`. -/
def randomPolynomialRootAt (iq : ℤ) (drawn : List ℤ) : Py (List FeldmanShare) := do
  let coeffs := rootCoeffs vss.modulus iq drawn
  let commitcoeffs ← coeffs.mapM vss.commit
  return (List.range vss.nparties).map fun i : ℕ =>
    { share := vss.P coeffs (i + 1), x := i, coeffcommits := some commitcoeffs }

end FeldmansVSS

/-! ### Powers of the generator -/

section Powers

variable {p : ℕ} [Fact p.Prime] {u : (ZMod p)ˣ}

/-- **Modular powers**, of an invertible number. -/
theorem powMod_ok {base : ℤ} (unit : (base : ZMod p) = u) (exp : ℤ) :
    ∃ c, powMod base exp p = .ok c ∧ 0 ≤ c ∧ c < p ∧ (c : ZMod p) = (u ^ exp : (ZMod p)ˣ) := by
  have pos : (0 : ℤ) < p := by exact_mod_cast (Fact.out : p.Prime).pos
  unfold powMod
  by_cases nonneg : 0 ≤ exp
  · rw [if_pos nonneg]
    refine ⟨_, rfl, Int.emod_nonneg _ pos.ne', Int.emod_lt_of_pos _ pos, ?_⟩
    obtain ⟨n, rfl⟩ := Int.eq_ofNat_of_zero_le nonneg
    rw [ZMod.intCast_mod, Int.cast_pow, unit, Int.toNat_natCast, zpow_natCast,
      Units.val_pow_eq_pow_val]
  · have nonzero : (base : ZMod p) ≠ 0 := unit ▸ u.ne_zero
    obtain ⟨inv, run, value⟩ := modinv_prime Fact.out nonzero
    rw [if_neg nonneg, run]
    refine ⟨_, rfl, Int.emod_nonneg _ pos.ne', Int.emod_lt_of_pos _ pos, ?_⟩
    obtain ⟨n, hn⟩ := Int.eq_ofNat_of_zero_le (show 0 ≤ -exp by omega)
    rw [ZMod.intCast_mod, Int.cast_pow, value, unit, hn, Int.toNat_natCast,
      show exp = -(n : ℤ) by omega, zpow_neg, zpow_natCast, inv_pow, Units.val_inv_eq_inv_val,
      Units.val_pow_eq_pow_val]

/-- Residues that are equal, of numbers below the modulus. -/
theorem eq_of_residues {m : ℕ} {a b : ℤ} (low : 0 ≤ a) (high : a < m) (low' : 0 ≤ b)
    (high' : b < m) : a = b ↔ (a : ZMod m) = b := by
  rw [ZMod.intCast_eq_intCast_iff', Int.emod_eq_of_lt low high, Int.emod_eq_of_lt low' high']

/-- **Loop invariant of the check**: the product is the power of the generator with the value of the
coefficients seen so far. -/
theorem expected_loop {q : ℕ} {com : ℤ → ℤ} {coeffs : List ℤ}
    (committed : ∀ c ∈ coeffs, (com c : ZMod p) = (u ^ c : (ZMod p)ˣ)) (y k : ℕ) (ref : ℤ) :
    ∃ e : ℤ, ((((coeffs.map com).zipIdx k).foldl
        (fun ref (cc, i) => ref * cc ^ y ^ i % (p : ℤ)) ref : ℤ) : ZMod p) =
        ref * (u ^ e : (ZMod p)ˣ) ∧
      (e : ZMod q) = (y : ZMod q) ^ k * (coeffPoly q coeffs).eval (y : ZMod q) := by
  induction coeffs generalizing k ref with
  | nil => exact ⟨0, by simp, by simp [coeffPoly]⟩
  | cons c coeffs ih =>
      obtain ⟨here, later⟩ := List.forall_mem_cons.mp committed
      obtain ⟨e, product, value⟩ := ih later (k + 1) (ref * com c ^ y ^ k % p)
      refine ⟨c * y ^ k + e, ?_, ?_⟩
      · rw [List.map_cons, List.zipIdx_cons, List.foldl_cons, product, ZMod.intCast_mod,
          Int.cast_mul, Int.cast_pow, here, zpow_add, Units.val_mul, mul_assoc]
        congr 2
        rw [zpow_mul, ← Units.val_pow_eq_pow_val, ← zpow_natCast, Nat.cast_pow]
      · push_cast [value]
        simp only [coeffPoly, eval_add, eval_C, eval_mul, eval_X]
        ring

end Powers

/-! ### The check -/

namespace FeldmansVSS

variable {vss : FeldmansVSS}

/-- `_P` evaluates the polynomial. -/
theorem P_spec (pos : 0 < vss.modulus) (coeffs : List ℤ) (x : ℤ) :
    0 ≤ vss.P coeffs x ∧ vss.P coeffs x < vss.modulus ∧
      ((vss.P coeffs x : ℤ) : ZMod vss.modulus) =
        (coeffPoly vss.modulus coeffs).eval (x : ZMod vss.modulus) := by
  have cast := P_loop vss.modulus x coeffs 0 0
  rw [pow_zero, one_mul, Int.cast_zero, zero_add] at cast
  have range := P_loop_range pos x coeffs
  exact ⟨range.1, range.2, cast⟩

/-- What is handed out, once the coefficients are committed to. -/
theorem share_ok {value : Shareable} {drawn rest : List ℤ} {first : ℤ}
    (constant : vss.commit value.constant = .ok first) (others : drawn.mapM vss.commit = .ok rest)
    (coeffRequired : Bool) :
    ∃ originalcommit, vss.share value drawn coeffRequired =
      .ok ((List.range vss.nparties).map fun i : ℕ =>
        ⟨vss.P (value.constant :: drawn) (i + 1), i,
          if coeffRequired then some (first :: rest) else none, originalcommit⟩) := by
  rw [share, constant, ok_bind, others, ok_bind]
  exact ⟨_, rfl⟩

section Order

variable (prime_p : vss.p.Prime) (prime_q : vss.modulus.Prime)
  (order : orderOf (vss.g : ZMod vss.p) = vss.modulus)

include prime_q order in
/-- The generator is invertible. -/
theorem exists_unit : ∃ u : (ZMod vss.p)ˣ, (vss.g : ZMod vss.p) = u ∧ orderOf u = vss.modulus := by
  have power : (vss.g : ZMod vss.p) ^ vss.modulus = 1 := order ▸ pow_orderOf_eq_one _
  refine ⟨Units.ofPowEqOne _ _ power prime_q.ne_zero, rfl, ?_⟩
  rw [← orderOf_units]
  exact order

include prime_p prime_q order

/-- **Commitments** never raise. -/
theorem commit_ok : ∃ (u : (ZMod vss.p)ˣ) (com : ℤ → ℤ), orderOf u = vss.modulus ∧
    ∀ v, vss.commit v = .ok (com v) ∧ 0 ≤ com v ∧ com v < vss.p ∧
      (com v : ZMod vss.p) = (u ^ v : (ZMod vss.p)ˣ) := by
  have : Fact vss.p.Prime := ⟨prime_p⟩
  obtain ⟨u, unit, orderU⟩ := exists_unit prime_q order
  choose com run low high value using fun v => powMod_ok unit v
  exact ⟨u, com, orderU, fun v => ⟨run v, low v, high v, value v⟩⟩

/-- **The check is exact**: a value is accepted exactly if it is that of the committed polynomial,
modulo the order. -/
theorem verifyd_eq (coeffs : List ℤ) :
    ∃ commits, coeffs.mapM vss.commit = .ok commits ∧ ∀ (x : ℕ) (v : ℤ),
      vss.verifyd v x commits = .ok (decide ((v : ZMod vss.modulus) =
        (coeffPoly vss.modulus coeffs).eval ((x + 1 : ℕ) : ZMod vss.modulus))) := by
  have : Fact vss.p.Prime := ⟨prime_p⟩
  obtain ⟨u, com, orderU, committed⟩ := commit_ok prime_p prime_q order
  refine ⟨coeffs.map com, mapM_ok fun c _ => (committed c).1, fun x v => ?_⟩
  obtain ⟨e, product, value⟩ := @expected_loop vss.p _ u vss.modulus com coeffs
    (fun c _ => (committed c).2.2.2) (x + 1) 0 1
  rw [Int.cast_one, one_mul] at product
  rw [pow_zero, one_mul] at value
  obtain ⟨run, low, high, power⟩ := committed v
  have range : 0 ≤ vss.expected x (coeffs.map com) ∧
      vss.expected x (coeffs.map com) < vss.p := by
    have pos : (0 : ℤ) < vss.p := by exact_mod_cast prime_p.pos
    unfold expected
    induction coeffs.map com using List.reverseRecOn with
    | nil => simpa using prime_p.one_lt
    | append_singleton commits cc _ =>
        rw [List.zipIdx_append, List.foldl_append]
        exact ⟨Int.emod_nonneg _ pos.ne', Int.emod_lt_of_pos _ pos⟩
  have same : vss.expected x (coeffs.map com) = com v ↔ (v : ZMod vss.modulus) =
      (coeffPoly vss.modulus coeffs).eval ((x + 1 : ℕ) : ZMod vss.modulus) := by
    have product' : (vss.expected x (coeffs.map com) : ZMod vss.p) = (u ^ e : (ZMod vss.p)ˣ) :=
      product
    rw [eq_of_residues range.1 range.2 low high, product', power, Units.val_inj,
      zpow_eq_zpow_iff_modEq, orderU, ← ZMod.intCast_eq_intCast_iff, value, eq_comm]
  rw [verifyd, run, ok_bind]
  exact congrArg Except.ok (decide_eq_decide.mpr same)

/-- The value of the polynomial itself is accepted. -/
theorem verifyd_P {coeffs commits : List ℤ} (committed : coeffs.mapM vss.commit = .ok commits)
    (i : ℕ) : vss.verifyd (vss.P coeffs (i + 1)) i commits = .ok true := by
  obtain ⟨commits', committed', exact⟩ := verifyd_eq prime_p prime_q order coeffs
  obtain rfl := Except.ok.inj (committed.symm.trans committed')
  have value := (P_spec prime_q.pos coeffs (i + 1)).2.2
  rw [exact, decide_eq_true]
  rw [value]
  push_cast
  rfl

/-- **Shares are verified**: those that are handed out with their commitments, and by `verifyd` those
that are handed out without. -/
theorem verify_shares (value : Shareable) (drawn : List ℤ) :
    ∃ commits, (value.constant :: drawn).mapM vss.commit = .ok commits ∧
      (∃ shares, vss.share value drawn true = .ok shares ∧
        ∀ s ∈ shares, vss.verify s = .ok true) ∧
      ∃ shares, vss.share value drawn false = .ok shares ∧
        ∀ s ∈ shares, vss.verify s = .error .typeError ∧
          vss.verifyd s.share s.x commits = .ok true := by
  obtain ⟨commits, committed, -⟩ := verifyd_eq prime_p prime_q order (value.constant :: drawn)
  have accepted := verifyd_P prime_p prime_q order committed
  rw [List.mapM_cons] at committed
  obtain ⟨first, constant, committed⟩ := bind_eq_ok.mp committed
  obtain ⟨rest, others, committed⟩ := bind_eq_ok.mp committed
  obtain rfl := Except.ok.inj committed
  obtain ⟨original, shared⟩ := share_ok constant others true
  obtain ⟨original', bare⟩ := share_ok constant others false
  refine ⟨first :: rest, ?_, ⟨_, shared, ?_⟩, _, bare, ?_⟩
  · rw [List.mapM_cons, constant, ok_bind, others]
    rfl
  · intro s mem
    obtain ⟨i, -, rfl⟩ := List.mem_map.mp mem
    exact accepted i
  · intro s mem
    obtain ⟨i, -, rfl⟩ := List.mem_map.mp mem
    exact ⟨rfl, accepted i⟩

/-- Shares of a polynomial with a root are verified. -/
theorem verify_rootShares (iq : ℤ) (drawn : List ℤ) :
    ∃ shares, vss.randomPolynomialRootAt iq drawn = .ok shares ∧
      ∀ s ∈ shares, vss.verify s = .ok true := by
  obtain ⟨commits, committed, -⟩ := verifyd_eq prime_p prime_q order
    (rootCoeffs vss.modulus iq drawn)
  unfold randomPolynomialRootAt
  dsimp only
  rw [committed, ok_bind]
  refine ⟨_, rfl, fun s mem => ?_⟩
  obtain ⟨i, -, rfl⟩ := List.mem_map.mp mem
  exact verifyd_P prime_p prime_q order committed i

/-- **Verification is complete and sound.** -/
theorem verification_exact :
    (∀ value drawn, vss.IsDraw drawn →
      ∃ commits, (value.constant :: drawn).mapM vss.commit = .ok commits ∧
        (∃ shares, vss.share value drawn true = .ok shares ∧
          ∀ s ∈ shares, vss.verify s = .ok true) ∧
        ∃ shares, vss.share value drawn false = .ok shares ∧
          ∀ s ∈ shares, vss.verify s = .error .typeError ∧
            vss.verifyd s.share s.x commits = .ok true) ∧
      (∀ iq drawn, vss.IsDraw drawn → ∃ shares, vss.randomPolynomialRootAt iq drawn = .ok shares ∧
        ∀ s ∈ shares, vss.verify s = .ok true) ∧
      ∀ coeffs, ∃ commits, coeffs.mapM vss.commit = .ok commits ∧
        ∀ (x : ℕ) (v : ℤ), 0 ≤ v → v < vss.modulus → ∀ originalcommit,
          vss.verify ⟨v, x, some commits, originalcommit⟩ = vss.verifyd v x commits ∧
          vss.verifyd v x commits = .ok (decide ((v : ZMod vss.modulus) =
            (coeffPoly vss.modulus coeffs).eval ((x + 1 : ℕ) : ZMod vss.modulus))) := by
  refine ⟨fun value drawn _ => verify_shares prime_p prime_q order value drawn,
    fun iq drawn _ => verify_rootShares prime_p prime_q order iq drawn, fun coeffs => ?_⟩
  obtain ⟨commits, committed, exact⟩ := verifyd_eq prime_p prime_q order coeffs
  exact ⟨commits, committed, fun x v _ _ _ => ⟨rfl, exact x v⟩⟩

end Order

/-- Four parties, and the powers of 3 modulo 11. -/
def example11 : FeldmansVSS where
  nparties := 4
  threshold := 2
  modulus := 5
  p := 11
  g := 3
  parties_ge := four_parties
  threshold_lt := by decide
  threshold_le := by decide
  parties_le := by decide

theorem orderOf_example11 : orderOf (example11.g : ZMod example11.p) = example11.modulus := by
  have prime : Fact (Nat.Prime 5) := ⟨by decide⟩
  exact @orderOf_eq_prime (ZMod 11) _ 3 5 prime (by decide) (by decide)

/-- Its shares. -/
theorem example11_exact :
    (∀ value drawn, example11.IsDraw drawn →
      ∃ commits, (value.constant :: drawn).mapM example11.commit = .ok commits ∧
        (∃ shares, example11.share value drawn true = .ok shares ∧
          ∀ s ∈ shares, example11.verify s = .ok true) ∧
        ∃ shares, example11.share value drawn false = .ok shares ∧
          ∀ s ∈ shares, example11.verify s = .error .typeError ∧
            example11.verifyd s.share s.x commits = .ok true) ∧
      (∀ iq drawn, example11.IsDraw drawn →
        ∃ shares, example11.randomPolynomialRootAt iq drawn = .ok shares ∧
          ∀ s ∈ shares, example11.verify s = .ok true) ∧
      ∀ coeffs, ∃ commits, coeffs.mapM example11.commit = .ok commits ∧
        ∀ (x : ℕ) (v : ℤ), 0 ≤ v → v < example11.modulus → ∀ originalcommit,
          example11.verify ⟨v, x, some commits, originalcommit⟩ =
            example11.verifyd v x commits ∧
          example11.verifyd v x commits = .ok (decide ((v : ZMod example11.modulus) =
            (coeffPoly example11.modulus coeffs).eval
              ((x + 1 : ℕ) : ZMod example11.modulus))) :=
  verification_exact (by decide +kernel) (by decide +kernel) orderOf_example11

/-- A share without its commitments is not verified. -/
theorem bare_share_raises :
    Nat.Prime example11.p ∧ Nat.Prime example11.modulus ∧
      orderOf (example11.g : ZMod example11.p) = example11.modulus ∧ example11.IsDraw [1] ∧
      ∃ shares s, example11.share (.secret 2) [1] false = .ok shares ∧ s ∈ shares ∧
        example11.verify s = .error .typeError :=
  ⟨by decide +kernel, by decide +kernel, orderOf_example11, by decide,
    _, ⟨3, 0, none, some 9⟩, rfl, by decide +kernel, rfl⟩

end FeldmansVSS

end Prism.Crypto
