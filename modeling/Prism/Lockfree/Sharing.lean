import Prism.Crypto.Shamir

/-!
Arithmetic on shares (`prism/server/CS2/roles/lockfree/sharing.py`).

`Sharing` wraps a Shamir scheme. Its operations pass a dummy share (`x == -1`) on
instead of calculating (`dummyHandler`), and `Sharing.open` drops dummies and opens
only when at least `threshold` real shares are left.

`Sharing.Shares S t v f` is the invariant that the protocol proofs carry: the parties
in `S` hold real shares that lie on one polynomial of degree below `t` with value `v`
at zero. Each operation has one lemma that says what it returns on real shares, and
`Sharing.open_spec` says that whatever an opening returns is the shared value.
-/

namespace Prism.Lockfree

open Prism.Crypto Prism.Lib

/-- A wrapper for a secret sharing system. -/
structure Sharing where
  secretSharing : ShamirSS
deriving DecidableEq, Repr

/-- Shares of a Beaver triple. -/
structure Triple where
  a : Share
  b : Share
  c : Share
deriving DecidableEq, Repr, Inhabited

namespace Sharing

/-- A dummy share: any operation with a dummy as input outputs another dummy. -/
def dummy : Share := ⟨0, -1⟩

/-- `dummy_handler`, for one argument: missing and dummy shares give a dummy. -/
def dummyHandler (arg : Option Share) (f : Share → Py Share) : Py Share :=
  match arg with
  | none => .ok dummy
  | some s => if s.isDummy then .ok dummy else f s

variable (self : Sharing)

def nparties : ℕ := self.secretSharing.nparties
def threshold : ℕ := self.secretSharing.threshold
def modulus : ℕ := self.secretSharing.modulus

/-- `open`: `None` when fewer than `threshold` shares are real. -/
def «open» (shares : List Share) : Py (Option ℤ) :=
  let realShares := shares.filter fun share => share.x != -1
  if realShares.length < self.threshold then .ok none
  else some <$> self.secretSharing.reconstruct realShares 0

def add (a b : Option Share) : Py Share :=
  dummyHandler a fun a => dummyHandler b fun b => do
    pyAssert (a.x = b.x)
    return ⟨(a.share + b.share) % self.modulus, a.x⟩

def addc (a : Option Share) (b : ℤ) : Py Share :=
  dummyHandler a fun a => return ⟨(a.share + b) % self.modulus, a.x⟩

def sub (a b : Option Share) : Py Share :=
  dummyHandler a fun a => dummyHandler b fun b => do
    pyAssert (a.x = b.x)
    return ⟨(a.share - b.share) % self.modulus, a.x⟩

def subc (a : Option Share) (b : ℤ) : Py Share :=
  dummyHandler a fun a => return ⟨(a.share - b) % self.modulus, a.x⟩

/-- Warning: the result is a share of a higher degree than the inputs. -/
def mul (a b : Option Share) : Py Share :=
  dummyHandler a fun a => dummyHandler b fun b => do
    pyAssert (a.x = b.x)
    return ⟨(a.share * b.share) % self.modulus, a.x⟩

def mulc (a : Option Share) (b : ℤ) : Py Share :=
  dummyHandler a fun a => return ⟨(a.share * b) % self.modulus, a.x⟩

/-- `mul_ed`: combines the opened differences with a triple; a difference that could
not be opened gives a dummy. -/
def mulEd (epsilon delta : Option ℤ) (triple : Triple) : Py Share :=
  match epsilon, delta with
  | some epsilon, some delta => do
      let byEpsilon ← self.mulc triple.b epsilon
      let partialSum ← self.add triple.c byEpsilon
      let byDelta ← self.mulc triple.a delta
      let sum ← self.add partialSum byDelta
      self.addc sum (epsilon * delta)
  | _, _ => .ok dummy

/-! ### The operations on real shares -/

@[simp] theorem dummyHandler_dummy (f : Share → Py Share) :
    dummyHandler (some dummy) f = .ok dummy := rfl

/-- A share of a party is not a dummy. -/
theorem dummyHandler_party (s : ℤ) (i : ℕ) (f : Share → Py Share) :
    dummyHandler (some ⟨s, i⟩) f = f ⟨s, i⟩ := by
  have real : Share.isDummy ⟨s, i⟩ = false := by
    simp only [Share.isDummy, beq_eq_false_iff_ne]
    omega
  simp [dummyHandler, real]

variable (s u : ℤ) (i : ℕ)

@[simp] theorem add_party :
    self.add (some ⟨s, i⟩) (some ⟨u, i⟩) = .ok ⟨(s + u) % self.modulus, i⟩ := by
  simp [add, dummyHandler_party]

@[simp] theorem addc_party : self.addc (some ⟨s, i⟩) u = .ok ⟨(s + u) % self.modulus, i⟩ := by
  simp [addc, dummyHandler_party]
  rfl

@[simp] theorem sub_party :
    self.sub (some ⟨s, i⟩) (some ⟨u, i⟩) = .ok ⟨(s - u) % self.modulus, i⟩ := by
  simp [sub, dummyHandler_party]

@[simp] theorem subc_party : self.subc (some ⟨s, i⟩) u = .ok ⟨(s - u) % self.modulus, i⟩ := by
  simp [subc, dummyHandler_party]
  rfl

@[simp] theorem mul_party :
    self.mul (some ⟨s, i⟩) (some ⟨u, i⟩) = .ok ⟨(s * u) % self.modulus, i⟩ := by
  simp [mul, dummyHandler_party]

@[simp] theorem mulc_party : self.mulc (some ⟨s, i⟩) u = .ok ⟨(s * u) % self.modulus, i⟩ := by
  simp [mulc, dummyHandler_party]
  rfl

/-- A dummy on the left stays a dummy. -/
@[simp] theorem sub_dummy (b : Option Share) : self.sub (some dummy) b = .ok dummy := rfl

/-- `mul_ed` on a party's triple with both differences opened. -/
theorem mulEd_party (epsilon delta a b c : ℤ) :
    ∃ v, self.mulEd (some epsilon) (some delta) ⟨⟨a, i⟩, ⟨b, i⟩, ⟨c, i⟩⟩ = .ok ⟨v, i⟩ ∧
      (v : ZMod self.modulus) = c + b * epsilon + a * delta + epsilon * delta := by
  refine ⟨(((c + b * epsilon % self.modulus) % self.modulus + a * delta % self.modulus) %
    self.modulus + epsilon * delta) % self.modulus, ?_, ?_⟩
  · simp [mulEd]
  · simp

/-- With a difference missing, `mul_ed` gives a dummy. -/
theorem mulEd_none {epsilon delta : Option ℤ} (h : epsilon = none ∨ delta = none)
    (triple : Triple) : self.mulEd epsilon delta triple = .ok dummy := by
  rcases h with rfl | rfl
  · rfl
  · cases epsilon <;> rfl

/-- The share that `sub` computes, a dummy for a dummy on the left. -/
def subShare (s u : Share) : Share :=
  if s.isDummy then dummy else ⟨(s.share - u.share) % self.modulus, s.x⟩

/-- `sub` against a share of the same party, or of a dummy. -/
theorem sub_ok {s u : Share} (own : s.isDummy = true ∨ (s.x = u.x ∧ u.isDummy = false)) :
    self.sub s u = .ok (self.subShare s u) := by
  unfold sub subShare dummyHandler
  by_cases dummyLeft : s.isDummy = true
  · simp [dummyLeft]
  · obtain ⟨same, real⟩ := own.resolve_left dummyLeft
    simp [dummyLeft, real, same]

@[simp] theorem subShare_dummy (u : Share) : self.subShare dummy u = dummy := rfl

/-! ### Sharings held by parties -/

variable {self}

/-- The parties in `S` hold real shares of `v`, on one polynomial of degree below
`t`. -/
structure Shares (sh : Sharing) (S : Set ℕ) (t : ℕ) (v : ZMod sh.modulus)
    (f : ℕ → Share) : Prop where
  x_eq : ∀ i ∈ S, (f i).x = i
  shared : SharedBelow t 0 (point sh.modulus) S v fun i => ((f i).share : ZMod sh.modulus)

theorem Shares.eta {S : Set ℕ} {t : ℕ} {v : ZMod self.modulus} {f : ℕ → Share}
    (h : self.Shares S t v f) {i : ℕ} (hi : i ∈ S) : f i = ⟨(f i).share, i⟩ := by
  rw [← h.x_eq i hi]

theorem isDummy_eq_false {s : Share} {i : ℕ} (x_eq : s.x = i) : s.isDummy = false := by
  simp only [Share.isDummy, beq_eq_false_iff_ne, x_eq]
  omega

theorem Shares.real {S : Set ℕ} {t : ℕ} {v : ZMod self.modulus} {f : ℕ → Share}
    (h : self.Shares S t v f) {i : ℕ} (hi : i ∈ S) : (f i).isDummy = false :=
  isDummy_eq_false (h.x_eq i hi)

theorem Shares.mono {S T : Set ℕ} {t : ℕ} {v : ZMod self.modulus} {f : ℕ → Share}
    (h : self.Shares S t v f) (sub : T ⊆ S) : self.Shares T t v f :=
  ⟨fun i hi => h.x_eq i (sub hi), h.shared.mono sub⟩

/-- Local differences share the difference. -/
theorem Shares.subShare {S : Set ℕ} {t : ℕ} {v w : ZMod self.modulus} {f g : ℕ → Share}
    (hf : self.Shares S t v f) (hg : self.Shares S t w g) :
    self.Shares S t (v - w) fun i => self.subShare (f i) (g i) := by
  have value : ∀ i ∈ S, self.subShare (f i) (g i) =
      ⟨((f i).share - (g i).share) % self.modulus, i⟩ := by
    intro i hi
    unfold Sharing.subShare
    rw [hf.real hi, hf.x_eq i hi]
    rfl
  refine ⟨fun i hi => by rw [value i hi], (hf.shared.sub hg.shared).congr fun i hi => ?_⟩
  simp [value i hi]

/-- The shares that `share` hands out are held by every party. -/
theorem shares_of_share (pos : 0 < self.threshold) (value : ℤ) (drawn : self.secretSharing.Draw) :
    self.Shares { i | i < self.nparties } self.threshold value
      (self.secretSharing.shareOf value drawn.1) :=
  ⟨fun _ _ => rfl, share_sharesOf self.secretSharing pos value drawn⟩

/-- The real shares among those of a list of parties are those of the holders. -/
theorem filter_real {S : Set ℕ} [DecidablePred (· ∈ S)] {f : ℕ → Share} {is : List ℕ}
    (held : ∀ i ∈ S, (f i).x = i) (lacking : ∀ i ∈ is, i ∉ S → f i = dummy) :
    (is.map f).filter (fun share => share.x != -1) =
      (is.filter fun i => decide (i ∈ S)).map f := by
  rw [List.filter_map]
  congr 1
  refine List.filter_congr fun i mem => ?_
  by_cases hi : i ∈ S
  · have := held i hi
    simp only [Function.comp_apply, hi, decide_true, bne_iff_ne]
    omega
  · simp [lacking i mem hi, hi, dummy]

/-- Reconstruction from the shares of enough distinct parties. -/
theorem reconstruct_real (prime : self.modulus.Prime) (lt : self.nparties < self.modulus)
    {S : Set ℕ} {d : ℕ} {v : ZMod self.modulus} {f : ℕ → Share} (shares : self.Shares S d v f)
    {is : List ℕ} (held : ∀ i ∈ is, i ∈ S) (nodup : is.Nodup)
    (parties : ∀ i ∈ is, i < self.nparties) (enough : d ≤ is.length) :
    ∃ w : ℤ, self.secretSharing.reconstruct (is.map f) 0 = .ok w ∧ 0 ≤ w ∧ w < self.modulus ∧
      (w : ZMod self.modulus) = v := by
  have : Fact self.secretSharing.modulus.Prime := ⟨prime⟩
  exact reconstruct_shared lt shares.shared (fun i hi => shares.x_eq i (held i hi)) held nodup
    parties enough

/-- Opening the shares of enough distinct parties, all of them real. -/
theorem open_real (prime : self.modulus.Prime) (lt : self.nparties < self.modulus) {S : Set ℕ}
    {d : ℕ} {v : ZMod self.modulus} {f : ℕ → Share} (shares : self.Shares S d v f) {is : List ℕ}
    (held : ∀ i ∈ is, i ∈ S) (nodup : is.Nodup) (parties : ∀ i ∈ is, i < self.nparties)
    (enough : d ≤ is.length) (threshold : self.threshold ≤ is.length) :
    ∃ w : ℤ, self.open (is.map f) = .ok (some w) ∧ 0 ≤ w ∧ w < self.modulus ∧
      (w : ZMod self.modulus) = v := by
  classical
  obtain ⟨w, run, low, high, val⟩ :=
    reconstruct_real prime lt shares held nodup parties enough
  have real : (is.map f).filter (fun share => share.x != -1) = is.map f := by
    rw [filter_real shares.x_eq fun i hi lacks => absurd (held i hi) lacks,
      List.filter_eq_self.mpr fun i hi => by simpa using held i hi]
  refine ⟨w, ?_, low, high, val⟩
  unfold «open»
  simp only [real, List.length_map, not_lt.mpr threshold, if_false, run]
  rfl

/-- **Opening**: over distinct parties of which those in `S` hold shares of `v` and the
others answer with dummies, `open` raises nothing; it returns `None` when fewer than
`threshold` of them hold a share, and otherwise `v`. -/
theorem open_spec (prime : self.modulus.Prime) (lt : self.nparties < self.modulus) {S : Set ℕ}
    [DecidablePred (· ∈ S)] {v : ZMod self.modulus} {f : ℕ → Share}
    (shares : self.Shares S self.threshold v f) {is : List ℕ}
    (lacking : ∀ i ∈ is, i ∉ S → f i = dummy) (nodup : is.Nodup)
    (parties : ∀ i ∈ is, i < self.nparties) :
    if (is.filter fun i => decide (i ∈ S)).length < self.threshold then
      self.open (is.map f) = .ok none
    else ∃ w : ℤ, self.open (is.map f) = .ok (some w) ∧ 0 ≤ w ∧ w < self.modulus ∧
      (w : ZMod self.modulus) = v := by
  have real := filter_real shares.x_eq lacking
  split
  case isTrue few =>
    unfold «open»
    simp [real, few]
  case isFalse enough =>
    have held : ∀ j ∈ is.filter fun i => decide (i ∈ S), j ∈ S :=
      fun j hj => by simpa using (List.mem_filter.mp hj).2
    obtain ⟨w, run, low, high, val⟩ := reconstruct_real prime lt shares held (nodup.filter _)
      (fun j hj => parties j (List.mem_filter.mp hj).1) (not_lt.mp enough)
    refine ⟨w, ?_, low, high, val⟩
    unfold «open»
    rw [real]
    simp only [List.length_map, enough, if_false, run]
    rfl

/-- What an opening may return for the value `v`: nothing, or `v` itself in
`[0, p)`. -/
def OpensTo {p : ℕ} (opened : Option ℤ) (v : ZMod p) : Prop :=
  ∀ w, opened = some w → 0 ≤ w ∧ w < p ∧ (w : ZMod p) = v

/-- An opened integer is its residue in `[0, p)`. -/
theorem OpensTo.eq_emod {p : ℕ} {opened : Option ℤ} {v : ℤ} (h : OpensTo opened (v : ZMod p))
    {w : ℤ} (eq : opened = some w) : w = v % p := by
  obtain ⟨low, high, val⟩ := h w eq
  have mod : w % p = v % p := (ZMod.intCast_eq_intCast_iff w v p).mp val
  rwa [Int.emod_eq_of_lt low high] at mod

/-- An opening over distinct parties raises nothing and returns the shared value or
nothing, and not nothing when all of at least `threshold` parties hold a share. -/
theorem open_ok (prime : self.modulus.Prime) (lt : self.nparties < self.modulus) {S : Set ℕ}
    {v : ZMod self.modulus} {f : ℕ → Share} (shares : self.Shares S self.threshold v f)
    {is : List ℕ} (lacking : ∀ i ∈ is, i ∉ S → f i = dummy) (nodup : is.Nodup)
    (parties : ∀ i ∈ is, i < self.nparties) :
    ∃ opened, self.open (is.map f) = .ok opened ∧ OpensTo opened v ∧
      ((∀ i ∈ is, i ∈ S) → self.threshold ≤ is.length → opened ≠ none) := by
  classical
  have spec := open_spec prime lt shares lacking nodup parties
  split_ifs at spec with few
  · refine ⟨none, spec, nofun, fun all enough => absurd few ?_⟩
    rw [List.filter_eq_self.mpr fun i hi => by simpa using all i hi]
    omega
  · obtain ⟨w, run, low, high, val⟩ := spec
    refine ⟨some w, run, fun w' eq => ?_, nofun⟩
    obtain rfl := Option.some.inj eq
    exact ⟨low, high, val⟩

/-- Opening a vector of sharings, one column for each index. -/
theorem open_columns (prime : self.modulus.Prime) (lt : self.nparties < self.modulus)
    {ks : List ℕ} {S : ℕ → Set ℕ} {v : ℕ → ZMod self.modulus} {f : ℕ → ℕ → Share}
    (shares : ∀ k ∈ ks, self.Shares (S k) self.threshold (v k) fun i => f i k)
    {is : List ℕ} (lacking : ∀ k ∈ ks, ∀ i ∈ is, i ∉ S k → f i k = dummy) (nodup : is.Nodup)
    (parties : ∀ i ∈ is, i < self.nparties) :
    ∃ opened : ℕ → Option ℤ,
      (ks.map fun k => is.map fun i => f i k).mapM self.open = .ok (ks.map opened) ∧
      ∀ k ∈ ks, OpensTo (opened k) (v k) ∧
        ((∀ i ∈ is, i ∈ S k) → self.threshold ≤ is.length → opened k ≠ none) := by
  have each : ∀ k ∈ ks, ∃ opened, self.open (is.map fun i => f i k) = .ok opened ∧
      OpensTo opened (v k) ∧
      ((∀ i ∈ is, i ∈ S k) → self.threshold ≤ is.length → opened ≠ none) :=
    fun k hk => open_ok prime lt (shares k hk) (lacking k hk) nodup parties
  choose! opened run val using each
  refine ⟨opened, ?_, val⟩
  rw [List.mapM_map]
  exact mapM_ok run

end Sharing

end Prism.Lockfree
