import Prism.Lib.Pairing
import Prism.Bfibe.Hash
import Prism.Crypto.Malleable

/-!
Boneh-Franklin encryption to an identity (`bfibe/src/bfibe.c`).

The curve, the pairing and their text and byte forms are those of the PBC and GMP libraries (`Pbc`).

* `bfDecrypt_eq_iff`: with the private key that belongs to the public one, a message is decrypted
  exactly when the buffer for it has zeros where `hash_to_bytes` does not write.
-/

namespace Prism.Bfibe

open Crypto (xorBytes xorBytes_cancel)

/-- A C string, without its end. -/
abbrev CString := List Char

/-- What the PBC and GMP libraries provide: the pairing of each parameter set, with both arguments
in one group, and the forms in which elements, numbers and parameters are written. -/
structure Pbc (G T : Type) [AddCommGroup G] [CommGroup T] where
  Par : Type
  pairing : Par → Lib.Pairing G T
  elementFromHash : Par → Bytes → G
  targetToBytes : T → Bytes
  elementToBytes : G → Bytes
  elementFromBytes : Bytes → G × ℕ
  fromBytes_toBytes : ∀ P rest,
    elementFromBytes (elementToBytes P ++ rest) = (P, (elementToBytes P).length)
  elementPrint : G → CString
  elementSetStr : CString → Option G
  setStr_print : ∀ P rest, elementSetStr (elementPrint P ++ rest) = some P
  print_start : ∀ P, ∃ c line, elementPrint P = c :: line ∧ c.isWhitespace = false
  print_line : ∀ P, '\n' ∉ elementPrint P
  print_short : ∀ P, (elementPrint P).length < 8191
  mpzOutStr : ℕ → CString
  mpzInpStr : CString → Option (ℕ × CString)
  inpStr_outStr : ∀ n rest, mpzInpStr (mpzOutStr n ++ '\n' :: rest) = some (n, '\n' :: rest)
  parOutStr : Par → CString
  parSetStr : CString → Option Par
  parSetStr_outStr : ∀ par, parSetStr ('\n' :: parOutStr par) = some par

section

variable {G T : Type} [AddCommGroup G] [CommGroup T] (pbc : Pbc G T)

/-- `BFPublicParameters`. The table `pPubPrecomp` is the point it was made for. -/
structure BFPublicParameters where
  security : BFSecurityLevel
  pbcPar : pbc.Par
  P : G
  pPub : G
  pPubPrecomp : G
  q : ℕ

/-- `BFMessage`. -/
structure BFMessage (G : Type) where
  length : ℕ
  U : G
  V : Bytes
  W : Bytes

namespace BFPublicParameters

variable {pbc} (params : BFPublicParameters pbc)

/-- The pairing of the parameters. -/
def pairing : Lib.Pairing G T := pbc.pairing params.pbcPar

/-! ### Keys -/

/-- `bf_generate_shard`, with the number below `q - 2` that it draws. -/
def bfGenerateShard (drawn : ℕ) : BFPublicParameters pbc × ℕ :=
  let s := drawn + 2
  ({ params with pPub := s • params.P, pPubPrecomp := s • params.P }, s)

/-- `hash_to_point`. -/
def hashToPoint (input : Bytes) : G :=
  pbc.elementFromHash params.pbcPar (params.security.hashfcn.digest input)

/-- The bytes of a string up to its first zero, as `strlen` counts them. -/
def strBytes (identifier : Bytes) : Bytes := identifier.takeWhile (· ≠ 0)

/-- `bf_generate_public_key`. -/
def bfGeneratePublicKey (identifier : Bytes) : G := params.hashToPoint (strBytes identifier)

/-- `bf_generate_private_key`. -/
def bfGeneratePrivateKey (s : ℕ) (identifier : Bytes) : G :=
  s • params.hashToPoint (strBytes identifier)

/-! ### Messages -/

/-- The exponent of a message: a number made of the random `rho` and of the message's digest. -/
def exponent (rho m : Bytes) : ℕ :=
  params.security.hashToRange (rho ++ params.security.hashfcn.digest m) params.q

/-- `bf_encrypt`, with the outcome of `RAND_bytes`. -/
def bfEncrypt (publicKey : G) (m : Bytes) (randBytes : Option Bytes) : Option (BFMessage G) :=
  match randBytes with
  | none => none
  | some rho =>
      let l := params.exponent rho m
      let theta := params.pairing.pair params.pPubPrecomp publicKey ^ l
      let z := pbc.targetToBytes theta
      some {
        length := m.length
        U := l • params.P
        V := xorBytes (params.security.hashfcn.digest z) rho
        W := xorBytes
          (params.security.hashToBytes (List.replicate m.length 0) m.length rho) m }

/-- `bf_decrypt`: what it returns, and what it leaves in the buffer `output`. -/
def bfDecrypt [DecidableEq G] (output : Bytes) (privateKey : G) (message : BFMessage G) :
    Bool × Bytes :=
  let theta := params.pairing.pair message.U privateKey
  let z := pbc.targetToBytes theta
  let rho := xorBytes (params.security.hashfcn.digest z) message.V
  let output := xorBytes (params.security.hashToBytes output message.length rho) message.W
  let l := params.exponent rho output
  if message.U = l • params.P then (true, output)
  else (false, List.replicate message.length 0)

/-! ### Decryption -/

end BFPublicParameters

/-- A mask leaves a string as it is only if it has no bit set. -/
theorem xorBytes_eq_right {a b : Bytes} (same : a.length = b.length) :
    xorBytes a b = b ↔ ∀ x ∈ a, x = 0 := by
  induction a generalizing b with
  | nil =>
      rw [List.length_eq_zero_iff.mp same.symm]
      simp [xorBytes]
  | cons x a ih =>
      obtain _ | ⟨y, b⟩ := b
      · cases same
      · have head : x ^^^ y = y ↔ x = 0 := by
          rw [← UInt8.xor_right_inj y, ← UInt8.xor_assoc, UInt8.xor_comm y x, UInt8.xor_assoc]
          simp
        rw [xorBytes, List.zipWith_cons_cons, List.cons.injEq, List.forall_mem_cons, head]
        exact and_congr_right fun _ => ih (Nat.succ.inj same)

theorem xorBytes_append {a b c d : Bytes} (same : a.length = b.length) :
    xorBytes (a ++ c) (b ++ d) = xorBytes a b ++ xorBytes c d :=
  List.zipWith_append same

namespace BFPublicParameters

variable {pbc} (params : BFPublicParameters pbc)

/-- Where `hash_to_bytes` leaves the buffer as it is, there are zeros. -/
def Cleared (output : Bytes) : Prop :=
  ∀ b ∈ output.drop (params.security.written output.length), b = 0

/-- Two masks from one seed: XORing with both leaves the message where the seed decides them, and
elsewhere the buffer's own bytes over it. -/
theorem unmask_eq_iff {output m : Bytes} (rho : Bytes) (same : output.length = m.length) :
    xorBytes (params.security.hashToBytes output m.length rho)
        (xorBytes (params.security.hashToBytes (List.replicate m.length 0) m.length rho) m) = m ↔
      params.Cleared output := by
  obtain ⟨mask, length_mask, runs⟩ := params.security.hashToBytes_eq m.length rho
  have within := params.security.written_le m.length
  rw [Cleared, same, runs output same, runs _ List.length_replicate, List.drop_replicate]
  generalize params.security.written m.length = w at *
  obtain ⟨front, back, rfl, length_front⟩ : ∃ front back, m = front ++ back ∧ front.length = w :=
    ⟨m.take w, m.drop w, (List.take_append_drop w m).symm, by rw [List.length_take]; omega⟩
  have length_back : (front ++ back).length - w = back.length := by
    rw [List.length_append]
    omega
  have length_drop : (output.drop w).length = back.length := by
    rw [List.length_drop]
    omega
  have zeros : xorBytes (List.replicate back.length 0) back = back :=
    (xorBytes_eq_right List.length_replicate).mpr fun x mem => List.eq_of_mem_replicate mem
  rw [length_back, xorBytes_append (length_mask.trans length_front.symm), zeros,
    xorBytes_append (by simp [xorBytes, length_mask, length_front]),
    xorBytes_cancel (length_mask.trans length_front.symm), List.append_cancel_left_eq,
    xorBytes_eq_right length_drop]

/-- **Decryption.** With the private key that goes with `pPub`, for a message encrypted to the
public key: it is decrypted exactly when the buffer is cleared. -/
theorem bfDecrypt_eq_iff [DecidableEq G] {s : ℕ} {Q : G} {m rho output : Bytes}
    {message : BFMessage G} (fresh : rho.length = params.security.hashlen)
    (same : output.length = m.length)
    (mask : ∀ l, params.pairing.pair params.pPubPrecomp Q ^ l =
      params.pairing.pair (l • params.P) (s • Q))
    (sent : params.bfEncrypt Q m (some rho) = some message) :
    params.bfDecrypt output (s • Q) message = (true, m) ↔ params.Cleared output := by
  have recovered (z : Bytes) : xorBytes (params.security.hashfcn.digest z)
      (xorBytes (params.security.hashfcn.digest z) rho) = rho :=
    xorBytes_cancel ((params.security.length_digest z).trans fresh.symm)
  cases Option.some.inj sent
  rw [bfDecrypt]
  dsimp only
  rw [← mask, recovered, ← params.unmask_eq_iff rho same]
  constructor
  · intro decrypted
    split at decrypted
    · exact (Prod.mk.inj decrypted).2
    · exact absurd (Prod.mk.inj decrypted).1 Bool.false_ne_true
  · intro unmasked
    rw [unmasked, if_pos rfl]

end BFPublicParameters

end

end Prism.Bfibe
