import Prism.Lib.BigEndian
import Prism.Bfibe.Scheme

/-!
The written forms of parameters and messages (`bfibe/src/export.c`).

Parameters are written as text, a line for each value and then the text of the curve. Messages are
written as bytes, with the length as the host keeps it, the least significant byte first.

* `fromString_toString`: parameters are read back, with a table for their public point.
* `fromBytes_toBytes`: a message that the parameters encrypted is read back.
-/

namespace Prism.Bfibe

open Crypto (xorBytes)
open Lib (BigEndian.ofBytes BigEndian.toBytes)

/-! ### Reading text -/

/-- The size of the buffers that lines are read into. -/
def bufferSize : ℕ := 8192

/-- `fgets`: a line with its end, or as much of it as the buffer holds. -/
def fgets (size : ℕ) (input : CString) : Option (CString × CString) :=
  if input = [] then none
  else
    let room := input.take (size - 1)
    let line := room.take ((room.takeWhile (· ≠ '\n')).length + 1)
    some (line, input.drop line.length)

theorem fgets_line {size : ℕ} {line : CString} (rest : CString) (one : '\n' ∉ line)
    (fits : line.length < size - 1) :
    fgets size (line ++ '\n' :: rest) = some (line ++ ['\n'], rest) := by
  have room : (line ++ '\n' :: rest).take (size - 1) =
      line ++ '\n' :: rest.take (size - 1 - line.length - 1) := by
    obtain ⟨more, hmore⟩ : ∃ more, size - 1 = line.length + (more + 1) :=
      ⟨size - 1 - line.length - 1, by omega⟩
    rw [hmore, List.take_length_add_append, List.take_succ_cons, Nat.add_sub_cancel_left,
      Nat.add_sub_cancel]
  have stops (tail : CString) : (line ++ '\n' :: tail).takeWhile (· ≠ '\n') = line := by
    rw [List.takeWhile_append_of_pos fun c mem => by simpa using ne_of_mem_of_not_mem mem one]
    simp
  rw [fgets, if_neg (by simp)]
  dsimp only
  rw [room, stops, List.take_length_add_append, List.take_succ_cons, List.take_zero,
    List.append_cons line '\n' rest, List.drop_left]

/-- `fscanf` with the pattern `security %hhu\n`. -/
def scanSecurity (input : CString) : Option (UInt8 × CString) :=
  if "security".toList.isPrefixOf input then
    let rest := (input.drop "security".length).dropWhile Char.isWhitespace
    let digits := rest.takeWhile Char.isDigit
    if digits = [] then none
    else some (UInt8.ofNat (digits.foldl (fun n c => 10 * n + (c.toNat - '0'.toNat)) 0),
      (rest.dropWhile Char.isDigit).dropWhile Char.isWhitespace)
  else none

/-- The line of the security level. -/
def securityLine (level : UInt8) : CString :=
  "security ".toList ++ (Nat.repr level.toNat).toList ++ ['\n']

theorem scanSecurity_line {ssl : OpenSsl} {level : UInt8} {security : BFSecurityLevel} {c : Char}
    (rest : CString) (set : setupSecurity ssl level = some security)
    (starts : c.isWhitespace = false) :
    scanSecurity (securityLine level ++ c :: rest) = some (level, c :: rest) := by
  have skipped : List.dropWhile Char.isWhitespace ('\n' :: c :: rest) = c :: rest := by
    rw [List.dropWhile_cons_of_pos (by decide), List.dropWhile_cons_of_neg (by simp [starts])]
  obtain ⟨-, rfl | rfl | rfl | rfl | rfl⟩ := setupSecurity_cases set <;>
    exact congrArg (fun rest => some (_, rest)) skipped

section

variable {G T : Type} [AddCommGroup G] [CommGroup T] {pbc : Pbc G T}

namespace BFPublicParameters

variable (params : BFPublicParameters pbc)

/-! ### Parameters -/

/-- The hash function is the one of the level, as `setup_security` sets it. -/
def Secured (ssl : OpenSsl) : Prop :=
  setupSecurity ssl params.security.level = some params.security

/-- `bf_params_to_string`. -/
def toString : CString :=
  securityLine params.security.level ++
    (pbc.elementPrint params.P ++ '\n' ::
      (pbc.elementPrint params.pPub ++ '\n' ::
        (pbc.mpzOutStr params.q ++ '\n' :: pbc.parOutStr params.pbcPar)))

/-- `bf_params_from_string`. A text with another level than 1 to 5 is read as parameters without a
hash function, with which nothing can be done: here it is not read. -/
def fromString (pbc : Pbc G T) (ssl : OpenSsl) (text : CString) :
    Option (BFPublicParameters pbc) := do
  let (level, rest) ← scanSecurity text
  let security ← setupSecurity ssl level
  let (pBuf, rest) ← fgets bufferSize rest
  let (pPubBuf, rest) ← fgets bufferSize rest
  let (q, rest) ← pbc.mpzInpStr rest
  let pbcPar ← pbc.parSetStr rest
  let P ← pbc.elementSetStr pBuf
  let pPub ← pbc.elementSetStr pPubBuf
  return { security, pbcPar, P, pPub, pPubPrecomp := pPub, q }

/-- Parameters are read back, and the table is made anew. -/
theorem fromString_toString {ssl : OpenSsl} (secured : params.Secured ssl) :
    fromString pbc ssl params.toString = some { params with pPubPrecomp := params.pPub } := by
  obtain ⟨c, line, start, starts⟩ := pbc.print_start params.P
  have line_read (P : G) (rest : CString) :
      fgets bufferSize (pbc.elementPrint P ++ '\n' :: rest) =
        some (pbc.elementPrint P ++ ['\n'], rest) :=
    fgets_line rest (pbc.print_line P) (pbc.print_short P)
  have level_read := scanSecurity_line (line ++ '\n' :: (pbc.elementPrint params.pPub ++ '\n' ::
    (pbc.mpzOutStr params.q ++ '\n' :: pbc.parOutStr params.pbcPar))) secured starts
  rw [← List.cons_append, ← start] at level_read
  simp only [fromString, toString, level_read, Option.bind_eq_bind, Option.bind_some, line_read,
    pbc.inpStr_outStr, pbc.parSetStr_outStr, pbc.setStr_print, Option.pure_def,
    show setupSecurity ssl params.security.level = some params.security from secured]

/-! ### Messages -/

/-- A `size_t` as the host keeps it. -/
def sizeBytes (n : ℕ) : Bytes := (BigEndian.toBytes n 8).reverse

/-- The `size_t` that eight bytes are. -/
def sizeFromBytes (data : Bytes) : ℕ := BigEndian.ofBytes data.reverse

theorem sizeFromBytes_sizeBytes {n : ℕ} (size : n < 2 ^ 64) :
    sizeFromBytes (sizeBytes n) = n := by
  rw [sizeFromBytes, sizeBytes, List.reverse_reverse]
  exact Lib.BigEndian.ofBytes_toBytes (by omega)

/-- `bf_message_to_bytes`. -/
def bfMessageToBytes (msg : BFMessage G) : Bytes :=
  sizeBytes msg.length ++ ([params.security.level] ++ (pbc.elementToBytes msg.U ++
    (msg.V.take params.security.hashlen ++ msg.W.take msg.length)))

/-- `bf_message_from_bytes`: nothing for another security level. -/
def bfMessageFromBytes (data : Bytes) : Option (BFMessage G) :=
  let length := sizeFromBytes (data.take 8)
  let data := data.drop 8
  if data.headD 0 ≠ params.security.level then none
  else
    let data := data.drop 1
    let U := (pbc.elementFromBytes data).1
    let data := data.drop (pbc.elementFromBytes data).2
    let V := data.take params.security.hashlen
    let data := data.drop params.security.hashlen
    some { length, U, V, W := data.take length }

/-- A message whose parts have their lengths is read back. -/
theorem fromBytes_toBytes {msg : BFMessage G} (size : msg.length < 2 ^ 64)
    (length_V : msg.V.length = params.security.hashlen) (length_W : msg.W.length = msg.length) :
    params.bfMessageFromBytes (params.bfMessageToBytes msg) = some msg := by
  have eight : (sizeBytes msg.length).length = 8 := by
    rw [sizeBytes, List.length_reverse, Lib.BigEndian.length_toBytes]
  have whole_V : msg.V.take params.security.hashlen = msg.V :=
    List.take_of_length_le length_V.le
  have whole_W : msg.W.take msg.length = msg.W := List.take_of_length_le length_W.le
  rw [bfMessageFromBytes, bfMessageToBytes, whole_V, whole_W]
  dsimp only
  rw [← eight, List.take_left, List.drop_left, sizeFromBytes_sizeBytes size, List.singleton_append,
    if_neg (by simp), List.drop_one, List.tail_cons, pbc.fromBytes_toBytes, List.drop_left,
    ← length_V, List.take_left, List.drop_left, whole_W]

/-- What is encrypted has such parts. -/
theorem fromBytes_encrypted {Q : G} {m rho : Bytes} {msg : BFMessage G} (size : m.length < 2 ^ 64)
    (fresh : rho.length = params.security.hashlen)
    (sent : params.bfEncrypt Q m (some rho) = some msg) :
    params.bfMessageFromBytes (params.bfMessageToBytes msg) = some msg := by
  obtain ⟨mask, length_mask, runs⟩ := params.security.hashToBytes_eq m.length rho
  have within := params.security.written_le m.length
  cases Option.some.inj sent
  refine params.fromBytes_toBytes size ?_ ?_
  · simp [xorBytes, fresh]
  · simp [xorBytes, runs, length_mask]
    omega

end BFPublicParameters

end

end Prism.Bfibe
