import Prism.Bfibe.Shards

/-!
Generated IBE systems and the file they are kept in (`prism/config/ibe/generated.py`,
`prism/common/crypto/ibe/boneh_franklin.py`).

A system is generated with some shards, and is saved if there is a path. Another run finds the file
and loads the shards from it. What is written is the folded parameters, the parameters of the
shards, and their secrets. The secrets are written under another name than they are read by.

* `create_new`: with a shard and a level between 1 and 5, a system is generated and saved.
* `reload_raises`: no system that was saved is loaded.
-/

namespace Prism.Config

open Bfibe BFPublicParameters

/-- The text of secrets, as GMP writes and reads it. -/
structure SecretText where
  getStr : ℕ → CString
  setStr : CString → Option ℕ
  set_get : ∀ s, setStr (getStr s) = some s

/-- What is found under a key of the file. -/
inductive SavedField where
  | text (text : Option CString)
  | texts (texts : List CString)

/-- The file: a JSON object. -/
abbrev SavedSystem := List (String × SavedField)

/-- `j[key]`, of a list. -/
def SavedSystem.texts (saved : SavedSystem) (key : String) : Py (List CString) :=
  match saved.lookup key with
  | some (.texts texts) => .ok texts
  | some (.text _) => .error .typeError
  | none => .error .keyError

section

variable {G T : Type} [AddCommGroup G] [CommGroup T] (pbc : Pbc G T)

/-- A `BonehFranklin` that generates keys. -/
structure BonehFranklin where
  params : BFPublicParameters pbc
  secret : ℕ

/-- What a new system is drawn from: the curve, the elements for the generator, and the numbers of
the secrets. -/
structure SystemDraws where
  pbcPar : pbc.Par
  q : ℕ
  h : ℕ
  elements : List G
  drawn : ℕ
  shardDrawn : ℕ → ℕ

/-- `GeneratedIBE`. -/
structure GeneratedIBE where
  shards : ℕ
  ibeShards : List (BonehFranklin pbc)
  publicParamShards : List CString
  publicParams : Option CString
  ibeSecrets : List CString

variable {pbc} (ssl : OpenSsl) (gmp : SecretText)

namespace BonehFranklin

/-- `public_params`. -/
def publicParams (self : BonehFranklin pbc) : CString := self.params.toString

/-- `system_secret`. -/
def systemSecret (self : BonehFranklin pbc) : CString := gmp.getStr self.secret

/-- The words of a line. -/
def words (line : CString) : List CString :=
  (line.splitBy fun a b => a.isWhitespace == b.isWhitespace).filter fun word =>
    !(word.any Char.isWhitespace)

/-- `security_level`: the second word of the first line. -/
def securityLevel (self : BonehFranklin pbc) : Py ℤ :=
  match words (self.publicParams.takeWhile (· ≠ '\n')) with
  | _ :: level :: _ =>
    if level.all Char.isDigit then
      .ok (level.foldl (fun n c => 10 * n + (c.toNat - '0'.toNat : ℕ)) 0)
    else .error (.valueError "invalid literal for int() with base 10")
  | _ => .error .indexError

/-- `_parse_public_params`. A text that is none leaves them unset, which no caller looks at. -/
def parsePublicParams (text : CString) : Py (BFPublicParameters pbc) :=
  match fromString pbc ssl text with
  | some params => .ok params
  | none => .error (.runtimeError "parameters are not set")

/-- `add_public`. -/
def addPublic (system1 system2 : Option CString) : Py (Option CString) :=
  match system1, system2 with
  | some system1, some system2 => do
    let p1 : BFPublicParameters pbc ← parsePublicParams ssl system1
    let p2 ← parsePublicParams ssl system2
    return (BFPublicParameters.addPublic ssl p1 p2).map BFPublicParameters.toString
  | _, _ => .error .attributeError

/-- `sum_public`. -/
def sumPublic (pbc : Pbc G T) (ssl : OpenSsl) : List CString → Py (Option CString)
  | [] => .error .typeError
  | first :: rest => (rest.map some).foldlM (@addPublic _ _ _ _ pbc ssl) (some first)

/-- `generate`. -/
def generate [DecidableEq G] (securityLevel : ℤ) (draws : SystemDraws pbc) :
    Py (BonehFranklin pbc) :=
  if 1 ≤ securityLevel ∧ securityLevel < 6 then
    match bfSetup ssl (UInt8.ofNat securityLevel.toNat) draws.pbcPar draws.q draws.h draws.elements
      draws.drawn with
    | some (params, secret) => .ok ⟨params, secret⟩
    | none => .error (.runtimeError "no generator")
  else .error (.valueError "Valid security levels are in the range [1,5].")

/-- `generate_shard`. -/
def generateShard (base : BonehFranklin pbc) (drawn : ℕ) : Py (BonehFranklin pbc) :=
  match base.params.generateShard ssl drawn with
  | some (params, secret) => .ok ⟨params, secret⟩
  | none => .error (.runtimeError "parameters are not set")

/-- `load_generator`. -/
def loadGenerator (paramsStr secretStr : CString) : Py (BonehFranklin pbc) := do
  let params ← parsePublicParams ssl paramsStr
  match gmp.setStr secretStr with
  | some secret => return ⟨params, secret⟩
  | none => throw (.runtimeError "the secret is not set")

end BonehFranklin

namespace GeneratedIBE

/-- What is saved. -/
def saved (publicParams : Option CString) (ibeShards : List (BonehFranklin pbc)) : SavedSystem :=
  [("public_params", .text publicParams),
    ("public_param_shards", .texts (ibeShards.map BonehFranklin.publicParams)),
    ("system_secret", .texts (ibeShards.map (BonehFranklin.systemSecret gmp)))]

/-- The file at the path, if there is a path, and if there is a file. -/
abbrev PathFile := Option (Option SavedSystem)

/-- `GeneratedIBE.generate`: the shards, and the file afterwards. -/
def generate [DecidableEq G] (file : PathFile) (shards : ℕ) (securityLevel : ℤ)
    (draws : SystemDraws pbc) : Py (List (BonehFranklin pbc) × PathFile) :=
  match file with
  | some (some j) => do
    let paramShards ← j.texts "public_param_shards"
    let secretShards ← j.texts "ibe_secrets"
    let ibeShards ← (paramShards.zip secretShards).mapM fun (paramShard, secretShard) =>
      BonehFranklin.loadGenerator ssl gmp paramShard secretShard
    return (ibeShards, file)
  | _ => do
    let baseIbe ← BonehFranklin.generate ssl securityLevel draws
    let ibeShards ← (List.range shards).mapM fun i =>
      baseIbe.generateShard ssl (draws.shardDrawn i)
    let publicParams ← BonehFranklin.sumPublic pbc ssl (ibeShards.map BonehFranklin.publicParams)
    return (ibeShards, file.map fun _ => some (saved gmp publicParams ibeShards))

/-- `GeneratedIBE(shards, path, requested_security)`: the system, and the file afterwards. -/
def create [DecidableEq G] (file : PathFile) (shards : ℕ) (requestedSecurity : ℤ)
    (draws : SystemDraws pbc) : Py (GeneratedIBE pbc × PathFile) := do
  let (ibeShards, file) ← generate ssl gmp file shards requestedSecurity draws
  let publicParamShards := ibeShards.map BonehFranklin.publicParams
  let publicParams ← BonehFranklin.sumPublic pbc ssl publicParamShards
  let first ← pyIndex ibeShards 0
  let securityLevel ← first.securityLevel
  if requestedSecurity > securityLevel then
    throw (.configError s!"Loaded IBE system below requested security level ({requestedSecurity})")
  else
    return ({
      shards
      ibeShards
      publicParamShards
      publicParams
      ibeSecrets := ibeShards.map (BonehFranklin.systemSecret gmp) }, file)

/-- `private_key`. -/
def privateKey (self : GeneratedIBE pbc) (name : Bytes) : Py CString :=
  match self.ibeShards.map fun shard => shard.params.generatePrivateKey shard.secret name with
  | [] => .error .typeError
  | first :: rest => .ok (sumSecrets pbc first rest)

/-! ### Generating -/

variable {ssl gmp}

/-- The level of parameters is found in their text. -/
theorem securityLevel_eq {self : BonehFranklin pbc} (secured : self.params.Secured ssl) :
    self.securityLevel = .ok self.params.security.level.toNat := by
  obtain ⟨-, level⟩ := setupSecurity_cases
    (show setupSecurity ssl self.params.security.level = some self.params.security from secured)
  have line : ∀ n : UInt8, (n = 1 ∨ n = 2 ∨ n = 3 ∨ n = 4 ∨ n = 5) → ∀ rest : CString,
      (match BonehFranklin.words ((securityLine n ++ rest).takeWhile (· ≠ '\n')) with
        | _ :: level :: _ =>
          if level.all Char.isDigit then
            .ok (level.foldl (fun n c => 10 * n + (c.toNat - '0'.toNat : ℕ)) 0)
          else .error (.valueError "invalid literal for int() with base 10")
        | _ => .error .indexError : Py ℤ) = .ok n.toNat := by
    rintro n (rfl | rfl | rfl | rfl | rfl) rest <;> rfl
  exact line _ level _

/-- The folded parameters of shards of one system. -/
theorem sumPublic_texts {params : BFPublicParameters pbc} (secured : params.Secured ssl) (s : ℕ)
    (secrets : List ℕ) :
    BonehFranklin.sumPublic pbc ssl
        ((s :: secrets).map fun s => (params.withSecret s).toString) =
      .ok (some (params.withSecret (s + secrets.sum)).toString) := by
  have read : ∀ s, @BonehFranklin.parsePublicParams _ _ _ _ pbc ssl
      (params.withSecret s).toString = .ok (params.withSecret s) := fun s => by
    have copied := copyParams_withSecret secured s
    rw [copyParams] at copied
    rw [BonehFranklin.parsePublicParams, copied]
  rw [List.map_cons, BonehFranklin.sumPublic]
  induction secrets generalizing s with
  | nil => rfl
  | cons s' secrets ih =>
      have added : @BonehFranklin.addPublic _ _ _ _ pbc ssl
          (some (params.withSecret s).toString) (some (params.withSecret s').toString) =
          .ok (some (params.withSecret (s + s')).toString) := by
        rw [BonehFranklin.addPublic, read, ok_bind, read, ok_bind, addPublic_eq secured]
        rfl
      rw [List.map_cons, List.map_cons, List.foldlM_cons, added, ok_bind, ih, List.sum_cons,
        Nat.add_assoc]

variable [DecidableEq G]

/-- **A new system** has the level that was asked for. -/
theorem generate_secured {level : ℤ} {draws : SystemDraws pbc} {base : BonehFranklin pbc}
    (made : BonehFranklin.generate ssl level draws = .ok base) :
    base.params.Secured ssl ∧ (base.params.security.level.toNat : ℤ) = level := by
  unfold BonehFranklin.generate at made
  split_ifs at made with range
  cases setup : bfSetup ssl (UInt8.ofNat level.toNat) draws.pbcPar draws.q draws.h draws.elements
      draws.drawn with
  | none =>
      rw [setup] at made
      cases made
  | some drawn =>
      rw [setup] at made
      obtain rfl := Except.ok.inj made
      unfold bfSetup at setup
      obtain ⟨security, set, setup⟩ := Option.bind_eq_some_iff.mp setup
      obtain ⟨P, -, setup⟩ := Option.bind_eq_some_iff.mp setup
      obtain rfl := Option.some.inj setup
      have same := (setupSecurity_cases set).1
      refine ⟨?_, ?_⟩
      · change setupSecurity ssl security.level = some security
        rw [same, set]
      · change (security.level.toNat : ℤ) = level
        rw [same, UInt8.toNat_ofNat']
        omega

/-- **A system is generated and saved**, with a shard at least. -/
theorem create_new {shards : ℕ} (pos : 1 ≤ shards) {level : ℤ} {draws : SystemDraws pbc}
    {base : BonehFranklin pbc} (made : BonehFranklin.generate ssl level draws = .ok base) :
    ∃ first, create ssl gmp (some none) shards level draws =
        .ok (first, some (some (saved gmp first.publicParams first.ibeShards))) ∧
      first.ibeShards.length = shards := by
  obtain ⟨secured, sameLevel⟩ := generate_secured made
  obtain ⟨more, rfl⟩ := Nat.exists_eq_add_of_le' pos
  let secrets := (List.range (more + 1)).map fun i => draws.shardDrawn i + 2
  let shard : ℕ → BonehFranklin pbc := fun s => ⟨base.params.withSecret s, s⟩
  have sharded : ((List.range (more + 1)).mapM fun i =>
      base.generateShard ssl (draws.shardDrawn i)) = .ok (secrets.map shard) := by
    rw [List.map_map]
    refine mapM_ok fun i _ => ?_
    rw [BonehFranklin.generateShard, generateShard_eq secured]
    rfl
  obtain ⟨s, rest, listed⟩ : ∃ s rest, secrets = s :: rest :=
    ⟨_, _, by
      change (List.range (more + 1)).map _ = _
      rw [List.range_succ_eq_map, List.map_cons]⟩
  have texts : (secrets.map shard).map BonehFranklin.publicParams =
      (s :: rest).map fun s => (base.params.withSecret s).toString := by
    rw [listed, List.map_map]
    rfl
  have folded := sumPublic_texts secured s rest
  have generated : generate ssl gmp (some none) (more + 1) level draws =
      .ok (secrets.map shard, some (some (saved gmp
        (some (base.params.withSecret (s + rest.sum)).toString) (secrets.map shard)))) := by
    unfold generate
    dsimp only
    rw [made, ok_bind, sharded, ok_bind, texts, folded]
    rfl
  have front : pyIndex (secrets.map shard) 0 = .ok (shard s) := by
    rw [listed]
    rfl
  have ownLevel : (shard s).securityLevel = .ok level := by
    have secured' : (shard s).params.Secured ssl := secured
    rw [securityLevel_eq secured', ← sameLevel]
    rfl
  refine ⟨{
    shards := more + 1
    ibeShards := secrets.map shard
    publicParamShards := (secrets.map shard).map BonehFranklin.publicParams
    publicParams := some (base.params.withSecret (s + rest.sum)).toString
    ibeSecrets := (secrets.map shard).map (BonehFranklin.systemSecret gmp) }, ?_, ?_⟩
  · rw [create, generated, ok_bind]
    dsimp only
    rw [texts, folded, ok_bind, front, ok_bind, ownLevel, ok_bind, if_neg (lt_irrefl _), ← texts]
    rfl
  · simp [secrets]

/-- **What a system is** that was created where there was no file: shards of one system, in which
the parameters and the private keys add up to those of one secret. -/
theorem shards_of_create {shards : ℕ} {level : ℤ} {draws : SystemDraws pbc}
    {first : GeneratedIBE pbc} {file : PathFile}
    (created : create ssl gmp (some none) shards level draws = .ok (first, file)) :
    ∃ (base : BFPublicParameters pbc) (s : ℕ) (rest : List ℕ), base.Secured ssl ∧
      first.ibeShards = (s :: rest).map (fun s => ⟨base.withSecret s, s⟩) ∧
      first.ibeShards.length = shards ∧
      first.publicParams = some (base.withSecret (s + rest.sum)).toString := by
  obtain ⟨⟨ibeShards, written⟩, generated, created⟩ := bind_eq_ok.mp created
  obtain ⟨publicParams, folded, created⟩ := bind_eq_ok.mp created
  obtain ⟨front, -, created⟩ := bind_eq_ok.mp created
  obtain ⟨ownLevel, -, created⟩ := bind_eq_ok.mp created
  split_ifs at created
  obtain ⟨rfl, rfl⟩ := Prod.mk.inj (Except.ok.inj created)
  unfold generate at generated
  dsimp only at generated
  obtain ⟨base, made, generated⟩ := bind_eq_ok.mp generated
  obtain ⟨drawn, sharded, generated⟩ := bind_eq_ok.mp generated
  obtain ⟨summed, -, generated⟩ := bind_eq_ok.mp generated
  obtain ⟨rfl, -⟩ := Prod.mk.inj (Except.ok.inj generated)
  have secured := (generate_secured made).1
  let secrets := (List.range shards).map fun i => draws.shardDrawn i + 2
  have listed : drawn = secrets.map fun s => ⟨base.params.withSecret s, s⟩ := by
    refine Except.ok.inj (sharded.symm.trans ?_)
    rw [List.map_map]
    refine mapM_ok fun i _ => ?_
    rw [BonehFranklin.generateShard, generateShard_eq secured]
    rfl
  have length : drawn.length = shards := by simp [listed, secrets]
  cases which : secrets with
  | nil =>
      rw [listed, which] at folded
      cases folded
  | cons s rest =>
      rw [which] at listed
      refine ⟨base.params, s, rest, secured, listed, length, ?_⟩
      have texts : drawn.map BonehFranklin.publicParams =
          (s :: rest).map fun s => (base.params.withSecret s).toString := by
        rw [listed, List.map_map]
        rfl
      rw [texts, sumPublic_texts secured] at folded
      exact (Except.ok.inj folded).symm

/-- What a system that was created writes, where there was no file: its own parameters, and its own
shards. -/
theorem file_of_create {shards : ℕ} {level : ℤ} {draws : SystemDraws pbc}
    {first : GeneratedIBE pbc} {file : PathFile}
    (created : create ssl gmp (some none) shards level draws = .ok (first, file)) :
    file = some (some (saved gmp first.publicParams first.ibeShards)) := by
  obtain ⟨⟨ibeShards, written⟩, generated, created⟩ := bind_eq_ok.mp created
  obtain ⟨publicParams, folded, created⟩ := bind_eq_ok.mp created
  obtain ⟨shard, -, created⟩ := bind_eq_ok.mp created
  obtain ⟨ownLevel, -, created⟩ := bind_eq_ok.mp created
  have same : written = some (some (saved gmp publicParams ibeShards)) := by
    unfold generate at generated
    dsimp only at generated
    obtain ⟨base, -, generated⟩ := bind_eq_ok.mp generated
    obtain ⟨drawn, -, generated⟩ := bind_eq_ok.mp generated
    obtain ⟨summed, folded', generated⟩ := bind_eq_ok.mp generated
    obtain ⟨rfl, rfl⟩ := Prod.mk.inj (Except.ok.inj generated)
    obtain rfl := Except.ok.inj (folded'.symm.trans folded)
    rfl
  split_ifs at created
  obtain ⟨rfl, rfl⟩ := Prod.mk.inj (Except.ok.inj created)
  exact same

/-! ### Loading -/

/-- Two systems have the same shards, secrets and folded parameters, and the same private key for
every name. -/
structure SameSystem (first second : GeneratedIBE pbc) : Prop where
  publicParamShards : second.publicParamShards = first.publicParamShards
  ibeSecrets : second.ibeSecrets = first.ibeSecrets
  publicParams : second.publicParams = first.publicParams
  privateKey : ∀ name, second.privateKey name = first.privateKey name

/-- What is to come of a second construction: the first system, or the error for a level that is
too low. -/
def Reloads (first : GeneratedIBE pbc) (stored requested : ℤ) :
    Py (GeneratedIBE pbc × PathFile) → Prop
  | .ok (second, _) => SameSystem first second
  | .error (.configError _) => stored < requested
  | .error _ => False

/-- **No saved system is loaded.** Whatever was created and saved, the second construction looks
for secrets under a name that the first did not write. -/
theorem reload_raises {shards : ℕ} {level : ℤ} {draws : SystemDraws pbc}
    {first : GeneratedIBE pbc} {file : PathFile}
    (created : create ssl gmp (some none) shards level draws = .ok (first, file))
    (requested : ℤ) (draws' : SystemDraws pbc) :
    create ssl gmp file shards requested draws' = .error .keyError ∧
      ¬ Reloads first level requested (create ssl gmp file shards requested draws') := by
  have raises : create ssl gmp file shards requested draws' = .error .keyError := by
    rw [file_of_create created]
    rfl
  refine ⟨raises, ?_⟩
  rw [raises]
  exact id

end GeneratedIBE

end

/-! ### A system of two shards -/

/-- Secrets as so many strokes. -/
def exampleGmp : SecretText where
  getStr n := List.replicate n '1'
  setStr text := some text.length
  set_get _ := by rw [List.length_replicate]

/-- The generator is 1, and the shards' secrets are 2 and 3. -/
def exampleDraws : SystemDraws examplePbc where
  pbcPar := ()
  q := 5
  h := 1
  elements := [0, 1]
  drawn := 0
  shardDrawn i := i

namespace GeneratedIBE

theorem example_created :
    ∃ first, create exampleSsl exampleGmp (some none) 2 3 exampleDraws =
        .ok (first, some (some (saved exampleGmp first.publicParams first.ibeShards))) ∧
      first.ibeShards.length = 2 := by
  have made : ∃ base, BonehFranklin.generate exampleSsl 3 exampleDraws = .ok base := ⟨_, rfl⟩
  obtain ⟨base, made⟩ := made
  exact create_new (by decide) made

theorem two_shards_reload_raises :
    ∃ first file, create exampleSsl exampleGmp (some none) 2 3 exampleDraws = .ok (first, file) ∧
      create exampleSsl exampleGmp file 2 3 exampleDraws = .error .keyError ∧
      ¬ Reloads first 3 3 (create exampleSsl exampleGmp file 2 3 exampleDraws) := by
  obtain ⟨first, created, -⟩ := example_created
  exact ⟨first, _, created, reload_raises created 3 exampleDraws⟩

/-- The file of two shards is not loaded, although the level asked for is the one that is stored. -/
theorem two_shards_not_reloaded :
    ¬ ∀ first file, create exampleSsl exampleGmp (some none) 2 3 exampleDraws = .ok (first, file) →
      Reloads first 3 3 (create exampleSsl exampleGmp file 2 3 exampleDraws) := by
  obtain ⟨first, created, -⟩ := example_created
  intro reloads
  have reloaded := reloads first _ created
  have raises : create exampleSsl exampleGmp
      (some (some (saved exampleGmp first.publicParams first.ibeShards))) 2 3 exampleDraws =
      .error .keyError := rfl
  rw [raises] at reloaded
  exact reloaded

end GeneratedIBE

end Prism.Config
