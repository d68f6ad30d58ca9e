import Prism.Lockfree.Mpc

/-!
Generation of preproducts (`MPCRole.preproduct_op`,
`prism/server/CS2/roles/lockfree/mpc.py`).

Every peer of a group sums everybody's sharings of random numbers, multiplies two
thirds of the sums with each other, and keeps the triples and the last third. The
operation has three rounds. `Preproduct` is one such operation over a group: who takes
part, and what each peer draws.

When a peer gathers exactly one message from each peer of the group in every round, what
it gathers and what it stores is determined by the draws: `Preproduct.genuine` lists the
messages of a round, `Preproduct.batchOf` is the batch. `Preproduct.Valid.asks` says so for
the coroutine of `preproduct_op`.
-/

namespace Prism.Lockfree

open Prism.Crypto Prism.Lib Sharing

/-- A batch of preproducts as one peer stores it. -/
structure PreproductBatch where
  batchId : Bytes
  owned : Bool
  peers : List ℕ
  triples : List Triple
  randomNumbers : List Share
deriving DecidableEq, Repr

/-- The end of `preproduct_op`: the batch that is handed to `add_batch`, unless the
length check fails or nothing was multiplied. -/
def assembleBatch (self : MPCRole) (batchId : Bytes) (peers : List ℕ) (owner : ℕ)
    (a b c randomNumbers : List Share) : Option PreproductBatch :=
  if ¬ (a.length = b.length ∧ b.length = c.length ∧ c.length = randomNumbers.length) then none
  else if c = [] then none
  else some {
    batchId
    owned := owner = self.partyId
    peers
    triples := (a.zip (b.zip c)).map fun (x, y, z) => ⟨x, y, z⟩
    randomNumbers }

/-- `preproduct_op`: `owner` is the peer that requested the batch. -/
def preproductOp (self : MPCRole) (draws : Draws self.sharing) (batchId : Bytes) (size : ℕ)
    (peers : List ℕ) (owner : ℕ) : Op (Option PreproductBatch) := do
  let randomShares ← self.generateShares draws batchId peers (size * 3) true
  if randomShares = [] then return none
  let randomNumbers := randomShares.drop (size * 2)
  let a := randomShares.take size
  let b := (randomShares.take (size * 2)).drop size
  let c ← self.mulmEtf draws batchId peers a b true
  return assembleBatch self batchId peers owner a b c randomNumbers

/-- One generation of a batch by a group of peers. -/
structure Preproduct where
  sharing : Sharing
  draws : ℕ → Draws sharing
  batchId : Bytes
  size : ℕ
  peers : List ℕ
  owner : ℕ

namespace Preproduct

variable (pre : Preproduct)

/-- The operation as peer `j` runs it. -/
def op (j : ℕ) : Op (Option PreproductBatch) :=
  preproductOp ⟨j, pre.sharing⟩ (pre.draws j) pre.batchId pre.size pre.peers pre.owner

/-- The group in the order of the party ids, which is that of the gathered messages. -/
def group : List ℕ := pre.peers.insertionSort (· ≤ ·)

theorem group_perm : pre.group.Perm pre.peers := List.perm_insertionSort _ _

/-! ### What the peers send and compute -/

/-- Peer `i`'s share for peer `j` of its `k`-th random number. -/
def numberShare (i j k : ℕ) : Share :=
  pre.sharing.secretSharing.shareOf ((pre.draws i).number k).1 ((pre.draws i).numberCoeffs k).1 j

/-- Peer `i`'s low degree share for peer `j` of its `k`-th mask. -/
def lowShare (i j k : ℕ) : Share :=
  pre.sharing.secretSharing.shareOf ((pre.draws i).mask k).1 ((pre.draws i).lowCoeffs k).1 j

/-- Peer `i`'s high degree share for peer `j` of its `k`-th mask. -/
def highShare (i j k : ℕ) : Share :=
  pre.sharing.high.secretSharing.shareOf ((pre.draws i).mask k).1 ((pre.draws i).high k).1 j

/-- Peer `j`'s sum of the group's shares. -/
def sumOf (share : ℕ → ℕ → ℕ → Share) (j k : ℕ) : Share :=
  (⟨j, pre.sharing⟩ : MPCRole).sumShares (pre.group.map fun i => share i j k)

/-- Peer `j`'s share of the `k`-th random number of the group. -/
def random (j k : ℕ) : Share := pre.sumOf pre.numberShare j k

/-- Peer `j`'s high degree share of the `k`-th product. -/
def productHigh (j k : ℕ) : Share :=
  ⟨(pre.random j k).share * (pre.random j (pre.size + k)).share % pre.sharing.modulus, j⟩

/-- Peer `j`'s share of the `k`-th masked product. -/
def masked (j k : ℕ) : Share :=
  pre.sharing.high.subShare (pre.sumOf pre.highShare j k) (pre.productHigh j k)

/-- What the group opens for the `k`-th masked product. -/
def opened (k : ℕ) : Py (Option ℤ) := pre.sharing.high.open (pre.group.map fun i => pre.masked i k)

/-- The opened integer. -/
def openedValue (k : ℕ) : ℤ :=
  match pre.opened k with
  | .ok (some z) => z
  | _ => 0

/-- Peer `j`'s share of the `k`-th product. -/
def product (j k : ℕ) : Share :=
  ⟨((pre.sumOf pre.lowShare j k).share - pre.openedValue k) % pre.sharing.modulus, j⟩

/-- The batch that peer `j` stores. -/
def batchOf (j : ℕ) : PreproductBatch where
  batchId := pre.batchId
  owned := pre.owner = j
  peers := pre.peers
  triples := (List.range pre.size).map fun k =>
    ⟨pre.random j k, pre.random j (pre.size + k), pre.product j k⟩
  randomNumbers := (List.range pre.size).map fun k => pre.random j (2 * pre.size + k)

/-! ### The three rounds -/

/-- The rounds of the operation. -/
inductive Stage where
  | generate | mask | open
deriving DecidableEq, Repr

/-- The action that labels a round. -/
def Stage.action : Stage → ActionEnum
  | generate => .generateShares
  | mask => .mulmBgwRand
  | .open => .mulmBgwOpen

theorem Stage.action_injective {stage stage' : Stage} (eq : stage.action = stage'.action) :
    stage = stage' := by
  cases stage <;> cases stage' <;> first | rfl | cases eq

/-- The position of a round in the operation. -/
def Stage.index : Stage → ℕ
  | generate => 0
  | mask => 1
  | .open => 2

/-- The shares that peer `i` sends to peer `j` in a round. -/
def sentShares (i j : ℕ) : Stage → List Share
  | .generate => (List.range (pre.size * 3)).map (pre.numberShare i j)
  | .mask => (List.range pre.size).map (pre.lowShare i j) ++
      (List.range pre.size).map (pre.highShare i j)
  | .open => (List.range pre.size).map (pre.masked i)

/-- The message that peer `i` sends to peer `j` in a round. -/
def message (stage : Stage) (i j : ℕ) : Message :=
  ((⟨i, pre.sharing⟩ : MPCRole).response stage.action pre.batchId
    (pre.sentShares i j stage)).addressed j

/-- The round of peer `i`. -/
def round (stage : Stage) (i : ℕ) : Round where
  opId := pre.batchId
  action := stage.action
  sends := pre.peers.map (pre.message stage i)
  count := pre.peers.length
  context := true

/-- What peer `j` gathers when each peer of the group is heard once. -/
def genuine (j : ℕ) (stage : Stage) : List Message := pre.group.map fun i => pre.message stage i j

/-- The rounds before a round. -/
def Stage.before : Stage → List Stage
  | generate => []
  | mask => [generate]
  | .open => [generate, mask]

/-- The round after a round. -/
def Stage.next : Stage → Option Stage
  | generate => some mask
  | mask => some .open
  | .open => none

/-- Peer `j`'s coroutine at the start of a round, after full rounds before it. -/
def atStage (j : ℕ) (stage : Stage) : Op (Option PreproductBatch) :=
  (pre.op j).feed (stage.before.map (pre.genuine j))

/-! ### The shared values -/

/-- The preconditions: a prime modulus above the number of parties, and a group of
enough distinct parties. -/
structure Valid (pre : Preproduct) : Prop where
  prime : pre.sharing.modulus.Prime
  parties_lt : pre.sharing.nparties < pre.sharing.modulus
  nodup : pre.peers.Nodup
  parties : ∀ i ∈ pre.peers, i < pre.sharing.nparties
  enough : 2 * (pre.sharing.threshold - 1) + 1 ≤ pre.peers.length

/-- The parties of the scheme. -/
def Parties : Set ℕ := { i | i < pre.sharing.nparties }

/-- The sum of what the group's peers drew. -/
def total (draw : ℕ → ℕ → ℤ) (k : ℕ) : ZMod pre.sharing.modulus :=
  (pre.group.map fun i => (draw i k : ZMod pre.sharing.modulus)).sum

/-- The `k`-th random number of the group. -/
def randomValue (k : ℕ) : ZMod pre.sharing.modulus :=
  pre.total (fun i k => ((pre.draws i).number k).1) k

/-- The `k`-th mask of the group. -/
def maskValue (k : ℕ) : ZMod pre.sharing.modulus :=
  pre.total (fun i k => ((pre.draws i).mask k).1) k

/-- The casts of reduced integer sums. -/
theorem sumOf_cast (share : ℕ → ℕ → ℕ → Share) (j k : ℕ) :
    ((pre.sumOf share j k).share : ZMod pre.sharing.modulus) =
      (pre.group.map fun i => ((share i j k).share : ZMod pre.sharing.modulus)).sum := by
  simp only [sumOf, MPCRole.sumShares, ZMod.intCast_mod, List.map_map]
  have cast : ∀ l : List ℤ, ((l.sum : ℤ) : ZMod pre.sharing.modulus) =
      (l.map fun z : ℤ => (z : ZMod pre.sharing.modulus)).sum := by
    intro l
    induction l with
    | nil => simp
    | cons z l ih => simp [ih]
  rw [cast, List.map_map]
  rfl

/-- Sums of everybody's sharings share the sum of everybody's draws. -/
theorem sumOf_shares {d : ℕ} {draw : ℕ → ℕ → ℤ} {share : ℕ → ℕ → ℕ → Share} (k : ℕ)
    (each : ∀ i, SharedBelow d 0 (point pre.sharing.modulus) pre.Parties
      (draw i k : ZMod pre.sharing.modulus)
      fun j => ((share i j k).share : ZMod pre.sharing.modulus)) :
    pre.sharing.Shares pre.Parties d (pre.total draw k) fun j => pre.sumOf share j k :=
  ⟨fun _ _ => rfl, (SharedBelow.sum pre.group fun i _ => each i).congr fun j _ =>
    pre.sumOf_cast share j k⟩

theorem random_shares (k : ℕ) :
    pre.sharing.Shares pre.Parties (pre.sharing.threshold - 1 + 1) (pre.randomValue k)
      fun j => pre.random j k :=
  pre.sumOf_shares k fun _ => shareOf_sharedBelow pre.sharing.secretSharing _ _

theorem low_shares (k : ℕ) :
    pre.sharing.Shares pre.Parties (pre.sharing.threshold - 1 + 1) (pre.maskValue k)
      fun j => pre.sumOf pre.lowShare j k :=
  pre.sumOf_shares k fun _ => shareOf_sharedBelow pre.sharing.secretSharing _ _

/-- Local products share the product, at twice the degree. -/
theorem productHigh_shares (k : ℕ) :
    pre.sharing.Shares pre.Parties (2 * (pre.sharing.threshold - 1) + 1)
      (pre.randomValue k * pre.randomValue (pre.size + k)) fun j => pre.productHigh j k := by
  have product := (pre.random_shares k).shared.mul (pre.random_shares (pre.size + k)).shared
  have degree : pre.sharing.threshold - 1 + 1 + (pre.sharing.threshold - 1 + 1) - 1 =
      2 * (pre.sharing.threshold - 1) + 1 := by omega
  rw [degree] at product
  exact ⟨fun _ _ => rfl, product.congr fun j _ => by simp [productHigh]⟩

theorem masked_shares (k : ℕ) :
    pre.sharing.high.Shares pre.Parties (2 * (pre.sharing.threshold - 1) + 1)
      (pre.maskValue k - pre.randomValue k * pre.randomValue (pre.size + k) :
        ZMod pre.sharing.modulus) fun j => pre.masked j k := by
  have high : pre.sharing.Shares pre.Parties (2 * (pre.sharing.threshold - 1) + 1)
      (pre.maskValue k) fun j => pre.sumOf pre.highShare j k :=
    pre.sumOf_shares k fun _ => shareOf_sharedBelow pre.sharing.high.secretSharing _ _
  -- the two schemes differ in the threshold only
  have difference := high.subShare (pre.productHigh_shares k)
  exact ⟨difference.x_eq, difference.shared⟩

section Valid

variable {pre} (valid : pre.Valid)
include valid

theorem Valid.group_ne_nil : pre.group ≠ [] := by
  intro empty
  have len := pre.group_perm.length_eq
  have enough := valid.enough
  rw [empty] at len
  simp at len
  omega

/-- **The masked product opens** to the mask minus the product. -/
theorem Valid.opened_ok (k : ℕ) :
    pre.opened k = .ok (some (pre.openedValue k)) ∧
      (pre.openedValue k : ZMod pre.sharing.modulus) =
        pre.maskValue k - pre.randomValue k * pre.randomValue (pre.size + k) := by
  have mem : ∀ i ∈ pre.group, i < pre.sharing.nparties :=
    fun i hi => valid.parties i (pre.group_perm.mem_iff.mp hi)
  have enough : 2 * (pre.sharing.threshold - 1) + 1 ≤ pre.group.length :=
    pre.group_perm.length_eq ▸ valid.enough
  have prime : pre.sharing.high.modulus.Prime := valid.prime
  have parties_lt : pre.sharing.high.nparties < pre.sharing.high.modulus := valid.parties_lt
  obtain ⟨w, run, -, -, val⟩ := open_real prime parties_lt (pre.masked_shares k) mem
    (pre.group_perm.nodup_iff.mpr valid.nodup) mem enough enough
  have opened : pre.opened k = .ok (some w) := run
  have value : pre.openedValue k = w := by simp [openedValue, opened]
  exact ⟨value ▸ opened, value ▸ val⟩

/-- The shares of the product after the degree reduction. -/
theorem Valid.product_shares (k : ℕ) :
    pre.sharing.Shares pre.Parties (pre.sharing.threshold - 1 + 1)
      (pre.randomValue k * pre.randomValue (pre.size + k)) fun j => pre.product j k := by
  have shifted := (pre.low_shares k).shared.addConst (Nat.succ_pos _)
    (-(pre.openedValue k : ZMod pre.sharing.modulus))
  have value : pre.maskValue k + -(pre.openedValue k : ZMod pre.sharing.modulus) =
      pre.randomValue k * pre.randomValue (pre.size + k) := by
    rw [(valid.opened_ok k).2]
    ring
  rw [value] at shifted
  exact ⟨fun _ _ => rfl, shifted.congr fun j _ => by simp [product, sub_eq_add_neg]⟩

/-! ### The coroutine between full rounds -/

/-- The columns of a full round. -/
theorem Valid.columns_genuine (j : ℕ) (stage : Stage) :
    MPCRole.columns (pre.genuine j stage) =
      .ok (zipStar (pre.group.map fun i => pre.sentShares i j stage)) := by
  have ne : pre.genuine j stage ≠ [] := by simpa [genuine] using valid.group_ne_nil
  have rows : (pre.genuine j stage).mapM Message.shares =
      .ok (pre.group.map fun i => pre.sentShares i j stage) := by
    unfold genuine
    rw [List.mapM_map]
    exact mapM_ok fun i _ => rfl
  rw [MPCRole.columns, if_neg ne, rows]
  rfl

/-- `generate_shares` is the first round; what it gathers is summed. -/
theorem Valid.generateShares_eq (j : ℕ) :
    ∃ next : List Message → Py (List Share),
      (⟨j, pre.sharing⟩ : MPCRole).generateShares (pre.draws j) pre.batchId pre.peers
        (pre.size * 3) true =
          .ask (pre.round .generate j) (fun responses => .done (next responses)) ∧
      next [] = .ok [] ∧
      next (pre.genuine j .generate) = .ok ((List.range (pre.size * 3)).map (pre.random j)) := by
  have ne : pre.peers ≠ [] := fun empty => valid.group_ne_nil (by simp [group, empty])
  have own : ∀ peer ∈ pre.peers, (((List.range (pre.size * 3)).map fun k =>
      pre.sharing.secretSharing.share ((pre.draws j).number k).1
        ((pre.draws j).numberCoeffs k)).mapM fun share => pyIndex share peer) =
      .ok (pre.sentShares j peer .generate) := by
    intro peer hp
    rw [List.mapM_map]
    exact mapM_ok fun k _ => pyIndex_map_range _ (valid.parties peer hp)
  refine ⟨fun responses => do
    let peerShares ← MPCRole.columns responses
    if peerShares = [] then return []
    return peerShares.map (⟨j, pre.sharing⟩ : MPCRole).sumShares, ?_, rfl, ?_⟩
  · unfold MPCRole.generateShares
    simp only
    rw [MPCRole.distributeShares_eq ⟨j, pre.sharing⟩ ne pre.batchId .generateShares own true,
      Resumption.ask_bind]
    congr 1
    funext responses
    cases MPCRole.columns responses with
    | error e => rfl
    | ok peerShares =>
        simp only [Resumption.done_ok_bind, ok_bind]
        split <;> rfl
  · have gathered : MPCRole.columns (pre.genuine j .generate) =
        .ok ((List.range (pre.size * 3)).map fun k =>
          pre.group.map fun i => pre.numberShare i j k) := by
      rw [valid.columns_genuine]
      exact congrArg Except.ok (zipStar_map valid.group_ne_nil _ _)
    simp only [gathered, ok_bind]
    split_ifs with empty
    · have none : List.range (pre.size * 3) = [] := by simpa using empty
      rw [none]
      rfl
    · rw [List.map_map]
      rfl

omit valid in
/-- The products of a party are the shares of the high degree. -/
theorem products_ok (pre : Preproduct) (j : ℕ) :
    (((List.range pre.size).map (pre.random j)).zip
      ((List.range pre.size).map fun k => pre.random j (pre.size + k))).mapM
      (fun (x, y) => pre.sharing.mul x y) =
        .ok ((List.range pre.size).map (pre.productHigh j)) := by
  rw [List.zip_map', List.mapM_map]
  exact mapM_ok fun k _ => mul_party pre.sharing _ _ j

/-- What a peer is sent in the second round: its low shares, and then its high shares. -/
theorem Valid.sentMasks_ok (j : ℕ) {peer : ℕ} (mem : peer ∈ pre.peers) :
    (((List.range pre.size).map fun k =>
      pre.sharing.secretSharing.share ((pre.draws j).mask k).1 ((pre.draws j).lowCoeffs k)) ++
      (List.range pre.size).map fun k => pre.sharing.high.secretSharing.share
        ((pre.draws j).mask k).1 ((pre.draws j).high k)).mapM (fun share => pyIndex share peer) =
      .ok (pre.sentShares j peer .mask) := by
  have low : ((List.range pre.size).map fun k =>
      pre.sharing.secretSharing.share ((pre.draws j).mask k).1
        ((pre.draws j).lowCoeffs k)).mapM (fun share => pyIndex share peer) =
      .ok ((List.range pre.size).map (pre.lowShare j peer)) := by
    rw [List.mapM_map]
    exact mapM_ok fun k _ => pyIndex_map_range _ (valid.parties peer mem)
  have high : ((List.range pre.size).map fun k =>
      pre.sharing.high.secretSharing.share ((pre.draws j).mask k).1
        ((pre.draws j).high k)).mapM (fun share => pyIndex share peer) =
      .ok ((List.range pre.size).map (pre.highShare j peer)) := by
    rw [List.mapM_map]
    exact mapM_ok fun k _ => pyIndex_map_range _ (valid.parties peer mem)
  rw [List.mapM_append, low, high]
  rfl

/-- The sums that a party makes of the second round. -/
theorem Valid.summedMasks (j : ℕ) :
    (zipStar (pre.group.map fun i => pre.sentShares i j .mask)).map
        (⟨j, pre.sharing⟩ : MPCRole).sumShares =
      (List.range pre.size).map (pre.sumOf pre.lowShare j) ++
        (List.range pre.size).map (pre.sumOf pre.highShare j) := by
  simp only [sentShares]
  rw [zipStar_map_append valid.group_ne_nil, List.map_append, List.map_map, List.map_map]
  rfl

omit valid in
theorem masked_ok (pre : Preproduct) (j : ℕ) :
    (((List.range pre.size).map (pre.sumOf pre.highShare j)).zip
      ((List.range pre.size).map (pre.productHigh j))).mapM
      (fun (r, xy) => pre.sharing.high.sub r xy) =
        .ok ((List.range pre.size).map (pre.masked j)) := by
  rw [List.zip_map', List.mapM_map]
  exact mapM_ok fun k _ => sub_ok _ (.inr ⟨rfl, isDummy_eq_false (i := j) rfl⟩)

/-- **The third round opens** the masked products. -/
theorem Valid.openResponses_genuine (j : ℕ) :
    MPCRole.openResponses pre.sharing.high (pre.genuine j .open) =
      .ok ((List.range pre.size).map fun k => some (pre.openedValue k)) := by
  have rows : (pre.genuine j .open).mapM Message.shares =
      .ok (pre.group.map fun i => (List.range pre.size).map (pre.masked i)) := by
    unfold genuine
    rw [List.mapM_map]
    exact mapM_ok fun i _ => rfl
  have notNil : pre.genuine j .open ≠ [] := by simpa [genuine] using valid.group_ne_nil
  unfold MPCRole.openResponses
  rw [if_neg notNil, rows, ok_bind, zipStar_map valid.group_ne_nil, List.mapM_map]
  exact mapM_ok fun k _ => (valid.opened_ok k).1

omit valid in
/-- The degree reduction. -/
theorem reduced_ok (pre : Preproduct) (j : ℕ) :
    (((List.range pre.size).map (pre.sumOf pre.lowShare j)).zip
      ((List.range pre.size).map fun k => some (pre.openedValue k))).mapM
      (fun (r, z) => match z with
        | some z => pre.sharing.subc r z
        | none => .ok Sharing.dummy) = .ok ((List.range pre.size).map (pre.product j)) := by
  rw [List.zip_map', List.mapM_map]
  exact mapM_ok fun k _ => subc_party pre.sharing _ _ j

/-- `mulm_etf` is the second and the third round. -/
theorem Valid.mulmEtf_eq (j : ℕ) (pos : 0 < pre.size) :
    ∃ (next : List Message → Op (List Share)) (last : List Message → Py (List Share)),
      (⟨j, pre.sharing⟩ : MPCRole).mulmEtf (pre.draws j) pre.batchId pre.peers
        ((List.range pre.size).map (pre.random j))
        ((List.range pre.size).map fun k => pre.random j (pre.size + k)) true =
          .ask (pre.round .mask j) next ∧
      next [] = .done (.ok []) ∧
      next (pre.genuine j .mask) =
        .ask (pre.round .open j) (fun responses => .done (last responses)) ∧
      last [] = .ok [] ∧
      (last (pre.genuine j .open) = .ok [] ∨
        last (pre.genuine j .open) = .ok ((List.range pre.size).map (pre.product j))) := by
  have ne : pre.peers ≠ [] := fun empty => valid.group_ne_nil (by simp [group, empty])
  have width : ((List.range pre.size).map (pre.random j)).length = pre.size := by simp
  have lowWidth : ((List.range pre.size).map (pre.sumOf pre.lowShare j)).length = pre.size := by
    simp
  refine ⟨fun responses => do
      let received ← (MPCRole.columns responses : Py _)
      if received = [] then return []
      let rLowHigh := received.map (⟨j, pre.sharing⟩ : MPCRole).sumShares
      if rLowHigh.length ≠ pre.size * 2 then return []
      let rLow := rLowHigh.take pre.size
      let rHigh := rLowHigh.drop pre.size
      let zHigh ← ((rHigh.zip ((List.range pre.size).map (pre.productHigh j))).mapM fun (r, xy) =>
        pre.sharing.high.sub r xy : Py _)
      let zs ← (⟨j, pre.sharing⟩ : MPCRole).openMultiple pre.batchId pre.peers .mulmBgwOpen
        pre.sharing.high zHigh none true
      if zs = [] || !(zs.all fun z => z.any (· ≠ 0)) then return []
      ((rLow.zip zs).mapM fun (r, z) =>
        match z with
        | some z => pre.sharing.subc r z
        | none => .ok Sharing.dummy : Py _),
    fun responses => do
      let zs ← MPCRole.openResponses pre.sharing.high responses
      if zs = [] || !(zs.all fun z => z.any (· ≠ 0)) then return []
      (((List.range pre.size).map (pre.sumOf pre.lowShare j)).zip zs).mapM fun (r, z) =>
        match z with
        | some z => pre.sharing.subc r z
        | none => .ok Sharing.dummy, ?_, rfl, ?_, rfl, ?_⟩
  · unfold MPCRole.mulmEtf
    simp only [products_ok, width, Resumption.lift_eq, Resumption.done_ok_bind]
    rw [MPCRole.distributeShares_eq ⟨j, pre.sharing⟩ ne pre.batchId .mulmBgwRand
      (fun peer mem => valid.sentMasks_ok j mem) true, Resumption.ask_bind]
    rfl
  · have sums : zipStar (pre.group.map fun i => pre.sentShares i j .mask) ≠ [] := by
      simp only [sentShares]
      rw [zipStar_map_append valid.group_ne_nil]
      simp [pos.ne']
    have total : ((List.range pre.size).map (pre.sumOf pre.lowShare j) ++
        (List.range pre.size).map (pre.sumOf pre.highShare j)).length = pre.size * 2 := by
      simp
      omega
    simp only [valid.columns_genuine, Resumption.done_ok_bind, if_neg sums, valid.summedMasks,
      total, ne_eq, not_true_eq_false, if_false, List.take_left' lowWidth,
      List.drop_left' lowWidth, masked_ok, Resumption.lift_eq]
    rw [MPCRole.openMultiple_eq ⟨j, pre.sharing⟩ ne, Resumption.ask_bind]
    congr 1
    funext responses
    cases MPCRole.openResponses pre.sharing.high responses with
    | error e => rfl
    | ok zs =>
        simp only [Resumption.done_ok_bind, ok_bind]
        split <;> rfl
  · simp only [valid.openResponses_genuine, ok_bind, reduced_ok]
    split
    · exact .inl rfl
    · exact .inr rfl

omit valid in
/-- A slice of a list that is indexed by numbers. -/
theorem drop_take_map_range {α : Type} (f : ℕ → α) {n b : ℕ} (le : b ≤ n) (a : ℕ) :
    (((List.range n).map f).take b).drop a = (List.range (b - a)).map fun k => f (a + k) := by
  refine List.ext_getElem (by simp [le]) fun k _ _ => ?_
  simp

omit valid in
/-- The three slices of the summed random numbers. -/
theorem slices (pre : Preproduct) (j : ℕ) :
    ((List.range (pre.size * 3)).map (pre.random j)).take pre.size =
        (List.range pre.size).map (pre.random j) ∧
      (((List.range (pre.size * 3)).map (pre.random j)).take (pre.size * 2)).drop pre.size =
        ((List.range pre.size).map fun k => pre.random j (pre.size + k)) ∧
      ((List.range (pre.size * 3)).map (pre.random j)).drop (pre.size * 2) =
        (List.range pre.size).map fun k => pre.random j (2 * pre.size + k) := by
  refine ⟨?_, ?_, ?_⟩
  · have slice := drop_take_map_range (pre.random j) (by omega : pre.size ≤ pre.size * 3) 0
    simpa using slice
  · have slice := drop_take_map_range (pre.random j)
      (by omega : pre.size * 2 ≤ pre.size * 3) pre.size
    rwa [show pre.size * 2 - pre.size = pre.size by omega] at slice
  · have slice := drop_take_map_range (pre.random j) (le_refl (pre.size * 3)) (pre.size * 2)
    rw [show pre.size * 3 - pre.size * 2 = pre.size by omega, List.take_of_length_le (by simp)]
      at slice
    rw [slice]
    exact List.map_congr_left fun k _ => by rw [Nat.mul_comm]

/-- The coroutine of a peer over full rounds. -/
theorem Valid.op_eq (j : ℕ) :
    ∃ afterGenerate : List Message → Op (Option PreproductBatch),
      pre.op j = .ask (pre.round .generate j) afterGenerate ∧
      afterGenerate [] = .done (.ok none) ∧
      (pre.size = 0 → afterGenerate (pre.genuine j .generate) = .done (.ok none)) ∧
      (0 < pre.size → ∃ afterMask : List Message → Op (Option PreproductBatch),
        afterGenerate (pre.genuine j .generate) = .ask (pre.round .mask j) afterMask ∧
        afterMask [] = .done (.ok none) ∧
        ∃ afterOpen : List Message → Op (Option PreproductBatch),
          afterMask (pre.genuine j .mask) = .ask (pre.round .open j) afterOpen ∧
          afterOpen [] = .done (.ok none) ∧
          (afterOpen (pre.genuine j .open) = .done (.ok none) ∨
            afterOpen (pre.genuine j .open) = .done (.ok (some (pre.batchOf j))))) := by
  obtain ⟨next, generated, nextNil, nextGenuine⟩ := valid.generateShares_eq j
  obtain ⟨sliceA, sliceB, sliceR⟩ := slices pre j
  unfold op preproductOp
  rw [generated, Resumption.ask_bind]
  refine ⟨_, rfl, by simp [nextNil], fun zero => by simp [nextGenuine, zero], fun pos => ?_⟩
  obtain ⟨afterMask, last, multiplied, maskNil, maskGenuine, lastNil, lastGenuine⟩ :=
    valid.mulmEtf_eq j pos
  have some : (List.range (pre.size * 3)).map (pre.random j) ≠ [] := by simp [pos.ne']
  simp only [nextGenuine, Resumption.done_ok_bind, if_neg some, sliceA, sliceB, sliceR, multiplied,
    Resumption.ask_bind]
  refine ⟨_, rfl, by simp [maskNil, assembleBatch, pos.ne'], ?_⟩
  simp only [maskGenuine, Resumption.ask_bind]
  refine ⟨_, rfl, by simp [lastNil, assembleBatch, pos.ne'], ?_⟩
  rcases lastGenuine with none | products
  · left
    simp [none, assembleBatch, pos.ne']
  · right
    have notNil : (List.range pre.size).map (pre.product j) ≠ [] := by simp [pos.ne']
    simp only [products, Resumption.done_ok_bind, assembleBatch, List.length_map,
      List.length_range, and_self, not_true_eq_false, if_false, if_neg notNil, List.zip_map',
      List.map_map]
    rfl

/-- **What a peer does at a round** it has come to over full rounds: it asks that round,
gives up on a failed gathering, and on a full one goes on to the next round, gives up,
or ends with the batch. -/
theorem Valid.asks (j : ℕ) {stage : Stage} (reached : stage = .generate ∨ 0 < pre.size) :
    ∃ next, pre.atStage j stage = .ask (pre.round stage j) next ∧
      next [] = .done (.ok none) ∧
      (next (pre.genuine j stage) = .done (.ok none) ∨
        (∃ stage', stage.next = some stage' ∧ 0 < pre.size ∧
          next (pre.genuine j stage) = pre.atStage j stage') ∨
        (stage = .open ∧ next (pre.genuine j stage) = .done (.ok (some (pre.batchOf j))))) := by
  obtain ⟨afterGenerate, op_eq, generateNil, zero, later⟩ := valid.op_eq j
  cases stage with
  | generate =>
      refine ⟨afterGenerate, by rw [atStage, op_eq]; rfl, generateNil, ?_⟩
      rcases Nat.eq_zero_or_pos pre.size with none | pos
      · exact .inl (zero none)
      · exact .inr (.inl ⟨.mask, rfl, pos, by simp [atStage, op_eq, Stage.before]⟩)
  | mask =>
      have pos := reached.resolve_left nofun
      obtain ⟨afterMask, mask_eq, maskNil, -⟩ := later pos
      refine ⟨afterMask, by simp [atStage, op_eq, Stage.before, mask_eq], maskNil,
        .inr (.inl ⟨.open, rfl, pos, ?_⟩)⟩
      simp [atStage, op_eq, Stage.before, mask_eq]
  | «open» =>
      have pos := reached.resolve_left nofun
      obtain ⟨afterMask, mask_eq, -, afterOpen, open_eq, openNil, ended⟩ := later pos
      refine ⟨afterOpen, by simp [atStage, op_eq, Stage.before, mask_eq, open_eq], openNil, ?_⟩
      exact ended.imp_right fun batch => .inr ⟨rfl, batch⟩

end Valid

end Preproduct

end Prism.Lockfree
