import Prism.Lockfree.HandshakeRuns

/-!
A committee can always complete its handshake (`handshake_task` in
`prism/server/CS2/roles/lockfree/mpc.py`).

Whatever was lost and whoever was restarted before, a few moves of the handshake and the arrival of
two packets let a member have the hello acknowledged by another one.

* `Handshake.rank`: how far `handshake_task` is from saying hello again.
* `acknowledged_after`: one hello and its response.
* `handshake_completes`: from every state all hellos can be acknowledged.
-/

namespace Prism.Lockfree

open Prism.Crypto Prism.Lib LockFreeDropbox

/-- How many stops `handshake_task` is from saying hello again. -/
def Handshake.rank : Handshake → ℕ
  | .sayHello => 0
  | .asleep => 1
  | .gatherReady _ => 2
  | .sayReady => 3
  | .gatherHello _ => 4

/-- A move of the handshake itself: a member goes on, or a packet arrives. -/
def Move.isHandshake {package : CryptoPackage} {Context : Type} {n : ℕ} :
    Move package Context n → Bool
  | .resume .. | .arrive .. => true
  | _ => false

theorem only_handshake {package : CryptoPackage} {Context : Type} {n : ℕ}
    {move : Move package Context n} (handshake : move.isHandshake = true) :
    ∀ m ∈ [move], m.isHandshake = true := by
  simpa using handshake

section Progress

variable {package : CryptoPackage} {Context : Type} {cbor : Cbor2} {builtins : Builtins}
  {tracer : Tracer Context} {seating : Seating package} {threshold : ℤ}
  {w : World seating.size} {i j : Fin seating.size} {member : Member}

variable (cbor) (builtins) (tracer) (threshold) in
/-- A committee after some more moves. -/
def Seating.advance (seating : Seating package) (w : World seating.size)
    (moves : List (Move package Context seating.size)) : World seating.size :=
  moves.foldl (fun w move => (seating.step cbor builtins tracer threshold w move).1) w

theorem advance_append (w : World seating.size)
    (moves later : List (Move package Context seating.size)) :
    seating.advance cbor builtins tracer threshold w (moves ++ later) =
      seating.advance cbor builtins tracer threshold
        (seating.advance cbor builtins tracer threshold w moves) later :=
  List.foldl_append

/-- A run that goes on. -/
theorem run_append (start : ℤ) (moves later : List (Move package Context seating.size)) :
    ((seating.committee cbor builtins tracer threshold start).run (moves ++ later)).1 =
      seating.advance cbor builtins tracer threshold
        ((seating.committee cbor builtins tracer threshold start).run moves).1 later := by
  induction later using List.reverseRecOn with
  | nil =>
      rw [List.append_nil]
      rfl
  | append_singleton later move ih =>
      rw [← List.append_assoc, Machine.run_concat, advance_append, ← ih]
      rfl

/-- A move that goes well. -/
theorem advance_single {move : Move package Context seating.size} {packets : List PrismMessage}
    (effect : seating.effect cbor builtins tracer threshold w move = (i, .ok (member, packets))) :
    seating.advance cbor builtins tracer threshold w [move] =
      ⟨Function.update w.members i member, w.packets ++ packets⟩ := by
  rw [Seating.advance, List.foldl_cons, List.foldl_nil, Seating.step, effect]

variable (tracer) in
/-- Moves of the handshake keep the invariant, every key and every acknowledgement. -/
theorem Invariant.advance (inv : Invariant cbor builtins seating threshold w)
    {moves : List (Move package Context seating.size)}
    (handshake : ∀ move ∈ moves, move.isHandshake = true) :
    Invariant cbor builtins seating threshold
        (seating.advance cbor builtins tracer threshold w moves) ∧
      (∀ a b, w.Heard a b → (seating.advance cbor builtins tracer threshold w moves).Heard a b) ∧
      ∀ a, ∀ k ∈ (w.members a).helloAcks,
        k ∈ ((seating.advance cbor builtins tracer threshold w moves).members a).helloAcks := by
  induction moves generalizing w with
  | nil => exact ⟨inv, fun _ _ => id, fun _ _ => id⟩
  | cons move moves ih =>
      obtain ⟨-, inv', heard, acks⟩ := inv.step tracer move
      have running : ∀ i now, move ≠ .restart i now := by
        rintro i now rfl
        exact absurd (handshake _ List.mem_cons_self) (by simp [Move.isHandshake])
      obtain ⟨invLater, heardLater, acksLater⟩ :=
        ih inv' fun m mem => handshake m (List.mem_cons_of_mem _ mem)
      exact ⟨invLater, fun a b key => heardLater a b (heard a b key),
        fun a k mem => acksLater a k (acks running a k mem)⟩

/-! ### Going on -/

/-- What a gather leads to. -/
theorem handshake_gathered {member' : Member} (run : member.gathered = .ok member') :
    member'.handshake = match member.handshake with
      | .gatherHello _ => .sayReady
      | .gatherReady _ => .asleep
      | other => other := by
  rw [Member.gathered] at run
  cases is : member.handshake with
  | gatherHello gather | gatherReady gather =>
      rw [is] at run
      obtain ⟨acks, -, rest⟩ := bind_eq_ok.mp run
      exact congrArg Member.handshake (Except.ok.inj rest).symm
  | _ =>
      rw [is] at run
      exact (congrArg Member.handshake (Except.ok.inj run)).symm.trans is

/-- After `say_ready` a member gathers responses or sleeps. -/
theorem rank_sayReady {now : ℤ} {opId : Bytes} {sendings : ℤ → Sending package} {member' : Member}
    {packets : List PrismMessage}
    (run : member.sayReady cbor builtins seating threshold i now opId sendings =
      .ok (member', packets)) : member'.handshake.rank < 3 := by
  unfold Member.sayReady at run
  split_ifs at run with unready
  · cases Except.ok.inj run
    simp [Handshake.rank]
  · obtain ⟨changed, -, rest⟩ := bind_eq_ok.mp run
    dsimp only at rest
    split_ifs at rest
    · cases Except.ok.inj rest
      simp [Handshake.rank]
    · obtain ⟨packets', -, rest⟩ := bind_eq_ok.mp rest
      cases Except.ok.inj rest
      simp [Handshake.rank]

/-- A member that goes on comes closer to its next hello. -/
theorem rank_resume {now : ℤ} {opId : Bytes} {sendings : ℤ → Sending package} {member' : Member}
    {packets : List PrismMessage}
    (run : member.resume cbor builtins seating threshold i now opId sendings =
      .ok (member', packets)) (later : member.handshake.rank ≠ 0) :
    member'.handshake.rank < member.handshake.rank := by
  have gathers : ∀ {gathered : Member}, (do return (← member.gathered, [])) =
      (.ok (gathered, packets) : Py (Member × List PrismMessage)) → member.gathered = .ok gathered := by
    intro gathered run
    obtain ⟨m, ends, rest⟩ := bind_eq_ok.mp run
    cases Except.ok.inj rest
    exact ends
  unfold Member.resume at run
  cases is : member.handshake with
  | sayHello => exact absurd (by rw [is]; rfl) later
  | asleep =>
      rw [is] at run
      cases Except.ok.inj run
      simp [Handshake.rank]
  | sayReady =>
      rw [is] at run
      exact rank_sayReady run
  | gatherHello gather =>
      rw [is] at run
      rw [handshake_gathered (gathers run), is]
      simp [Handshake.rank]
  | gatherReady gather =>
      rw [is] at run
      rw [handshake_gathered (gathers run), is]
      simp [Handshake.rank]

variable (tracer) in
/-- A member gets to its next hello. -/
theorem reaches_sayHello (inv : Invariant cbor builtins seating threshold w) (i : Fin seating.size)
    (s : Sending package) :
    ∃ later : List (Move package Context seating.size), (∀ move ∈ later, move.isHandshake = true) ∧
      ((seating.advance cbor builtins tracer threshold w later).members i).handshake = .sayHello := by
  induction rank : (w.members i).handshake.rank using Nat.strong_induction_on generalizing w with
  | _ n ih =>
    by_cases zero : n = 0
    · refine ⟨[], by simp, ?_⟩
      change (w.members i).handshake = .sayHello
      revert rank
      cases (w.members i).handshake <;> simp [Handshake.rank, zero]
    · obtain ⟨member, packets, run, -⟩ := @resume_ok _ cbor builtins _ threshold _ _ _ _
        (inv.members i) s.now [] fun _ => s
      let move : Move package Context seating.size := .resume i s.now [] fun _ => s
      have moved := @advance_single _ _ cbor builtins tracer _ threshold w i member move packets
        (by rw [← run]; rfl)
      have here : ((seating.advance cbor builtins tracer threshold w [move]).members i) = member := by
        rw [moved]
        exact Function.update_self ..
      have closer := rank_resume run (by rw [rank]; exact zero)
      rw [rank] at closer
      obtain ⟨later, handshake, there⟩ := ih _ closer
        (inv.advance tracer (only_handshake (show move.isHandshake = true from rfl))).1 (by rw [here])
      refine ⟨move :: later, ?_, there⟩
      rw [List.forall_mem_cons]
      exact ⟨rfl, handshake⟩

/-! ### A hello and its response -/

/-- A member without the acknowledgement of a peer says hello to it. -/
theorem sayHello_sends {H : Fin seating.size → Fin seating.size → Prop} {R : Set (Fin seating.size)}
    (sound : MemberSound cbor seating H R i member) (ne : i ≠ j)
    (unacknowledged : ((j : ℕ) : ℤ) ∉ member.helloAcks) (now : ℤ) (opId : Bytes)
    (sendings : ℤ → Sending package) :
    ∃ (count : ℕ) (packets : List PrismMessage) (p : PrismMessage),
      member.sayHello cbor builtins seating i now opId sendings =
        .ok ({ member with handshake := .gatherHello { opId, count } }, packets) ∧ p ∈ packets ∧
      Carries cbor builtins seating H i j (seating.hello i now opId) p := by
  have said : ∀ k, Said seating H R i k (seating.hello i now opId) := fun k => said_hello now opId
  obtain ⟨own, atOwn, ownKey⟩ := sound.life.memory.ownPeer
  obtain ⟨peer, -, found⟩ := sound.life.memory.peerAt_ok j
  have believed := sound.life.memory.peer j peer found
  have asked : peer ∈ member.unacknowledged member.helloAcks := by
    rw [Member.unacknowledged, List.mem_filter]
    have remote : peer.isLocal = false := by
      rw [← Bool.not_eq_true, believed.isLocal]
      exact ne
    simp [List.mem_of_getElem? found, remote, believed.partyId, unacknowledged]
  obtain ⟨packets, run, -⟩ := @sendTo_each _ cbor builtins _ _ _ _ _ _ sound said
    (member.unacknowledged member.helloAcks) (fun _ => mem_of_unacknowledged) sendings
  obtain ⟨p, mem, sends⟩ := (mem_mapM run).1 peer asked
  obtain ⟨p', sends', carries⟩ := @sendTo_ok _ cbor builtins _ _ _ _ _ _ _ sound (said j).typed peer
    found (sendings peer.partyId)
  obtain rfl : p' = p := Except.ok.inj (sends'.symm.trans sends)
  refine ⟨(member.unacknowledged member.helloAcks).length, packets, p', ?_, mem, carries⟩
  have some_ : (member.unacknowledged member.helloAcks).isEmpty = false := by
    rw [List.isEmpty_eq_false_iff]
    exact List.ne_nil_of_mem asked
  rw [Member.sayHello, some_, if_neg (by simp)]
  dsimp only
  rw [sound.life.memory.partyId, atOwn, ok_bind, ownKey, halfKeyArgument, ← Seating.hello, run]
  rfl

/-- The response to a hello. -/
def Seating.answer (seating : Seating package) (i : Fin seating.size) (now : ℤ) (opId : Bytes) :
    PrismMessage :=
  mpcMessage now (i : ℕ) .mpcResponse (.enum (.action .hello)) (.bytes opId)
    [(.opSuccess, .bool true)]

/-- A hello that arrives is answered. -/
theorem receive_hello {H : Fin seating.size → Fin seating.size → Prop} {R : Set (Fin seating.size)}
    (sound : MemberSound cbor seating H R j member) {now : ℤ} {opId : Bytes} {p : PrismMessage}
    (keeps : ∀ a, H j a → member.life.memory.HasKey a)
    (carries : Carries cbor builtins seating H i j (seating.hello i now opId) p) (s : Sending package) :
    ∃ life' answer, let member' := { member with life := life' }
      member.receive cbor builtins seating j p s = .ok (member', [answer]) ∧
      (∀ k, member.life.memory.HasKey k → life'.memory.HasKey k) ∧
      Said seating (learned H j member') R j i (seating.answer j s.now opId) ∧
      Carries cbor builtins seating (learned H j member') j i (seating.answer j s.now opId)
        answer := by
  have said : Said seating H R i j (seating.hello i now opId) := said_hello now opId
  obtain ⟨received, receives, delivered, address⟩ := @receive_carried _ cbor builtins _ _ _ _ _ _ _
    member said.plain carries sound.life.memory (keeps i) p carries.typed (.refl _ _) s
  have spoken := said.delivered delivered
  have type : received.get .msgType = .enum (.type .mpcRequest) :=
    delivered.get (by decide) (by decide)
  have action : mpcField received .action = .ok (.enum (.action .hello)) := delivered.mpcField .action
  have atId : mpcField received .requestId = .ok (.bytes opId) := delivered.mpcField .requestId
  obtain ⟨life', answer, answers, keeps', -, saidAnswer, carriesAnswer⟩ := @helloOp_answers _ cbor builtins _ _ _ _ _
    _ _ sound spoken type action opId atId s
  refine ⟨life', answer, ?_, keeps', saidAnswer, carriesAnswer⟩
  have matched : (Roles.MessageTypeHook.mk (some (seating.formation j).pseudonym)
      [.mpcRequest]).match received = true := by
    rw [hook_match (seating.nonempty j), (address rfl).2]
    exact ⟨rfl, type⟩
  have asIs : Roles.handlerMessage package cbor builtins s.now (seating.privateKey j) received =
      .ok (some received) := by
    rw [Roles.handlerMessage, spoken.ciphertext]
    rfl
  rw [receives, Member.submit, if_pos matched, asIs, ok_bind]
  dsimp only
  rw [Member.mpcOpTask, action, ok_bind]
  exact answers

/-- Who has responded is marked. -/
theorem gathered_marks {H : Fin seating.size → Fin seating.size → Prop} {R : Set (Fin seating.size)}
    (sound : MemberSound cbor seating H R i member) {gather : Gather}
    (is : member.handshake = .gatherHello gather) {r : PrismMessage} (mem : r ∈ gather.responses)
    {a : ℤ} (partyId : r.get .partyId = .int a) :
    ∃ member', member.gathered = .ok member' ∧ a ∈ member'.helloAcks := by
  obtain ⟨acks, run, -, -, marked⟩ := acknowledge_ok sound.life.memory
    (sound.helloResponses gather is) member.helloAcks
  refine ⟨{ member with helloAcks := acks, handshake := .sayReady }, ?_, marked r mem a partyId⟩
  rw [Member.gathered, is]
  dsimp only
  rw [run]
  rfl

/-- A response that a member waits for is counted, or is the last one. -/
theorem receive_answer {H : Fin seating.size → Fin seating.size → Prop}
    {R R' : Set (Fin seating.size)}
    (sound : MemberSound cbor seating H R i member) {opId : Bytes} {count : ℕ}
    (is : member.handshake = .gatherHello { opId, count }) {now : ℤ} {p : PrismMessage}
    (keeps : ∀ a, H i a → member.life.memory.HasKey a)
    (said : Said seating H R' j i (seating.answer j now opId))
    (carries : Carries cbor builtins seating H j i (seating.answer j now opId) p)
    (s : Sending package) :
    ∃ member', member.receive cbor builtins seating i p s = .ok (member', []) ∧
      (((j : ℕ) : ℤ) ∈ member'.helloAcks ∨ ∃ gather, member'.handshake = .gatherHello gather ∧
        ∃ r ∈ gather.responses, r.get .partyId = .int (j : ℕ)) := by
  obtain ⟨received, receives, delivered, address⟩ := @receive_carried _ cbor builtins _ _ _ _ _ _ _
    member said.plain carries sound.life.memory (keeps j) p carries.typed (.refl _ _) s
  have type : received.get .msgType = .enum (.type .mpcResponse) :=
    delivered.get (by decide) (by decide)
  have action : mpcField received .action = .ok (.enum (.action .hello)) := delivered.mpcField .action
  have atId : mpcField received .requestId = .ok (.bytes opId) := delivered.mpcField .requestId
  have partyId : received.get .partyId = .int (j : ℕ) := (said.delivered delivered).partyId
  have noRequest : (Roles.MessageTypeHook.mk (some (seating.formation i).pseudonym)
      [.mpcRequest]).match received ≠ true := by
    rw [Ne, hook_match (seating.nonempty i), type]
    simp
  have matched : (Gather.mk opId count []).matches .hello member.life.memory.partyId
      (seating.formation i).pseudonym received = true := by
    rw [Gather.matches, type, atId, action, (address rfl).1, (address rfl).2,
      sound.life.memory.partyId]
    simp [Value.bytes?, Value.int?]
  have submits : member.submit cbor builtins seating i received s =
      (do return (← member.gatherResponse (seating.formation i).pseudonym received, [])) := by
    rw [Member.submit, if_neg noRequest]
  let waiting : Member := { member with handshake := .gatherHello ⟨opId, count, [received]⟩ }
  have gathers : member.gatherResponse (seating.formation i).pseudonym received =
      if count ≤ 1 then waiting.gathered else .ok waiting := by
    rw [Member.gatherResponse, is]
    dsimp only
    rw [if_pos matched]
    rfl
  rw [receives, submits, gathers]
  have waits : MemberSound cbor seating H R i waiting := by
    refine ⟨sound.life, sound.helloAcks, ?_, by simp [waiting]⟩
    rintro _ ⟨rfl⟩ r mem
    rw [List.mem_singleton.mp mem]
    exact ⟨j, partyId, said.acknowledged rfl rfl⟩
  split_ifs with last
  · obtain ⟨member', ends, marked⟩ := gathered_marks waits rfl (List.mem_singleton_self received)
      partyId
    refine ⟨member', ?_, .inl marked⟩
    rw [ends]
    rfl
  · exact ⟨waiting, rfl, .inr ⟨_, rfl, received, List.mem_singleton_self _, partyId⟩⟩

/-- A packet arrives as it was sent. -/
theorem effect_arrive {k : ℕ} {p : PrismMessage} (found : w.packets[k]? = some p) (j : Fin seating.size)
    (s : Sending package) :
    seating.effect cbor builtins tracer threshold w (.arrive j k [] s) =
      (j, (w.members j).receive cbor builtins seating j p s) := by
  rw [Seating.effect, found]
  rfl

/-- A hello arrives, and its response is under way. -/
theorem answered (inv : Invariant cbor builtins seating threshold w) (ne : i ≠ j) {now : ℤ}
    {opId : Bytes} {k : ℕ} {p : PrismMessage} (found : w.packets[k]? = some p)
    (carries : Carries cbor builtins seating w.Heard i j (seating.hello i now opId) p)
    (s : Sending package) :
    let w' := seating.advance cbor builtins tracer threshold w [.arrive j k [] s]
    w'.members i = w.members i ∧ ∃ answer, w'.packets[w.packets.length]? = some answer ∧
      Said seating w'.Heard (w.readyMembers threshold) j i (seating.answer j s.now opId) ∧
      Carries cbor builtins seating w'.Heard j i (seating.answer j s.now opId) answer := by
  intro w'
  obtain ⟨life', answer, receives, keeps, said, carriesAnswer⟩ := @receive_hello _ cbor builtins _ _ _ _
    _ _ (inv.members j) _ _ _ (fun _ => id) carries s
  have moved : w' = ⟨Function.update w.members j { w.members j with life := life' },
      w.packets ++ [answer]⟩ :=
    advance_single (by rw [effect_arrive found, receives])
  have more : ∀ a b, learned w.Heard j { w.members j with life := life' } a b → w'.Heard a b := by
    rw [moved]
    exact heard_update keeps
  refine ⟨?_, answer, ?_, said.mono more subset_rfl, carriesAnswer.mono more⟩
  · rw [moved]
    exact Function.update_of_ne ne ..
  · rw [moved]
    exact List.getElem?_concat_length

variable (tracer) in
/-- **One hello and its response** get a member the acknowledgement of another one. -/
theorem acknowledged_after (inv : Invariant cbor builtins seating threshold w) (ne : i ≠ j)
    (s : Sending package) :
    ∃ later : List (Move package Context seating.size), (∀ move ∈ later, move.isHandshake = true) ∧
      ((j : ℕ) : ℤ) ∈
        ((seating.advance cbor builtins tracer threshold w later).members i).helloAcks := by
  obtain ⟨before, beforeMoves, atHello⟩ := reaches_sayHello tracer inv i s
  set w₀ := seating.advance cbor builtins tracer threshold w before with hw₀
  have inv₀ : Invariant cbor builtins seating threshold w₀ := (inv.advance tracer beforeMoves).1
  by_cases already : ((j : ℕ) : ℤ) ∈ (w₀.members i).helloAcks
  · exact ⟨before, beforeMoves, already⟩
  -- the hello is sent
  obtain ⟨count, packets, p, sends, mem, carries⟩ := @sayHello_sends _ cbor builtins _ _ _ _ _ _
    (inv₀.members i) ne already s.now [] fun _ => s
  let first : Move package Context seating.size := .resume i s.now [] fun _ => s
  set w₁ := seating.advance cbor builtins tracer threshold w₀ [first] with hw₁
  have moved₁ : w₁ = ⟨Function.update w₀.members i { w₀.members i with
      handshake := .gatherHello { opId := [], count } }, w₀.packets ++ packets⟩ :=
    advance_single (by rw [Seating.effect, Member.resume, atHello, sends])
  obtain ⟨inv₁, heard₁, -⟩ := inv₀.advance tracer
    (only_handshake (show first.isHandshake = true from rfl))
  have waits₁ : w₁.members i = { w₀.members i with
      handshake := .gatherHello { opId := [], count } } := by
    rw [moved₁]
    exact Function.update_self ..
  obtain ⟨k, found⟩ : ∃ k : ℕ, w₁.packets[k]? = some p := by
    rw [moved₁]
    exact List.getElem?_of_mem (List.mem_append_right _ mem)
  -- it arrives
  obtain ⟨waits₂, answer, found₂, said, carriesAnswer⟩ := @answered _ _ cbor builtins tracer _ _ _ _ _
    inv₁ ne _ _ k p found (carries.mono heard₁) s
  set w₂ := seating.advance cbor builtins tracer threshold w₁ [.arrive j k [] s] with hw₂
  have inv₂ : Invariant cbor builtins seating threshold w₂ :=
    (inv₁.advance tracer (only_handshake rfl)).1
  -- the response arrives
  obtain ⟨member, receives, marked⟩ := @receive_answer _ cbor builtins _ _ _ _ _ _ _ (inv₂.members i)
    [] count (by rw [waits₂, waits₁]) _ answer (fun _ => id) said carriesAnswer s
  set w₃ := seating.advance cbor builtins tracer threshold w₂ [.arrive i w₁.packets.length [] s]
    with hw₃
  have here : w₃.members i = member := by
    rw [hw₃, advance_single (by rw [effect_arrive found₂, receives])]
    exact Function.update_self ..
  have inv₃ : Invariant cbor builtins seating threshold w₃ :=
    (inv₂.advance tracer (only_handshake rfl)).1
  let so_far := before ++ [first] ++ [.arrive j k [] s] ++ [.arrive i w₁.packets.length [] s]
  have reached : seating.advance cbor builtins tracer threshold w so_far = w₃ := by
    simp only [so_far, advance_append]
    rfl
  have moves : ∀ move ∈ so_far, move.isHandshake = true := by
    simp only [so_far, List.mem_append, List.mem_singleton]
    rintro move (((mem | rfl) | rfl) | rfl)
    · exact beforeMoves move mem
    all_goals rfl
  rcases marked with marked | ⟨gather, waits₃, r, among, partyId⟩
  · refine ⟨so_far, moves, ?_⟩
    rw [reached, here]
    exact marked
  -- the other responses do not come
  · rw [← here] at waits₃
    obtain ⟨member', ends, marked⟩ := gathered_marks (inv₃.members i) waits₃ among partyId
    let last : Move package Context seating.size := .resume i s.now [] fun _ => s
    refine ⟨so_far ++ [last], ?_, ?_⟩
    · simp only [List.mem_append, List.mem_singleton]
      rintro move (mem | rfl)
      · exact moves move mem
      · rfl
    · have effect : seating.effect cbor builtins tracer threshold w₃ last = (i, .ok (member', [])) := by
        rw [Seating.effect, Member.resume, waits₃]
        dsimp only
        rw [ends]
        rfl
      rw [advance_append, reached, advance_single effect]
      dsimp only
      rw [Function.update_self]
      exact marked

variable (cbor) (builtins) (tracer) (seating) (threshold)

/-- **A committee can always complete its handshake**: whatever was lost, and whoever was restarted,
a few moves of the handshake get every member the acknowledgement of every other one. -/
theorem handshake_completes (start : ℤ) (moves : List (Move package Context seating.size))
    (s : Sending package) :
    ∃ later : List (Move package Context seating.size), (∀ move ∈ later, move.isHandshake = true) ∧
      ∀ i j, i ≠ j → ((j : ℕ) : ℤ) ∈
        (((seating.committee cbor builtins tracer threshold start).run
          (moves ++ later)).1.members i).helloAcks := by
  have inv := (invariant_run cbor builtins tracer seating threshold start moves).1
  set w := ((seating.committee cbor builtins tracer threshold start).run moves).1 with hw
  -- one pair of members after the other
  have pairs : ∀ pairs : List (Fin seating.size × Fin seating.size),
      ∃ later : List (Move package Context seating.size),
        (∀ move ∈ later, move.isHandshake = true) ∧ ∀ e ∈ pairs, e.1 ≠ e.2 → ((e.2 : ℕ) : ℤ) ∈
          ((seating.advance cbor builtins tracer threshold w later).members e.1).helloAcks := by
    intro pairs
    induction pairs with
    | nil => exact ⟨[], by simp, by simp⟩
    | cons e pairs ih =>
        obtain ⟨later, handshake, acked⟩ := ih
        by_cases same : e.1 = e.2
        · refine ⟨later, handshake, ?_⟩
          rw [List.forall_mem_cons]
          exact ⟨fun ne => absurd same ne, acked⟩
        · obtain ⟨more, handshake', here⟩ := acknowledged_after tracer
            (inv.advance tracer handshake).1 same s
          have kept := ((inv.advance tracer handshake).1.advance tracer handshake').2.2
          refine ⟨later ++ more, ?_, ?_⟩
          · intro move mem
            exact (List.mem_append.mp mem).elim (handshake move) (handshake' move)
          · rw [List.forall_mem_cons, advance_append]
            exact ⟨fun _ => here, fun other mem ne => kept _ _ (acked other mem ne)⟩
  obtain ⟨later, handshake, acked⟩ :=
    pairs ((List.finRange seating.size).product (List.finRange seating.size))
  refine ⟨later, handshake, fun i j ne => ?_⟩
  rw [run_append]
  exact acked (i, j) (by simp [List.product]) ne

end Progress

end Prism.Lockfree
