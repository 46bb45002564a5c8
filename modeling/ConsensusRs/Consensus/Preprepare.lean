import ConsensusRs.Consensus.Handlers

/-!
# What a node takes as the round's pre-prepare

`HandlePreprepare::handle` stores a pre-prepare as the round's (`accetp`)
after `check_message`, the proposer check and `verify`. `check_message`
compares heights only, and a pre-prepare of a later height, a
`FutureBlockMessage`, goes on to the same checks as one of the current
height:

* `handlePreprepare_stores`: a pre-prepare the node stores comes from the
  current proposer, in `AcceptRequest`, with a proposal `verify` accepts,
  and has a nonzero height no lower than the node's, in any round;
  `handlePreprepare_view_toy` has the node of key byte 2, at round 0 of
  height 1, store a pre-prepare of round 7 and one of height 5;
* `handleMessage_genesis_underflow`: the `OldMessage` branch subtracts 1
  from the height of the block it is sent before it checks the sender: a
  validator that sends the genesis block again, in a pre-prepare of an
  earlier height, makes the node underflow.
-/

namespace ConsensusRs

open Framework

namespace CoreState

variable (K : Extern)

/-- What handling a pre-prepare `p` from `src` does to the round's
pre-prepare: it keeps it, or it takes `p`, which it does only in
`AcceptRequest`, from the round's proposer, on a proposal `verify`
accepts. -/
def TakesPreprepare (c : CoreState) (src : Validator) (p : PrePrepare) (c' : CoreState) : Prop :=
  c'.currentState.preprepare = c.currentState.preprepare ∨
    c'.currentState.preprepare = some p ∧ c.state = .acceptRequest ∧ c.validators.isProposer src.address = true ∧
      c.backend.verify K p.proposal = .ok (.ok ())

variable {K} {c c' : CoreState}

theorem TakesPreprepare.of_sends {src : Validator} {p : PrePrepare} (h : Sends c c') : TakesPreprepare K c src p c' :=
  .inl (congrArg RoundState.preprepare h.currentState)

/-- A handler that answers with its state as it was keeps it. -/
theorem eq_of_pure_pair {x r : ConsensusResult} (h : (pure (x, c) : Except Abort _) = .ok (r, c')) : c' = c :=
  (congrArg Prod.snd (Iff.mp pure_eq_ok h)).symm

/-- `check_message` lets a pre-prepare through, as one of the current
height or of a later one, only at a nonzero height no lower than the
node's. -/
theorem checkMessage_preprepare_height {v : View} {n : Nat}
    (h : c.checkMessage .preprepare v = .ok () ∨ c.checkMessage .preprepare v = .error (.futureBlockMessage n)) :
    c.currentState.height ≤ v.height ∧ 0 < v.height := by
  unfold checkMessage at h
  split_ifs at h with h0 hrc hgt hlt <;> simp_all <;> omega

theorem handleCurrentPreprepare_takes {now : Nat} {p : PrePrepare} {src : Validator} {r : ConsensusResult}
    (h : c.handleCurrentPreprepare K now p src = .ok (r, c')) : TakesPreprepare K c src p c' := by
  unfold handleCurrentPreprepare at h
  split at h
  · exact .inl (by rw [eq_of_pure_pair h])
  rename_i hsrc
  have hsrc : c.validators.isProposer src.address = true := by simpa using hsrc
  obtain ⟨v, hv, h⟩ := Iff.mp bind_eq_ok h
  split at h
  · exact .inl (by rw [eq_of_pure_pair h])
  · -- an invalid proposal: a vote for the next round
    obtain ⟨c₁, hc₁, h⟩ := Iff.mp bind_eq_ok h
    rw [eq_of_pure_pair h]
    exact .of_sends ((sendNextRoundChange_sends now).of_ok hc₁)
  · split at h
    · rename_i hstate
      split at h
      · split at h
        · -- the proposal the node is locked on: taken, and a commit sent
          obtain ⟨c₁, hc₁, h⟩ := Iff.mp bind_eq_ok h
          rw [eq_of_pure_pair h]
          have hs := (sendCommit_sends rfl).of_ok hc₁
          exact .inr ⟨by rw [hs.currentState]; rfl, hstate, hsrc, hv⟩
        · obtain ⟨c₁, hc₁, h⟩ := Iff.mp bind_eq_ok h
          rw [eq_of_pure_pair h]
          exact .of_sends ((sendNextRoundChange_sends now).of_ok hc₁)
      · -- no lock: taken, and a prepare sent
        obtain ⟨c₁, hc₁, h⟩ := Iff.mp bind_eq_ok h
        rw [eq_of_pure_pair h]
        have hs := (sendPrepare_sends rfl).of_ok hc₁
        exact .inr ⟨by rw [hs.currentState]; rfl, hstate, hsrc, hv⟩
    · exact .inl (by rw [eq_of_pure_pair h])

/-- The `OldMessage` branch of `handle` keeps the round's pre-prepare. -/
theorem handleOldPreprepare_keeps {now : Nat} {msg : GossipMessage} {src : Validator} {p : PrePrepare}
    {r : ConsensusResult} (hold : c.checkMessage .preprepare p.view = .error .oldMessage)
    (hp : msg.msg.toPreprepare = .ok p) (h : c.handlePreprepare K now msg src = .ok (r, c')) :
    c'.currentState.preprepare = c.currentState.preprepare := by
  simp only [handlePreprepare, hp, ok_bind, hold] at h
  split at h
  · rw [eq_of_pure_pair h]
  split at h
  · rw [eq_of_pure_pair h]
  obtain ⟨_, -, h⟩ := Iff.mp bind_eq_ok h
  obtain ⟨_, -, h⟩ := Iff.mp bind_eq_ok h
  split at h
  · obtain ⟨c₁, hc₁, h⟩ := Iff.mp bind_eq_ok h
    rw [eq_of_pure_pair h, ((sendCommitForOldBlock_sends _ _).of_ok hc₁).currentState]
  · rw [eq_of_pure_pair h]

theorem toPreprepare_eq_ok {body : Body} {p : PrePrepare} (h : body.toPreprepare = .ok p) : body = .preprepare p := by
  cases body with
  | preprepare q => cases h; rfl
  | subject _ => cases h
  | raw _ => cases h

/-- A pre-prepare the node stores as the round's comes from the current
proposer, in `AcceptRequest`, with a proposal `verify` accepts, at a
nonzero height no lower than the node's; its round is not checked. -/
theorem handlePreprepare_stores {now : Nat} {msg : GossipMessage} {src : Validator} {r : ConsensusResult}
    (h : c.handlePreprepare K now msg src = .ok (r, c'))
    (hnew : c'.currentState.preprepare ≠ c.currentState.preprepare) :
    ∃ p, msg.msg = .preprepare p ∧ c'.currentState.preprepare = some p ∧ c.state = .acceptRequest ∧
      c.validators.isProposer src.address = true ∧ c.backend.verify K p.proposal = .ok (.ok ()) ∧
      c.currentState.height ≤ p.view.height ∧ 0 < p.view.height := by
  obtain ⟨p, hp, hrest⟩ := Iff.mp bind_eq_ok h
  -- only the two branches that go on to `handleCurrentPreprepare` can take it
  obtain ⟨n, hcheck, hcur⟩ : ∃ n, (c.checkMessage .preprepare p.view = .ok () ∨
      c.checkMessage .preprepare p.view = .error (.futureBlockMessage n)) ∧
      c.handleCurrentPreprepare K now p src = .ok (r, c') := by
    dsimp only at hrest
    split at hrest
    · rename_i hold
      exact absurd (handleOldPreprepare_keeps hold hp h) hnew
    · rename_i n hfuture
      exact ⟨n, .inr hfuture, hrest⟩
    · exact absurd (by rw [eq_of_pure_pair hrest]) hnew
    · rename_i hok
      exact ⟨0, .inl hok, hrest⟩
  rcases handleCurrentPreprepare_takes hcur with hkeep | ⟨hstored, hstate, hsrc, hv⟩
  · exact absurd hkeep hnew
  · exact ⟨p, toPreprepare_eq_ok hp, hstored, hstate, hsrc, hv, checkMessage_preprepare_height hcheck⟩

/-- `handle_message` on a pre-prepare, signed by a validator, of a nonzero
height below the node's, whose block has height 0 and the hash of the
chain's first block: the `OldMessage` branch takes `0 - 1` as the parent's
height, before it looks at the sender. -/
theorem handleMessage_genesis_underflow {now : Nat} {msg : GossipMessage} {a : Address} {p : PrePrepare} {g : Block}
    (hsize : c.validators.size ≠ 0) (hsig : msg.recoverAddress K = .ok a)
    (hval : (c.validators.getByAddress a).isSome) (hcode : msg.code = .preprepare) (hmsg : msg.msg = .preprepare p)
    (hview : 0 < p.view.height) (hold : p.view.height < c.currentState.height) (hg : c.backend.chain[0]? = some g)
    (hheight : p.proposal.block.height = 0) (hhash : p.proposal.block.hash K = g.hash K) :
    c.handleMessage K now msg = .error (.overflow .handlePreprepare) := by
  obtain ⟨v, hv⟩ := Option.isSome_iff_exists.mp hval
  have hcheck : c.checkMessage .preprepare p.view = .error .oldMessage := by
    have hne : p.view.height ≠ 0 := Nat.pos_iff_ne_zero.mp hview
    have hngt : ¬ p.view.height > c.currentState.height := by omega
    simp [checkMessage, hne, hngt, hold]
  have hheader : c.backend.getHeaderByHeight 0 = some g.header := by
    rw [ImplBackend.getHeaderByHeight, hg, Option.map_some]
  -- the block is the chain's first one: the branch goes on to `block.height() - 1`
  have hparent : g.header.blockHash K = p.proposal.block.hash K := hhash.symm
  simp only [handleMessage, hsize, if_false, hsig, hv, handleCheckMessage, hcode, handlePreprepare, hmsg,
    Body.toPreprepare, ok_bind, hcheck, hheight, hheader, hparent, u64Sub, Nat.one_le_iff_ne_zero, ne_eq,
    not_true_eq_false, if_false, error_bind]

end CoreState

/-! ## The node of key byte 2 -/

/-- A pre-prepare of a block for the view `v`, from the validator of key
byte 1, the proposer of round 0 of height 1. -/
def toyPreprepareAt (v : View) (b : Block) : GossipMessage :=
  toySigned 1 (.new .preprepare (.preprepare ⟨v, ⟨b⟩⟩) none)

/-- The node of key byte 2, at round 0 of height 1, stores a pre-prepare of
round 7. -/
theorem handlePreprepare_stores_toy :
    ∃ c r c', Core.run Extern.toy (toyBackend 2) (toyKey 2) toyAddresses 100 = .ok c ∧
      c.handlePreprepare Extern.toy 200 (toyPreprepareAt ⟨7, 1⟩ (toyBlock1 5)) ⟨(toyKey 1).address Extern.toy⟩ =
        .ok (r, c') ∧
      c'.currentState.preprepare ≠ c.currentState.preprepare ∧
      ∃ p, (toyPreprepareAt ⟨7, 1⟩ (toyBlock1 5)).msg = .preprepare p ∧ c'.currentState.preprepare = some p ∧
        c.state = .acceptRequest ∧ c.validators.isProposer ((toyKey 1).address Extern.toy) = true ∧
        c.backend.verify Extern.toy p.proposal = .ok (.ok ()) ∧ c.currentState.height ≤ p.view.height ∧
        0 < p.view.height := by
  have h := exists_of_okAnd (x := Core.run Extern.toy (toyBackend 2) (toyKey 2) toyAddresses 100)
    (p := fun c => okAnd (fun rc => decide (rc.2.currentState.preprepare ≠ c.currentState.preprepare))
      (c.handlePreprepare Extern.toy 200 (toyPreprepareAt ⟨7, 1⟩ (toyBlock1 5)) ⟨(toyKey 1).address Extern.toy⟩))
    (by decide)
  obtain ⟨c, hc, h⟩ := h
  obtain ⟨⟨r, c'⟩, h₁, hnew⟩ := exists_of_okAnd h
  exact ⟨c, r, c', hc, h₁, of_decide_eq_true hnew, CoreState.handlePreprepare_stores h₁ (of_decide_eq_true hnew)⟩

/-- At round 0 of height 1, the node of key byte 2 takes a pre-prepare of
round 7, and one of height 5 whose block has height 1, as the round's. -/
theorem handlePreprepare_view_toy :
    ∃ c c₁ c₂, Core.run Extern.toy (toyBackend 2) (toyKey 2) toyAddresses 100 = .ok c ∧ c.currentView = ⟨0, 1⟩ ∧
      c.step Extern.toy (.core 200 (.message (toyPreprepareAt ⟨7, 1⟩ (toyBlock1 5)))) = .ok c₁ ∧
      c₁.currentState.preprepare.map PrePrepare.view = some ⟨7, 1⟩ ∧
      c.step Extern.toy (.core 200 (.message (toyPreprepareAt ⟨0, 5⟩ (toyBlock1 5)))) = .ok c₂ ∧
      c₂.currentState.preprepare.map PrePrepare.view = some ⟨0, 5⟩ ∧ c₂.currentView = ⟨0, 1⟩ ∧
      (toyBlock1 5).height = 1 := by
  have h := exists_of_okAnd (x := Core.run Extern.toy (toyBackend 2) (toyKey 2) toyAddresses 100)
    (p := fun c => decide (c.currentView = ⟨0, 1⟩) &&
      okAnd (fun c₁ => decide (c₁.currentState.preprepare.map PrePrepare.view = some ⟨7, 1⟩))
        (c.step Extern.toy (.core 200 (.message (toyPreprepareAt ⟨7, 1⟩ (toyBlock1 5))))) &&
      okAnd (fun c₂ => decide (c₂.currentState.preprepare.map PrePrepare.view = some ⟨0, 5⟩ ∧ c₂.currentView = ⟨0, 1⟩))
        (c.step Extern.toy (.core 200 (.message (toyPreprepareAt ⟨0, 5⟩ (toyBlock1 5))))))
    (by decide)
  obtain ⟨c, hc, h⟩ := h
  simp only [Bool.and_eq_true] at h
  obtain ⟨⟨hview, h₁⟩, h₂⟩ := h
  obtain ⟨c₁, hc₁, hv₁⟩ := exists_of_okAnd h₁
  obtain ⟨c₂, hc₂, hv₂⟩ := exists_of_okAnd h₂
  obtain ⟨hv₂, hview₂⟩ := of_decide_eq_true hv₂
  exact ⟨c, c₁, c₂, hc, of_decide_eq_true hview, hc₁, of_decide_eq_true hv₁, hc₂, hv₂, hview₂, rfl⟩

/-- The node of key byte 2 at height 2, once block 1 is in its chain. -/
def toyHeight2 : List Event := [.block (toyBlock1 5), .core 300 (.newHeader ⟨toyBlock1 5⟩)]

/-- At height 2, the node of key byte 2 gets the genesis block again, in a
pre-prepare of height 1 from the validator of key byte 1. -/
theorem handleMessage_genesis_underflow_toy :
    ∃ c₀ c, Core.run Extern.toy (toyBackend 2) (toyKey 2) toyAddresses 100 = .ok c₀ ∧
      runFrom (CoreState.step Extern.toy) c₀ toyHeight2 = .ok c ∧
      c.validators.size ≠ 0 ∧
      (toyPreprepareAt ⟨0, 1⟩ toyGenesis).recoverAddress Extern.toy = .ok ((toyKey 1).address Extern.toy) ∧
      (c.validators.getByAddress ((toyKey 1).address Extern.toy)).isSome ∧
      (toyPreprepareAt ⟨0, 1⟩ toyGenesis).code = .preprepare ∧
      (toyPreprepareAt ⟨0, 1⟩ toyGenesis).msg = .preprepare ⟨⟨0, 1⟩, ⟨toyGenesis⟩⟩ ∧
      1 < c.currentState.height ∧ c.backend.chain[0]? = some toyGenesis ∧ toyGenesis.height = 0 ∧
      c.handleMessage Extern.toy 400 (toyPreprepareAt ⟨0, 1⟩ toyGenesis) = .error (.overflow .handlePreprepare) := by
  have h := exists_of_okAnd (x := Core.run Extern.toy (toyBackend 2) (toyKey 2) toyAddresses 100)
    (p := fun c₀ => okAnd (fun c => decide (c.validators.size ≠ 0 ∧
        (c.validators.getByAddress ((toyKey 1).address Extern.toy)).isSome ∧ 1 < c.currentState.height ∧
        c.backend.chain[0]? = some toyGenesis))
      (runFrom (CoreState.step Extern.toy) c₀ toyHeight2)) (by decide)
  obtain ⟨c₀, h₀, h⟩ := h
  obtain ⟨c, h₁, h⟩ := exists_of_okAnd h
  obtain ⟨hsize, hval, hheight, hg⟩ := of_decide_eq_true h
  have hsig : (toyPreprepareAt ⟨0, 1⟩ toyGenesis).recoverAddress Extern.toy = .ok ((toyKey 1).address Extern.toy) := by
    decide
  exact ⟨c₀, c, h₀, h₁, hsize, hsig, hval, rfl, rfl, hheight, hg, rfl,
    CoreState.handleMessage_genesis_underflow hsize hsig hval rfl rfl Nat.one_pos hheight hg rfl rfl⟩

/-- At height 2, the node of key byte 2 aborts on the genesis block sent
again in a pre-prepare of height 1. -/
theorem genesis_preprepare_underflow_toy :
    ∃ c₀, Core.run Extern.toy (toyBackend 2) (toyKey 2) toyAddresses 100 = .ok c₀ ∧
      runFrom (CoreState.step Extern.toy) c₀ (toyHeight2 ++ [.core 400 (.message (toyPreprepareAt ⟨0, 1⟩ toyGenesis))]) =
        .error (.overflow .handlePreprepare) := by
  have h := exists_of_okAnd (x := Core.run Extern.toy (toyBackend 2) (toyKey 2) toyAddresses 100)
    (p := fun c₀ => errorAnd (fun e => decide (e = .overflow .handlePreprepare))
      (runFrom (CoreState.step Extern.toy) c₀ (toyHeight2 ++ [.core 400 (.message (toyPreprepareAt ⟨0, 1⟩ toyGenesis))])))
    (by decide)
  obtain ⟨c₀, h₀, h⟩ := h
  obtain ⟨e, he, hovf⟩ := exists_of_errorAnd h
  exact ⟨c₀, h₀, (of_decide_eq_true hovf) ▸ he⟩

end ConsensusRs
