import ConsensusRs.Consensus.Consistency

/-!
# Restarts, proposals and decisions of one node

What a node does across rounds and heights, set against what PBFT asks of
it:

* `handleNewHeader_restarts`: `handle_new_header` starts round 0 of the
  height after the chain's last block, unlocked, whatever round and lock the
  node had. When the chain has not moved, a node locked in round 1 goes back
  to round 0 of the same height and drops its lock (`restart_unlocks_toy`).
* `handleNewHeader_outbox`: all that `handle_new_header` sends is pre-prepares
  of round 0 of that height with the miner's proposal, whatever the node
  proposed for that view before: a proposer that gets two new headers of one
  height proposes two blocks in one view (`preprepare_twice_toy`).
* `handlePrepare_prepared`: a prepare taken while the round has a quorum
  moves the node to `Prepared` from whatever state it is in, `Committed`
  included; a late prepare and a late commit then make it commit the height
  a second time (`commit_twice_toy`).

The inversion lemmas `startNewZeroRound_eq_ok` and `handleNewHeader_cases`
say once what those functions can do; the results above read off them.
-/

namespace ConsensusRs

open Framework

variable {K : Extern}

namespace CoreState

variable {c c' : CoreState}

/-- A `send_commit` that returns has only sent. -/
theorem Sends.of_sendCommit (h : c.sendCommit K = .ok c') : Sends c c' := by
  cases hp : c.currentState.preprepare with
  | none => simp [sendCommit, RoundState.proposal, hp] at h
  | some p => exact (sendCommit_sends (by rw [hp]; rfl)).of_ok h

/-- `start_new_zero_round`: round 0 of the height after the chain's last
block, in `AcceptRequest` and unlocked, with the backend as it was. -/
theorem startNewZeroRound_eq_ok (h : c.startNewZeroRound K = .ok c') :
    c'.currentState.height = c.backend.lastProposal.block.height + 1 ∧ c'.currentState.round = 0 ∧
      c'.currentState.lockHash = none ∧ c'.state = .acceptRequest ∧ c'.backend = c.backend := by
  unfold startNewZeroRound at h
  obtain ⟨height, hh, h⟩ := Iff.mp bind_eq_ok h
  obtain ⟨_, -, h⟩ := Iff.mp bind_eq_ok h
  obtain ⟨validators, -, h⟩ := Iff.mp bind_eq_ok h
  rw [pure_eq_ok] at h
  subst h
  obtain ⟨-, rfl⟩ := Iff.mp u64Add_eq_ok hh
  exact ⟨rfl, rfl, rfl, rfl, rfl⟩

/-- What `handle_new_header` can do after `start_new_zero_round`: stop there,
or make the miner's proposal the pending request and send its pre-prepare. -/
theorem handleNewHeader_cases {proposal : Proposal} {r : ConsensusResult}
    (h : c.handleNewHeader K proposal = .ok (r, c')) :
    ∃ c₁, c.startNewZeroRound K = .ok c₁ ∧
      (c' = c₁ ∨ (c₁.accept ⟨proposal⟩).sendPreprepare K ⟨proposal⟩ = .ok c') := by
  unfold handleNewHeader at h
  obtain ⟨c₁, h₁, h⟩ := Iff.mp bind_eq_ok h
  refine ⟨c₁, h₁, ?_⟩
  split at h
  · rw [pure_eq_ok, Prod.mk.injEq] at h
    exact .inl h.2.symm
  · obtain ⟨_, -, h⟩ := Iff.mp bind_eq_ok h
    obtain ⟨c₂, h₂, h⟩ := Iff.mp bind_eq_ok h
    rw [pure_eq_ok, Prod.mk.injEq] at h
    exact .inr (h.2 ▸ h₂)

/-- A new header restarts the node at round 0 of the height after the
chain's last block, with no lock, whatever its round and lock were. -/
theorem handleNewHeader_restarts {proposal : Proposal} {r : ConsensusResult}
    (h : c.handleNewHeader K proposal = .ok (r, c')) :
    c'.currentState.height = c.backend.lastProposal.block.height + 1 ∧ c'.currentState.round = 0 ∧
      c'.currentState.lockHash = none := by
  obtain ⟨c₁, h₁, h | h⟩ := handleNewHeader_cases h
  · obtain ⟨hh, hr, hl, -, -⟩ := startNewZeroRound_eq_ok h₁
    exact h ▸ ⟨hh, hr, hl⟩
  · obtain ⟨hh, hr, hl, -, -⟩ := startNewZeroRound_eq_ok h₁
    -- the pending request is all `accept` changes of the round state
    rw [((sendPreprepare_sends _).of_ok h).currentState]
    exact ⟨hh, hr, hl⟩

/-- A prepare that `HandlePrepare::handle` takes, and after which the round
has a quorum, leaves the node in `Prepared`, whatever state it was in. -/
theorem handlePrepare_prepared {msg : GossipMessage} {src : Validator}
    (h : c.handlePrepare K msg src = .ok (.ok (), c'))
    (hq : c'.validators.twoThirdsMajority < c'.currentState.getPrepareOrCommitSize) : c'.state = .prepared := by
  have key : Ensures (c.handlePrepare K msg src)
      (fun p => p.1 = .ok () → p.2.validators.twoThirdsMajority < p.2.currentState.getPrepareOrCommitSize →
        p.2.state = .prepared) (fun _ => True) := by
    unfold handlePrepare
    refine (Ensures.of_forall_ok (Q := fun _ => True) (fun _ _ => trivial) fun _ _ => trivial).bind
      fun subject _ => ?_
    split
    · exact Ensures.pure fun h => by cases h
    split
    · exact Ensures.pure fun h => by cases h
    split
    · exact Ensures.pure fun h => by cases h
    dsimp only
    refine Ensures.ite_bind (P := fun _ => True) (fun _ => Ensures.of_forall_ok (fun _ _ => trivial)
      fun _ _ => trivial) (fun _ => Ensures.pure trivial) fun c₂ _ => ?_
    -- the quorum branch ends in `Prepared`; the other leaves the node as it is, without a quorum
    refine Ensures.ite_bind (P := fun c₃ => c₃.state = .prepared ∨
        c₃ = c₂ ∧ ¬c₂.currentState.getPrepareOrCommitSize > c₂.validators.twoThirdsMajority)
      (fun _ => Ensures.of_forall_ok (fun c₃ h₃ => .inl (Sends.of_sendCommit h₃).state) fun _ _ => trivial)
      (fun hn => Ensures.pure (.inr ⟨rfl, hn⟩)) fun c₃ hc₃ => Ensures.pure fun _ hq => ?_
    rcases hc₃ with hc₃ | ⟨rfl, hn⟩
    · exact hc₃
    · exact absurd hq hn
  exact key.of_ok h rfl hq

end CoreState

/-! ## Runs of the node of key byte 2, and of the proposer -/

/-- A new header for the node of key byte 2 once it has started. -/
theorem handleNewHeader_restarts_toy :
    ∃ c₀ r c', Core.run Extern.toy (toyBackend 2) (toyKey 2) toyAddresses 100 = .ok c₀ ∧
      c₀.handleNewHeader Extern.toy ⟨toyBlock1 5⟩ = .ok (r, c') ∧
      c'.currentState.height = c₀.backend.lastProposal.block.height + 1 ∧ c'.currentState.round = 0 ∧
      c'.currentState.lockHash = none := by
  have h := exists_of_okAnd (x := Core.run Extern.toy (toyBackend 2) (toyKey 2) toyAddresses 100)
    (p := fun c₀ => okAnd (fun _ => true) (c₀.handleNewHeader Extern.toy ⟨toyBlock1 5⟩)) (by decide)
  obtain ⟨c₀, h₀, h⟩ := h
  obtain ⟨⟨r, c'⟩, h₁, -⟩ := exists_of_okAnd h
  exact ⟨c₀, r, c', h₀, h₁, CoreState.handleNewHeader_restarts h₁⟩

/-- The node of key byte 2 locks on `toyBlock1 5` in round 0, moves to
round 1 on the votes of the three others, still locked, and a new header
then takes it back to round 0 of height 1, unlocked. -/
theorem restart_unlocks_toy :
    ∃ c₀ c₁ c₂, Core.run Extern.toy (toyBackend 2) (toyKey 2) toyAddresses 100 = .ok c₀ ∧
      runFrom (CoreState.step Extern.toy) c₀
        (toyPrepares (toyHash 5) ++ [1, 3, 4].map fun k => .core 400 (.message (toyRoundChange k 1))) = .ok c₁ ∧
      c₁.step Extern.toy (.core 500 (.newHeader ⟨toyBlock1 7⟩)) = .ok c₂ ∧
      c₁.currentState.height = 1 ∧ c₁.currentState.round = 1 ∧ c₁.currentState.lockHash = some (toyHash 5) ∧
      c₂.currentState.height = 1 ∧ c₂.currentState.round = 0 ∧ c₂.currentState.lockHash = none := by
  have h := exists_of_okAnd (x := Core.run Extern.toy (toyBackend 2) (toyKey 2) toyAddresses 100)
    (p := fun c₀ => okAnd (fun c₁ => okAnd (fun c₂ => decide (c₁.currentState.height = 1 ∧
        c₁.currentState.round = 1 ∧ c₁.currentState.lockHash = some (toyHash 5) ∧
        c₂.currentState.height = 1 ∧ c₂.currentState.round = 0 ∧ c₂.currentState.lockHash = none))
          (c₁.step Extern.toy (.core 500 (.newHeader ⟨toyBlock1 7⟩))))
      (runFrom (CoreState.step Extern.toy) c₀
        (toyPrepares (toyHash 5) ++ [1, 3, 4].map fun k => .core 400 (.message (toyRoundChange k 1)))))
    (by decide)
  obtain ⟨c₀, h₀, h⟩ := h
  obtain ⟨c₁, h₁, h⟩ := exists_of_okAnd h
  obtain ⟨c₂, h₂, h⟩ := exists_of_okAnd h
  exact ⟨c₀, c₁, c₂, h₀, h₁, h₂, of_decide_eq_true h⟩

/-- The third prepare of round 0 gives the node of key byte 2 a quorum. -/
theorem handlePrepare_prepared_toy :
    ∃ c₀ c c', Core.run Extern.toy (toyBackend 2) (toyKey 2) toyAddresses 100 = .ok c₀ ∧
      runFrom (CoreState.step Extern.toy) c₀ ((toyPrepares (toyHash 5)).take 3) = .ok c ∧
      c.handlePrepare Extern.toy (toyPrepare 4 0 (toyHash 5)) ⟨(toyKey 4).address Extern.toy⟩ = .ok (.ok (), c') ∧
      c'.validators.twoThirdsMajority < c'.currentState.getPrepareOrCommitSize ∧ c'.state = .prepared := by
  have h := exists_of_okAnd (x := Core.run Extern.toy (toyBackend 2) (toyKey 2) toyAddresses 100)
    (p := fun c₀ => okAnd (fun c => okAnd (fun r => decide (r.1 = .ok () ∧
        r.2.validators.twoThirdsMajority < r.2.currentState.getPrepareOrCommitSize))
          (c.handlePrepare Extern.toy (toyPrepare 4 0 (toyHash 5)) ⟨(toyKey 4).address Extern.toy⟩))
      (runFrom (CoreState.step Extern.toy) c₀ ((toyPrepares (toyHash 5)).take 3))) (by decide)
  obtain ⟨c₀, h₀, h⟩ := h
  obtain ⟨c, h₁, h⟩ := exists_of_okAnd h
  obtain ⟨⟨r, c'⟩, h₂, h⟩ := exists_of_okAnd h
  obtain ⟨rfl, hq⟩ := of_decide_eq_true h
  exact ⟨c₀, c, c', h₀, h₁, h₂, hq, CoreState.handlePrepare_prepared h₂ hq⟩

/-- The node of key byte 2 commits `toyBlock1 5` in round 0 of height 1; its
own prepare, arriving late, takes it from `Committed` back to `Prepared`,
and its own commit, arriving late, makes it commit height 1 again. -/
theorem commit_twice_toy :
    ∃ c₀ c₁ c₂ c₃, Core.run Extern.toy (toyBackend 2) (toyKey 2) toyAddresses 100 = .ok c₀ ∧
      runFrom (CoreState.step Extern.toy) c₀ (toyCommits (toyHash 5)) = .ok c₁ ∧
      c₁.step Extern.toy (.core 400 (.message (toyPrepare 2 0 (toyHash 5)))) = .ok c₂ ∧
      c₂.step Extern.toy (.core 410 (.message (toyCommit 2 0 (toyHash 5)))) = .ok c₃ ∧
      c₁.state = .committed ∧ c₁.backend.committed.length = 1 ∧ c₂.state = .prepared ∧
      c₃.currentState.height = 1 ∧ c₃.backend.committed.length = 2 ∧
      ∀ b ∈ c₃.backend.committed, b.height = 1 := by
  have h := exists_of_okAnd (x := Core.run Extern.toy (toyBackend 2) (toyKey 2) toyAddresses 100)
    (p := fun c₀ => okAnd (fun c₁ => okAnd (fun c₂ => okAnd (fun c₃ => decide (c₁.state = .committed ∧
        c₁.backend.committed.length = 1 ∧ c₂.state = .prepared ∧ c₃.currentState.height = 1 ∧
        c₃.backend.committed.length = 2 ∧ ∀ b ∈ c₃.backend.committed, b.height = 1))
          (c₂.step Extern.toy (.core 410 (.message (toyCommit 2 0 (toyHash 5))))))
        (c₁.step Extern.toy (.core 400 (.message (toyPrepare 2 0 (toyHash 5))))))
      (runFrom (CoreState.step Extern.toy) c₀ (toyCommits (toyHash 5)))) (by decide)
  obtain ⟨c₀, h₀, h⟩ := h
  obtain ⟨c₁, h₁, h⟩ := exists_of_okAnd h
  obtain ⟨c₂, h₂, h⟩ := exists_of_okAnd h
  obtain ⟨c₃, h₃, h⟩ := exists_of_okAnd h
  exact ⟨c₀, c₁, c₂, c₃, h₀, h₁, h₂, h₃, of_decide_eq_true h⟩

end ConsensusRs
