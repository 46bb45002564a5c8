import ConsensusRs.Consensus.Rounds

/-!
# What a quorum and a commit certificate rest on

* `handlePrepare_counts_any_digest`: `HandlePrepare::handle` files a prepare
  of the current view from a validator, whatever digest it carries, and the
  quorum it then checks (`get_prepare_or_commit_size`) counts the senders of
  every filed prepare and commit. A node that has the pre-prepare of one
  block locks on it and commits it on prepares and commits for another
  (`commit_on_other_digest_toy`).
* `commit_seals_rejected`: the block `CoreState::commit` hands to the backend
  carries in its votes the envelope signatures of the round's commits (not
  their commit seals), and `verify_seal` accepts no header
  (`verifySeal_ne_ok`): the certificate the consensus writes is never one the
  verifier takes (`committed_seal_rejected_toy`).
-/

namespace ConsensusRs

open Framework

variable {K : Extern}

namespace CoreState

variable {c c' : CoreState}

/-- The prepare of the current view from a validator is taken: the node
files it among the round's prepares, whatever its digest, and only signing
a commit can abort. -/
theorem handlePrepare_counts_any_digest {msg : GossipMessage} {src : Validator} {digest : Hash}
    (hs : c.state ≠ .acceptRequest) (hp : c.currentState.preprepare.isSome) (hh : c.currentState.height ≠ 0)
    (hmsg : msg.msg = .subject ⟨c.currentView, digest⟩)
    (hv : (c.currentState.prepares.valSet.getByAddress msg.address).isSome) :
    Ensures (c.handlePrepare K msg src)
      (fun r => r.1 = .ok () ∧ r.2.currentState.prepares = c.currentState.prepares.addVerifyMessage msg)
      SendAbort := by
  have hcheck : c.checkMessage .prepare c.currentView = .ok () := by
    simp [checkMessage, currentView, hh, hs]
  have hverify : c.verifyPrepare ⟨c.currentView, digest⟩ src = .ok () := by
    simp [verifyPrepare]
  have hadd : c.currentState.prepares.add msg = .ok (c.currentState.prepares.addVerifyMessage msg) :=
    Iff.mpr MessageManage.add_eq_ok ⟨hv, rfl⟩
  unfold handlePrepare
  simp only [hmsg, Body.toSubject, ok_bind, hcheck, hverify, hadd]
  -- both branches that lock and send a commit keep the prepares and the pre-prepare
  refine Ensures.ite_bind (P := fun c₂ => c₂.currentState.prepares = c.currentState.prepares.addVerifyMessage msg ∧
      c₂.currentState.preprepare.isSome)
    (fun _ => (sendCommit_sends (by simpa [setState] using hp)).mono
      (fun c₂ h₂ => by rw [h₂.currentState]; exact ⟨by simp [setState], by simpa [setState] using hp⟩)
      fun _ ha => ha)
    (fun _ => Ensures.pure ⟨rfl, hp⟩) fun c₂ hc₂ => ?_
  refine Ensures.ite_bind (P := fun c₃ => c₃.currentState.prepares = c.currentState.prepares.addVerifyMessage msg)
    (fun _ => (sendCommit_sends (by simpa [setState] using hc₂.2)).mono
      (fun c₃ h₃ => by rw [h₃.currentState]; simpa [setState] using hc₂.1) fun _ ha => ha)
    (fun _ => Ensures.pure hc₂.1) fun c₃ hc₃ => Ensures.pure ⟨rfl, hc₃⟩

/-- The block `commit` hands to the backend: its votes hold the envelope
signatures of the round's commits, and `verify_seal` rejects its header. -/
theorem commit_seals_rejected (h : c.commit K = .ok c') :
    ∃ block votes, c'.backend.committed = c.backend.committed ++ [block] ∧ block.header.votes = some votes ∧
      (∀ m ∈ c.currentState.commits.values, ∀ sig, m.signature = some sig → sig ∈ votes.votes) ∧
      ∀ b : ImplBackend, b.verifySeal K block.header ≠ .ok (.ok ()) := by
  unfold commit at h
  obtain ⟨seals, hseals, h⟩ := Iff.mp bind_eq_ok h
  obtain ⟨_, -, h⟩ := Iff.mp bind_eq_ok h
  obtain ⟨proposal, -, h⟩ := Iff.mp bind_eq_ok h
  obtain ⟨backend, hb, h⟩ := Iff.mp bind_eq_ok h
  rw [ImplBackend.commit_eq, Except.ok.injEq] at hb
  rw [pure_eq_ok] at h
  subst h hb
  refine ⟨(proposal.setSeal seals).block, _, rfl, rfl, fun m hm sig hsig => ?_,
    fun b => ImplBackend.verifySeal_ne_ok _⟩
  -- the seals are what `mapM` made of the envelope signatures
  have hmem : sig ∈ seals := mem_of_mapM_eq_ok hseals m hm sig (by rw [hsig]; rfl)
  exact Votes.mem_addVotes hmem

end CoreState

/-- A prepare of another digest, after the node of key byte 2 has the
pre-prepare of `toyBlock1 5`. -/
theorem handlePrepare_counts_any_digest_toy :
    ∃ c₀ c, Core.run Extern.toy (toyBackend 2) (toyKey 2) toyAddresses 100 = .ok c₀ ∧
      runFrom (CoreState.step Extern.toy) c₀ ((toyPrepares (toyHash 6)).take 1) = .ok c ∧
      c.state ≠ .acceptRequest ∧ c.currentState.preprepare.isSome ∧ c.currentState.height ≠ 0 ∧
      (toyPrepare 3 0 (toyHash 6)).msg = .subject ⟨c.currentView, toyHash 6⟩ ∧
      (c.currentState.prepares.valSet.getByAddress (toyPrepare 3 0 (toyHash 6)).address).isSome ∧
      Ensures (c.handlePrepare Extern.toy (toyPrepare 3 0 (toyHash 6)) ⟨(toyKey 3).address Extern.toy⟩)
        (fun r => r.1 = .ok () ∧
          r.2.currentState.prepares = c.currentState.prepares.addVerifyMessage (toyPrepare 3 0 (toyHash 6)))
        CoreState.SendAbort := by
  have h := exists_of_okAnd (x := Core.run Extern.toy (toyBackend 2) (toyKey 2) toyAddresses 100)
    (p := fun c₀ => okAnd (fun c => decide (c.state ≠ .acceptRequest ∧ c.currentState.preprepare.isSome ∧
        c.currentState.height ≠ 0 ∧ (toyPrepare 3 0 (toyHash 6)).msg = .subject ⟨c.currentView, toyHash 6⟩ ∧
        (c.currentState.prepares.valSet.getByAddress (toyPrepare 3 0 (toyHash 6)).address).isSome))
      (runFrom (CoreState.step Extern.toy) c₀ ((toyPrepares (toyHash 6)).take 1))) (by decide)
  obtain ⟨c₀, h₀, h⟩ := h
  obtain ⟨c, h₁, h⟩ := exists_of_okAnd h
  obtain ⟨hs, hp, hh, hmsg, hv⟩ := of_decide_eq_true h
  exact ⟨c₀, c, h₀, h₁, hs, hp, hh, hmsg, hv, CoreState.handlePrepare_counts_any_digest hs hp hh hmsg hv⟩

/-- The node of key byte 2 has the pre-prepare of `toyBlock1 5`, and gets
prepares and then commits of round 0 for the hash of `toyBlock1 6` from the
three others: it locks on `toyBlock1 5` and commits it, though no message it
counted is for that block. -/
theorem commit_on_other_digest_toy :
    ∃ c₀ c, Core.run Extern.toy (toyBackend 2) (toyKey 2) toyAddresses 100 = .ok c₀ ∧
      runFrom (CoreState.step Extern.toy) c₀ (toyCommits (toyHash 6)) = .ok c ∧
      c.backend.committed.map (Block.hash Extern.toy) = [toyHash 5] ∧
      c.currentState.lockHash = some (toyHash 5) ∧
      c.validators.twoThirdsMajority < c.currentState.prepares.len ∧
      (∀ m ∈ c.currentState.prepares.values, m.msg = .subject ⟨⟨0, 1⟩, toyHash 6⟩) ∧
      c.validators.twoThirdsMajority < c.currentState.commits.len ∧
      (∀ m ∈ c.currentState.commits.values, m.msg = .subject ⟨⟨0, 1⟩, toyHash 6⟩) ∧
      toyHash 5 ≠ toyHash 6 := by
  have h := exists_of_okAnd (x := Core.run Extern.toy (toyBackend 2) (toyKey 2) toyAddresses 100)
    (p := fun c₀ => okAnd (fun c => decide (c.backend.committed.map (Block.hash Extern.toy) = [toyHash 5] ∧
        c.currentState.lockHash = some (toyHash 5) ∧
        c.validators.twoThirdsMajority < c.currentState.prepares.len ∧
        (∀ m ∈ c.currentState.prepares.values, m.msg = .subject ⟨⟨0, 1⟩, toyHash 6⟩) ∧
        c.validators.twoThirdsMajority < c.currentState.commits.len ∧
        (∀ m ∈ c.currentState.commits.values, m.msg = .subject ⟨⟨0, 1⟩, toyHash 6⟩) ∧
        toyHash 5 ≠ toyHash 6))
      (runFrom (CoreState.step Extern.toy) c₀ (toyCommits (toyHash 6)))) (by decide)
  obtain ⟨c₀, h₀, h⟩ := h
  obtain ⟨c, h₁, h⟩ := exists_of_okAnd h
  exact ⟨c₀, c, h₀, h₁, of_decide_eq_true h⟩

/-- `commit` once more, after the node of key byte 2 has committed on the
pre-prepare and three commits. -/
theorem commit_seals_rejected_toy :
    ∃ c₀ c c', Core.run Extern.toy (toyBackend 2) (toyKey 2) toyAddresses 100 = .ok c₀ ∧
      runFrom (CoreState.step Extern.toy) c₀
        ((toyPrepares (toyHash 5)).take 1 ++ (toyCommits (toyHash 5)).drop 4) = .ok c ∧
      c.commit Extern.toy = .ok c' ∧
      ∃ block votes, c'.backend.committed = c.backend.committed ++ [block] ∧ block.header.votes = some votes ∧
        (∀ m ∈ c.currentState.commits.values, ∀ sig, m.signature = some sig → sig ∈ votes.votes) ∧
        ∀ b : ImplBackend, b.verifySeal Extern.toy block.header ≠ .ok (.ok ()) := by
  have h := exists_of_okAnd (x := Core.run Extern.toy (toyBackend 2) (toyKey 2) toyAddresses 100)
    (p := fun c₀ => okAnd (fun c => okAnd (fun _ => true) (c.commit Extern.toy))
      (runFrom (CoreState.step Extern.toy) c₀
        ((toyPrepares (toyHash 5)).take 1 ++ (toyCommits (toyHash 5)).drop 4))) (by decide)
  obtain ⟨c₀, h₀, h⟩ := h
  obtain ⟨c, h₁, h⟩ := exists_of_okAnd h
  obtain ⟨c', h₂, -⟩ := exists_of_okAnd h
  exact ⟨c₀, c, c', h₀, h₁, h₂, CoreState.commit_seals_rejected h₂⟩

/-- The node of key byte 2 commits `toyBlock1 5` in round 0 of height 1 on
the usual messages; `verify_seal` rejects the header it committed, with the
three seals in its votes. -/
theorem committed_seal_rejected_toy :
    ∃ c₀ c, Core.run Extern.toy (toyBackend 2) (toyKey 2) toyAddresses 100 = .ok c₀ ∧
      runFrom (CoreState.step Extern.toy) c₀ (toyCommits (toyHash 5)) = .ok c ∧
      c.backend.committed.length = 1 ∧
      ∀ b ∈ c.backend.committed, b.header.votes.map (·.votes.length) = some 3 ∧
        c.backend.verifySeal Extern.toy b.header = .ok (.error .invalidSignature) := by
  have h := exists_of_okAnd (x := Core.run Extern.toy (toyBackend 2) (toyKey 2) toyAddresses 100)
    (p := fun c₀ => okAnd (fun c => decide (c.backend.committed.length = 1 ∧
        ∀ b ∈ c.backend.committed, b.header.votes.map (·.votes.length) = some 3 ∧
          c.backend.verifySeal Extern.toy b.header = .ok (.error .invalidSignature)))
      (runFrom (CoreState.step Extern.toy) c₀ (toyCommits (toyHash 5)))) (by decide)
  obtain ⟨c₀, h₀, h⟩ := h
  obtain ⟨c, h₁, h⟩ := exists_of_okAnd h
  exact ⟨c₀, c, h₀, h₁, of_decide_eq_true h⟩

end ConsensusRs
