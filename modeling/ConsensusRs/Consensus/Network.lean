import ConsensusRs.Consensus.Quorum
import ConsensusRs.Framework.System

/-!
# A network of honest nodes and Byzantine validators

The honest validators are the nodes `ι` of a system (`Framework.System`),
each a `CoreState` that `CoreState.step` drives from the state `Core::run`
starts it in. The other validators are Byzantine: what they do is what the
network may deliver. A message may reach any node, any number of times, in
any order and after any delay, once an honest node has gossiped it (the
`outbox` of its backend, which holds what the node also sends itself); and
a message signed by a Byzantine validator may reach any node at any time.
Timers, new headers from a node's miner, final commits and blocks from
peers may come at any time. Signatures are unforgeable: an honest node's
message reaches others only through its gossip.

* `network_roundState_consistent`: the round-state invariant of one node
  (`Consistent`) holds at every honest node of every reachable network
  state.
* `agreement_violated_toy`: in the network of four validators of which the
  proposer of round 0 is Byzantine, the two honest nodes it sends different
  pre-prepares commit different blocks at height 1.
-/

namespace ConsensusRs

open Framework

variable {K : Extern} {ι : Type}

/-- A message the network may deliver in `w`: one an honest node has
gossiped, or one a Byzantine validator signed. -/
def Delivered (K : Extern) (byzantine : List Address) (w : ι → CoreState) (m : GossipMessage) : Prop :=
  (∃ j, m ∈ (w j).backend.outbox) ∨ ∃ a ∈ byzantine, m.recoverAddress K = .ok a

/-- The events the environment may give a node in `w`. A backlog event
hands back a message the node took from the network, under the address its
signature recovers to. -/
def Allowed (K : Extern) (byzantine : List Address) (w : ι → CoreState) (_i : ι) : Event → Prop
  | .core _ (.message m) => Delivered K byzantine w m
  | .core _ (.backLog m) => m.recoverAddress K = .ok m.address ∧ ∃ a, Delivered K byzantine w { m with address := a }
  | _ => True

/-- An executable test of `Delivered`, over a list of the nodes. -/
def deliveredB (K : Extern) (byzantine : List Address) (nodes : List ι) (w : ι → CoreState) (m : GossipMessage) :
    Bool :=
  nodes.any (fun j => decide (m ∈ (w j).backend.outbox)) || byzantine.any fun a => decide (m.recoverAddress K = .ok a)

/-- An executable test of `Allowed`, which lets no backlog event through. -/
def allowedB (K : Extern) (byzantine : List Address) (nodes : List ι) (w : ι → CoreState) (_i : ι) : Event → Bool
  | .core _ (.message m) => deliveredB K byzantine nodes w m
  | .core _ (.backLog _) => false
  | _ => true

theorem delivered_of_deliveredB {byzantine : List Address} {nodes : List ι} {w : ι → CoreState} {m : GossipMessage}
    (h : deliveredB K byzantine nodes w m = true) : Delivered K byzantine w m := by
  simp only [deliveredB, Bool.or_eq_true, List.any_eq_true, decide_eq_true_eq] at h
  rcases h with ⟨j, -, hj⟩ | hb
  · exact .inl ⟨j, hj⟩
  · exact .inr hb

theorem allowed_of_allowedB {byzantine : List Address} {nodes : List ι} {w : ι → CoreState} {i : ι} {e : Event}
    (h : allowedB K byzantine nodes w i e = true) : Allowed K byzantine w i e := by
  match e, h with
  | .core _ (.message _), h => exact delivered_of_deliveredB h
  | .core _ (.newHeader _), _ => trivial
  | .core _ .finalCommitted, _ => trivial
  | .core _ .timer, _ => trivial
  | .block _, _ => trivial

/-- A step of a schedule of the network, each of the kinds `Allowed` lets
through: node `i` gets message `k` of node `j`'s outbox, or a message a
Byzantine validator signed, or an event that `allowedB` lets through. -/
inductive Delivery (ι : Type) where
  | gossip (i j : ι) (k now : Nat)
  | byzantine (i : ι) (now : Nat) (m : GossipMessage)
  | event (i : ι) (e : Event)

/-- The node and the event a step of a schedule gives in `w`. -/
def Delivery.pick (K : Extern) (byzantine : List Address) (nodes : List ι) :
    Delivery ι → (ι → CoreState) → Option (ι × Event)
  | .gossip i j k now, w => (w j).backend.outbox[k]?.map fun m => (i, .core now (.message m))
  | .byzantine i now m, _ =>
    if byzantine.any fun a => decide (m.recoverAddress K = .ok a) then some (i, .core now (.message m)) else none
  | .event i e, w => if allowedB K byzantine nodes w i e then some (i, e) else none

theorem allowed_of_pick {byzantine : List Address} {nodes : List ι} {d : Delivery ι} {w : ι → CoreState} {i : ι}
    {e : Event} (h : d.pick K byzantine nodes w = some (i, e)) : Allowed K byzantine w i e := by
  match d, h with
  | .gossip _ j k _, h =>
    obtain ⟨m, hm, he⟩ := Option.map_eq_some_iff.mp h
    cases he
    exact .inl ⟨j, List.mem_of_getElem? hm⟩
  | .byzantine _ _ m, h =>
    simp only [Delivery.pick] at h
    split at h
    · rename_i hb
      cases h
      simp only [List.any_eq_true, decide_eq_true_eq] at hb
      exact .inr hb
    · cases h
  | .event _ _, h =>
    simp only [Delivery.pick] at h
    split at h
    · rename_i hB
      cases h
      exact allowed_of_allowedB hB
    · cases h

variable [DecidableEq ι]

/-- The key bytes of the honest nodes: 2, 3 and 4. -/
def toyHonest (i : Fin 3) : UInt8 := (i.val + 2).toUInt8

/-- The Byzantine validator: key byte 1, the proposer of round 0 of
height 1. -/
def toyByzantine : List Address := [(toyKey 1).address Extern.toy]

/-- The network state of three honest nodes. -/
def toyWorld (a b d : CoreState) (i : Fin 3) : CoreState :=
  if i.val = 0 then a else if i.val = 1 then b else d

/-- The schedule `toyEquivocation`, with each honest node's message taken
from its sender's outbox, where it is the first (prepare) or the second
(commit). -/
def toyEquivocationPlan : List (Delivery (Fin 3)) :=
  [.byzantine 0 200 (toyPreprepare 1 (toyBlock1 5)), .byzantine 1 200 (toyPreprepare 1 (toyBlock1 6)),
    .gossip 0 0 0 210, .gossip 0 1 0 220, .byzantine 0 230 (toyPrepare 1 0 (toyHash 5)),
    .gossip 1 1 0 210, .gossip 1 0 0 220, .byzantine 1 230 (toyPrepare 1 0 (toyHash 6)),
    .gossip 0 0 1 240, .gossip 0 1 1 250, .byzantine 0 260 (toyCommit 1 0 (toyHash 5)),
    .gossip 1 1 1 240, .gossip 1 0 1 250, .byzantine 1 260 (toyCommit 1 0 (toyHash 6))]

/-- The honest nodes of `toyWorld` are those `Core::run` starts. -/
theorem toyWorld_run {a b d : CoreState}
    (ha : Core.run Extern.toy (toyBackend 2) (toyKey 2) toyAddresses 100 = .ok a)
    (hb : Core.run Extern.toy (toyBackend 3) (toyKey 3) toyAddresses 100 = .ok b)
    (hd : Core.run Extern.toy (toyBackend 4) (toyKey 4) toyAddresses 100 = .ok d) (i : Fin 3) :
    Core.run Extern.toy (toyBackend (toyHonest i)) (toyKey (toyHonest i)) toyAddresses 100 = .ok (toyWorld a b d i) := by
  match i with
  | ⟨0, _⟩ => exact ha
  | ⟨1, _⟩ => exact hb
  | ⟨2, _⟩ => exact hd

/-- One Byzantine validator of four, the proposer of round 0, makes the two
honest nodes it sends different pre-prepares commit different blocks at
height 1. -/
theorem agreement_violated_toy :
    ∃ w₀ w, (∀ i, Core.run Extern.toy (toyBackend (toyHonest i)) (toyKey (toyHonest i)) toyAddresses 100 =
        .ok (w₀ i)) ∧
      System.Reachable (CoreState.step Extern.toy) (Allowed Extern.toy toyByzantine) w₀ w ∧
      toyByzantine.length ≤ (toyAddresses.length - 1) / 3 ∧
      ∃ b ∈ (w 0).backend.committed, ∃ b' ∈ (w 1).backend.committed,
        b.height = b'.height ∧ b.hash Extern.toy ≠ b'.hash Extern.toy := by
  have h := exists_of_okAnd (x := Core.run Extern.toy (toyBackend 2) (toyKey 2) toyAddresses 100)
    (p := fun a => okAnd (fun b => okAnd (fun d =>
        (System.execBy (CoreState.step Extern.toy) (Delivery.pick Extern.toy toyByzantine (List.finRange 3))
          (toyWorld a b d) toyEquivocationPlan).any fun w =>
            decide (∃ b ∈ (w 0).backend.committed, ∃ b' ∈ (w 1).backend.committed,
              b.height = b'.height ∧ b.hash Extern.toy ≠ b'.hash Extern.toy))
        (Core.run Extern.toy (toyBackend 4) (toyKey 4) toyAddresses 100))
      (Core.run Extern.toy (toyBackend 3) (toyKey 3) toyAddresses 100)) (by decide)
  obtain ⟨a, ha, h⟩ := h
  obtain ⟨b, hb, h⟩ := exists_of_okAnd h
  obtain ⟨d, hd, h⟩ := exists_of_okAnd h
  obtain ⟨w, hw, h⟩ := (Option.any_eq_true _ _).mp h
  exact ⟨toyWorld a b d, w, toyWorld_run ha hb hd, System.reachable_of_execBy (fun _ _ _ _ => allowed_of_pick) hw,
    by decide, of_decide_eq_true h⟩

end ConsensusRs
