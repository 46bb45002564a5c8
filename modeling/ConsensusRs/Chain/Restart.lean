import ConsensusRs.Chain.Insert

/-!
# Restarting on a store

A node that restarts builds a fresh ledger over the store it wrote, with the
zero meta and empty caches, and runs `store_genesis_block`, which finds the
genesis and reloads the meta from the last entry of the height list. The
restarted ledger answers as the one that wrote the store: the same meta,
and the same block hash, header and block at every height. The ledger that
wrote the store answers from its meta and its caches, the restarted one
from the store alone; they agree because `add_block` persisted everything
the meta and the caches hold (`Holds`).
-/

namespace ConsensusRs

open Framework

variable {K : Extern}

/-- After any run of `insert_block` calls from a ledger that holds only a
genesis block over collision-free blocks, a fresh ledger over the same store
(zero meta, empty caches) on which `store_genesis_block` runs returns `Ok`,
and then has the meta of the ledger that wrote the store (its last height,
last block hash, last header and last block) and returns the same block
hash, header and block at every height. -/
theorem restart_restores_ledger {g : Block} {l : Ledger} {blocks : List Block} {c : Chain}
    (hg : Holds K l [g]) (hnc : NoCollision K (g :: blocks)) (hrun : Chain.insertBlocks K ⟨l⟩ blocks = .ok c)
    (cfg : GenesisConfig) (validators : List Validator) :
    ∃ l₂, storeGenesisBlock K cfg (Ledger.new .newZero validators c.ledger.schema) = .ok (.ok (), l₂) ∧
      l₂.lastMeta = c.ledger.lastMeta ∧
      ∀ h, l₂.getBlockHashByHeight h = c.ledger.getBlockHashByHeight h ∧
        (l₂.getHeaderByHeight h).1 = (c.ledger.getHeaderByHeight h).1 ∧
        l₂.getBlockByHeight h = c.ledger.getBlockByHeight h := by
  have h := Chain.insertBlocks_holds hg hnc hrun
  have hne : appendAll K [g] blocks ≠ [] := by
    intro hnil
    have := Ledger.lastMeta_height h
    rw [hnil, List.length_nil] at this
    omega
  -- the fresh ledger reads the same store, and its caches hold nothing
  obtain ⟨l₂, hstore, h₂, hschema⟩ :=
    Ledger.storeGenesisBlock_stored cfg (l := Ledger.new .newZero validators c.ledger.schema) h.toStored
      (Cached.new _ _ _) hne
  refine ⟨l₂, hstore, Ledger.lastMeta_eq_of_holds h₂ h, fun i => ⟨?_, ?_, ?_⟩⟩
  · simp only [Ledger.getBlockHashByHeight, h₂.blockHashByHeight_eq, h.blockHashByHeight_eq]
  · rw [(Ledger.getHeaderByHeight_eq h₂.toStored h₂.toCached i).1,
      (Ledger.getHeaderByHeight_eq h.toStored h.toCached i).1]
  · rw [Ledger.getBlockByHeight_eq h₂.toStored h₂.toCached, Ledger.getBlockByHeight_eq h.toStored h.toCached]

/-- A restart after a run of `Extern.toy`'s genesis ledger over a block at
height 1. -/
theorem restart_restores_ledger_toy :
    ∃ l₀ c, (Ledger.new .newZero [] .empty).addGenesisBlock Extern.toy toyGenesis = .ok l₀ ∧
      Chain.insertBlocks Extern.toy ⟨l₀⟩ [toyBlock 1 (toyGenesis.hash Extern.toy)] = .ok c ∧
      ∃ l₂, storeGenesisBlock Extern.toy ⟨[], .ok emptyAddress, .ok 0, 0, []⟩
          (Ledger.new .newZero [] c.ledger.schema) = .ok (.ok (), l₂) ∧
        l₂.lastMeta = c.ledger.lastMeta ∧
        ∀ h, l₂.getBlockHashByHeight h = c.ledger.getBlockHashByHeight h ∧
          (l₂.getHeaderByHeight h).1 = (c.ledger.getHeaderByHeight h).1 ∧
          l₂.getBlockByHeight h = c.ledger.getBlockByHeight h := by
  have hnc : NoCollision Extern.toy [toyGenesis, toyBlock 1 (toyGenesis.hash Extern.toy)] :=
    NoCollision.of_blocks (by decide) (by decide)
  obtain ⟨l₀, c, hl₀, hc⟩ : ∃ l₀ c, (Ledger.new .newZero [] .empty).addGenesisBlock Extern.toy toyGenesis = .ok l₀ ∧
      Chain.insertBlocks Extern.toy ⟨l₀⟩ [toyBlock 1 (toyGenesis.hash Extern.toy)] = .ok c :=
    ⟨_, _, rfl, rfl⟩
  exact ⟨l₀, c, hl₀, hc, restart_restores_ledger (Ledger.addGenesisBlock_holds rfl (hnc.mono (by simp)) hl₀) hnc hc
    ⟨[], .ok emptyAddress, .ok 0, 0, []⟩ []⟩

end ConsensusRs
