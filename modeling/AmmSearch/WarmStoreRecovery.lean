/-
Recovery of the warm store.  What a dead process leaves behind can be in the way of
a later commit: the temporary file of a manifest bears a number that starts again in
every process.  A commit goes through exactly when the names it takes are free.
-/
import AmmSearch.WarmStoreCrashes

open FiniteMap

namespace AmmSearch

namespace WarmWorld

/-- A session is open, and has written all that it needs. -/
structure Prepared (chainId : UInt64) (world : WarmWorld) (session : WarmSession)
    (tree : FileTree) : Prop where
  isOpen : world.session = some session
  staged : world.host.generations.lookup session.cacheBase = some tree
  complete : CompleteTree chainId tree

/-- The commit succeeds, and every session after it resumes with its checkpoint and
its files. -/
def Recovers (format : ManifestFormat) (chainId : UInt64) (world : WarmWorld)
    (session : WarmSession) (checkpoint : WarmCheckpoint) (tree : FileTree) : Prop :=
  (∃ committed, (session.commit format checkpoint world.host).result = .ok committed) ∧
    ∀ processId sequence clock, ∃ resumed,
      (WarmStore.begin format chainId processId clock
        { (session.commit format checkpoint world.host).last with
          sequence := sequence }).result = .ok resumed ∧
      resumed.resumeCheckpoint = some checkpoint ∧
      (WarmStore.begin format chainId processId clock
        { (session.commit format checkpoint world.host).last with
          sequence := sequence }).last.generations.lookup resumed.cacheBase = some tree

/-- The sealed generation and the temporary file have free names. -/
structure NamesFree (world : WarmWorld) (session : WarmSession) (checkpoint : WarmCheckpoint) :
    Prop where
  sealed : (world.host.generations.lookup (session.sealedName checkpoint)).getD ∅ = ∅
  temporary : temporaryName manifestFile world.host.sequence ∉ world.host.files

variable {format : ManifestFormat} {chainId : UInt64} {files : Map String (List UInt8)}
  {generations : Map String FileTree} {world : WarmWorld} {session : WarmSession}
  {checkpoint : WarmCheckpoint} {tree : FileTree}

theorem recovers_iff (hfresh : files.lookup manifestFile = none)
    (hreaches : Transitions.Reaches (WarmWorld.step format chainId) (initial files generations)
      world) (hprepared : Prepared chainId world session tree)
    (hchain : checkpoint.chainId = chainId) :
    Recovers format chainId world session checkpoint tree ↔
      NamesFree world session checkpoint := by
  have hsound := sound_of_reaches hfresh hreaches
  have hstaged := hsound.session session hprepared.isOpen
  have hpost := (commit_ends hsound.host hstaged checkpoint).post
  constructor
  · rintro ⟨⟨committed, hresult⟩, _⟩
    rcases hpost with ⟨_, ⟨other, hready, _⟩ | ⟨_, error, herror⟩⟩
    · exact ⟨hready.sealedFree, hready.temporaryFree⟩
    · cases hresult.symm.trans herror
  · intro hfree
    have hready : Committable chainId world.host session checkpoint tree :=
      ⟨hchain, hprepared.staged, hprepared.complete, hfree.sealed, hfree.temporary⟩
    rcases hpost with ⟨hhost, ⟨other, hother, hresult, hlast⟩ | ⟨hnone, _⟩⟩
    · obtain rfl : other = tree :=
        Option.some.inj (hother.staged.symm.trans hprepared.staged)
      refine ⟨hresult, ?_⟩
      intro processId sequence clock
      have hnext := hhost.of_spares (spares_renumber _ sequence)
      obtain ⟨resumed, hbegin, _, hresumes⟩ := (begin_ends hnext processId clock).post
      exact ⟨resumed, hbegin, hresumes.some checkpoint other hlast⟩
    · exact absurd hready (hnone tree)

end WarmWorld

namespace WarmStoreExample

/-- What a session of these examples has written. -/
def stagedTree (byte : UInt8) : FileTree :=
  ((Finmap.insert ["chain_1"] .directory ∅).insert ["chain_1", "evm_state.bin"]
    (.file [byte])).insert ["chain_1", "amm_registrations.bin"] (.file [byte])

theorem completeTree_stagedTree (byte : UInt8) : CompleteTree 1 (stagedTree byte) := by
  refine ⟨rfl, rfl, ?_⟩
  intro path
  rw [stagedTree, lookup_insert_eq, lookup_insert_eq, lookup_insert_eq, Finmap.lookup_empty]
  split
  · exact nofun
  split
  · exact nofun
  split
  · exact nofun
  · exact nofun

/-- The first process dies on the way to its commit, before the manifest is written. -/
def interruptedEarly : List WarmAction :=
  sessionOf 7 1 ++ [.commit (checkpointAt 100) (some 5)] ++ sessionOf 8 2

/-- The next process commits. -/
theorem recovers_first :
    ∃ (world : WarmWorld) (session : WarmSession),
      Transitions.run (WarmWorld.step manifestFormat 1) (WarmWorld.initial ∅ ∅)
        interruptedEarly = some world ∧
      WarmWorld.Prepared 1 world session (stagedTree 2) ∧
      WarmWorld.Recovers manifestFormat 1 world session (checkpointAt 101) (stagedTree 2) := by
  have hrun : ((Transitions.run (WarmWorld.step manifestFormat 1) (WarmWorld.initial ∅ ∅)
      interruptedEarly).map fun world => (world.session.map fun session =>
        (world.host.generations.lookup session.cacheBase,
          decide ((world.host.generations.lookup
            (session.sealedName (checkpointAt 101))).getD ∅ = ∅),
          decide (temporaryName manifestFile world.host.sequence ∉ world.host.files)))) =
      some (some (some (stagedTree 2), true, true)) := by
    decide +kernel
  obtain ⟨world, hworld, hsession⟩ := Option.map_eq_some_iff.mp hrun
  obtain ⟨session, hsession, hread⟩ := Option.map_eq_some_iff.mp hsession
  obtain ⟨hstaged, hfree⟩ := Prod.mk.inj hread
  obtain ⟨hsealed, htemporary⟩ := Prod.mk.inj hfree
  have hprepared : WarmWorld.Prepared 1 world session (stagedTree 2) :=
    ⟨hsession, hstaged, completeTree_stagedTree 2⟩
  exact ⟨world, session, hworld, hprepared,
    (WarmWorld.recovers_iff (Finmap.lookup_empty _) ⟨_, hworld⟩ hprepared rfl).mpr
      ⟨of_decide_eq_true hsealed, of_decide_eq_true htemporary⟩⟩

/-- The first process dies right after it created its temporary file. -/
def leftover : List WarmAction :=
  sessionOf 7 1 ++ [.commit (checkpointAt 100) (some 7)] ++ sessionOf 8 2

/-- The file that the dead process left stops the commit of the next one. -/
theorem not_recovers_leftover :
    ¬ ∀ (world : WarmWorld) (session : WarmSession),
      Transitions.Reaches (WarmWorld.step manifestFormat 1) (WarmWorld.initial ∅ ∅) world →
      WarmWorld.Prepared 1 world session (stagedTree 2) →
      WarmWorld.Recovers manifestFormat 1 world session (checkpointAt 101) (stagedTree 2) := by
  intro hclaim
  have hrun : ((Transitions.run (WarmWorld.step manifestFormat 1) (WarmWorld.initial ∅ ∅)
      leftover).map fun world => (world.session.map fun session =>
        (world.host.generations.lookup session.cacheBase,
          (session.commit manifestFormat (checkpointAt 101) world.host).result))) =
      some (some (some (stagedTree 2),
        .error (.alreadyExists ".amm_manifest.json.tmp-1"))) := by
    decide +kernel
  obtain ⟨world, hworld, hsession⟩ := Option.map_eq_some_iff.mp hrun
  obtain ⟨session, hsession, hboth⟩ := Option.map_eq_some_iff.mp hsession
  obtain ⟨hstaged, herror⟩ := Prod.mk.inj hboth
  obtain ⟨⟨committed, hresult⟩, _⟩ := hclaim world session ⟨_, hworld⟩
    ⟨hsession, hstaged, completeTree_stagedTree 2⟩
  cases hresult.symm.trans herror

end WarmStoreExample

end AmmSearch
