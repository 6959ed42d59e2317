/-
The commit of a warm session.  It seals the staged files, replaces the manifest in
one step and prunes; it goes through exactly when the two names it takes are free.
-/
import AmmSearch.WarmStoreSessions

open FiniteMap

namespace AmmSearch

open Durable (Process)
open Durable.Process (Ends Keeps Returns forEach attempt)

variable {before middle after host : WarmHost} {format : ManifestFormat} {chainId : UInt64}
  {name staging source : String} {path : FilePath} {tree : FileTree}
variable {session : WarmSession} {checkpoint : WarmCheckpoint}

theorem sync_returns {during : WarmHost → Prop} (hduring : during host) :
    WarmHost.sync.Returns host during () host :=
  .update hduring

/-- A tree without special files is synced, and nothing changes. -/
theorem syncTree_ends (hfound : host.generations.lookup name = some tree) :
    (syncTree name).Ends host (fun reached => reached = host)
      fun result reached => reached = host ∧
        (result = .ok () ↔ ∀ path, tree.lookup path ≠ some .special) := by
  refine (Returns.peek _ _).andThen ?_
  rw [hfound]
  refine Ends.forEach (fun rest reached => reached = host ∧
    ∀ path, tree.lookup path = some .special → path ∈ rest) ?_ ?_ _ ⟨rfl, ?_⟩
  · rintro path rest reached ⟨rfl, hspecial⟩
    unfold syncEntry
    split
    · rename_i hpath
      refine .of_fail ⟨rfl, ?_⟩
      constructor
      · intro herror
        cases herror
      · intro hregular
        exact absurd hpath (hregular path)
    · rename_i hpath
      refine .of_update rfl ⟨rfl, ?_⟩
      intro other hother
      rcases List.mem_cons.mp (hspecial other hother) with rfl | hrest
      · exact absurd hother hpath
      · exact hrest
  · rintro reached ⟨rfl, hspecial⟩
    refine ⟨rfl, fun _ path hpath => ?_, fun _ => rfl⟩
    exact absurd (hspecial path hpath) List.not_mem_nil
  · intro path hpath
    rw [mem_ascending, Finmap.mem_keys, Finmap.mem_iff]
    exact ⟨_, hpath⟩

/-- The generations and the manifest stay; the temporary file may change. -/
structure SameStore (before after : WarmHost) : Prop where
  generations : after.generations = before.generations
  selected : after.selected = before.selected
  manifest : after.files.lookup manifestFile = before.files.lookup manifestFile

theorem SameStore.spares (hsame : SameStore before after) : Spares before after :=
  ⟨hsame.manifest, hsame.selected, fun _ _ => by rw [hsame.generations]⟩

/-- The manifest was replaced. -/
structure Selected (before after : WarmHost) (selects : WarmCheckpoint × FileTree)
    (bytes : List UInt8) : Prop where
  generations : after.generations = before.generations
  selected : after.selected = before.selected ++ [selects]
  manifest : after.files.lookup manifestFile = some bytes

theorem renameToManifest_returns {selects : WarmCheckpoint × FileTree} {bytes : List UInt8}
    {during : WarmHost → Prop} (hfile : host.files.lookup name = some bytes)
    (hduring : during
      { host with
        files := (host.files.erase name).insert manifestFile bytes
        selected := host.selected ++ [selects] }) :
    (WarmHost.renameToManifest selects name).Returns host during ()
      { host with
        files := (host.files.erase name).insert manifestFile bytes
        selected := host.selected ++ [selects] } := by
  refine .step ?_ hduring
  simp only [hfile]

/-- The manifest is replaced at once, unless the temporary file is in the way. -/
theorem atomicWriteSynced_ends (selects : WarmCheckpoint × FileTree) (bytes : List UInt8)
    (host : WarmHost) :
    (atomicWriteSynced selects bytes).Ends host
      (fun reached => SameStore host reached ∨ Selected host reached selects bytes)
      fun result reached =>
        (result = .ok () ∧ temporaryName manifestFile host.sequence ∉ host.files ∧
          Selected host reached selects bytes) ∨
        ((∃ error, result = .error error) ∧
          temporaryName manifestFile host.sequence ∈ host.files ∧ SameStore host reached) := by
  have hother : manifestFile ≠ temporaryName manifestFile host.sequence :=
    (temporaryName_ne_manifestFile _ _).symm
  have hinsert : ∀ (files : Map String (List UInt8)) (written : List UInt8),
      (files.insert (temporaryName manifestFile host.sequence) written).lookup manifestFile =
        files.lookup manifestFile := by
    intro files written
    rw [lookup_insert_eq, if_neg hother]
  refine (fetchSequence_returns host (Or.inl ⟨rfl, rfl, rfl⟩)).andThen ?_
  refine Ends.bind (?_ : Process.Ends _ _ _ fun result reached =>
    (result = .ok () ∧ temporaryName manifestFile host.sequence ∉ host.files ∧
      SameStore host reached) ∨
    ((∃ error, result = .error error) ∧
      temporaryName manifestFile host.sequence ∈ host.files ∧ SameStore host reached)) ?_ ?_
  · refine .of_step ?_ ?_
    · intro reached hreached
      split at hreached
      · cases hreached
      · rename_i hfree
        cases hreached
        have hsame : SameStore host
            { host with
              files := host.files.insert (temporaryName manifestFile host.sequence) []
              sequence := host.sequence + 1 } :=
          ⟨rfl, rfl, hinsert _ _⟩
        exact ⟨Or.inl hsame, Or.inl ⟨rfl, hfree, hsame⟩⟩
    · intro error herror
      split at herror
      · rename_i htaken
        exact Or.inr ⟨⟨error, rfl⟩, htaken, rfl, rfl, rfl⟩
      · cases herror
  · intro value reached hreached
    rcases hreached with ⟨_, hfree, hsame⟩ | ⟨⟨error, herror⟩, _⟩
    · -- what is written into the temporary file, and that nothing else changes
      have hwrite : (Process.forEach (WarmHost.write (temporaryName manifestFile host.sequence))
          bytes.inits).Ends reached
          (fun left => SameStore host left ∨ Selected host left selects bytes)
          fun result left => result = .ok () ∧ SameStore host left ∧
            left.files.lookup (temporaryName manifestFile host.sequence) = some bytes :=
        Ends.forEach_last (fun written left => SameStore host left ∧
          left.files.lookup (temporaryName manifestFile host.sequence) = some written) ?_
          (getLast?_inits bytes)
      · refine Ends.bind hwrite ?_ ?_
        · rintro value left ⟨_, hleft, hfile⟩
          refine (sync_returns (Or.inl hleft)).andThen ?_
          have hselected : Selected host
              { left with
                files := (left.files.erase (temporaryName manifestFile host.sequence)).insert
                  manifestFile bytes
                selected := left.selected ++ [selects] } selects bytes := by
            refine ⟨hleft.generations, by rw [hleft.selected], ?_⟩
            rw [lookup_insert_eq, if_pos rfl]
          refine (renameToManifest_returns hfile (Or.inr hselected)).andThen ?_
          exact .of_update (Or.inr hselected) (Or.inl ⟨rfl, hfree, hselected⟩)
        · rintro error left ⟨herror, _⟩
          cases herror
      · intro written left hleft
        have hbefore : SameStore host left := by
          rcases hleft with rfl | ⟨_, hleft, _⟩
          · exact hsame
          · exact hleft
        have hafter : SameStore host
            { left with
              files := left.files.insert (temporaryName manifestFile host.sequence) written } :=
          ⟨hbefore.generations, hbefore.selected, (hinsert _ _).trans hbefore.manifest⟩
        refine .of_update (Or.inl hafter) ⟨rfl, hafter, ?_⟩
        rw [lookup_insert_eq, if_pos rfl]
    · cases herror
  · intro error reached hreached
    rcases hreached with ⟨herror, _⟩ | ⟨_, htaken, hsame⟩
    · cases herror
    · exact Or.inr ⟨⟨error, rfl⟩, htaken, hsame⟩

/-- What pruning leaves alone. -/
structure Prunes (active : String) (before after : WarmHost) : Prop where
  files : after.files = before.files
  selected : after.selected = before.selected
  active : after.generations.lookup active = before.generations.lookup active

theorem prunes_ignores {active : String} (before : WarmHost) (hname : name ≠ active) :
    Ignores (Prunes active before) name := by
  refine ⟨?_, ?_⟩
  · intro host tree hprunes
    refine ⟨hprunes.files, hprunes.selected, ?_⟩
    rw [lookup_insert_eq, if_neg hname.symm]
    exact hprunes.active
  · intro host hprunes
    refine ⟨hprunes.files, hprunes.selected, ?_⟩
    rw [lookup_erase_eq, if_neg hname.symm]
    exact hprunes.active

theorem pruneGeneration_ends {active : String} (hprunes : Prunes active before host)
    (name : String) :
    (pruneGeneration active name).Ends host (Prunes active before)
      fun result reached => result = .ok () ∧ Prunes active before reached := by
  unfold pruneGeneration
  split
  · exact .of_pure ⟨rfl, hprunes⟩
  · rename_i hname
    have hremove := keeps_removeDirAll (prunes_ignores before hname) host hprunes
    refine Ends.bind (?_ : Process.Ends _ _ _ fun result reached =>
      (∃ removed, result = .ok removed) ∧ Prunes active before reached) ?_ ?_
    · refine Ends.attempt (hremove.mono (fun _ hreached => hreached) ?_)
      intro result reached hreached
      exact ⟨⟨result, rfl⟩, hreached⟩
    · rintro removed reached ⟨_, hreached⟩
      exact .of_pure ⟨rfl, hreached⟩
    · rintro error reached ⟨⟨removed, herror⟩, _⟩
      cases herror

theorem pruneGenerations_ends (active : String) (host : WarmHost) :
    (pruneGenerations active).Ends host (Prunes active host)
      fun result reached => result = .ok () ∧ Prunes active host reached := by
  refine (Returns.peek _ _).andThen ?_
  refine Ends.forEach (fun _ reached => Prunes active host reached) ?_ ?_ _ ⟨rfl, rfl, rfl⟩
  · intro name rest reached hreached
    refine (pruneGeneration_ends hreached name).mono (fun _ hleft => hleft) ?_
    rintro result left ⟨rfl, hleft⟩
    exact hleft
  · exact fun reached hreached => ⟨rfl, hreached⟩

/-- The name under which a session is sealed. -/
def WarmSession.sealedName (session : WarmSession) (checkpoint : WarmCheckpoint) : String :=
  generationName checkpoint (trimStartMatches session.cacheBase ".staging-")

/-- A session whose commit goes through: its files are complete, and the two names
that it takes are free. -/
structure Committable (chainId : UInt64) (host : WarmHost) (session : WarmSession)
    (checkpoint : WarmCheckpoint) (tree : FileTree) : Prop where
  chain : checkpoint.chainId = chainId
  staged : host.generations.lookup session.cacheBase = some tree
  complete : CompleteTree chainId tree
  sealedFree : (host.generations.lookup (session.sealedName checkpoint)).getD ∅ = ∅
  temporaryFree : temporaryName manifestFile host.sequence ∉ host.files

theorem Staged.sealedName_safe (hstaged : Staged chainId session)
    (checkpoint : WarmCheckpoint) :
    safeGenerationName (session.sealedName checkpoint) = true := by
  obtain ⟨processId, nanos, sequence, hname⟩ := hstaged.name
  rw [WarmSession.sealedName, hname, trimStartMatches_stagingName]
  refine safeGenerationName_generationName checkpoint ?_
  intro hslash
  exact slash_not_nameChar (nameChar_of_mem_uniqueText hslash)

theorem CompleteTree.ne_empty (hcomplete : CompleteTree chainId tree) : tree ≠ ∅ := by
  rintro rfl
  have hstate := hcomplete.state
  simp [FileTree.isFile] at hstate

/-- Sealing a staging generation leaves what is selected. -/
theorem Recoverable.seal {target : String} (hrecoverable : Recoverable format chainId host)
    (hstaging : safeGenerationName staging = false)
    (hfree : (host.generations.lookup target).getD ∅ = ∅) (tree : FileTree) :
    Recoverable format chainId
      { host with generations := (host.generations.erase staging).insert target tree } := by
  refine ⟨hrecoverable.none, ?_⟩
  intro checkpoint selected hlast
  obtain ⟨hchain, hcomplete, name, hsafe, hname, hmanifest⟩ :=
    hrecoverable.some checkpoint selected hlast
  refine ⟨hchain, hcomplete, name, hsafe, ?_, hmanifest⟩
  have htarget : name ≠ target := by
    rintro rfl
    rw [hname] at hfree
    exact hcomplete.ne_empty hfree
  have hother : name ≠ staging := by
    rintro rfl
    cases hstaging.symm.trans hsafe
  rw [lookup_insert_eq, if_neg htarget, lookup_erase_eq, if_neg hother]
  exact hname

/-- A manifest that selects a complete generation. -/
theorem recoverable_of_selected {target : String} (hchain : checkpoint.chainId = chainId)
    (hcomplete : CompleteTree chainId tree) (hsafe : safeGenerationName target = true)
    (hsealed : after.generations.lookup target = some tree)
    (hselected : after.selected = before.selected ++ [(checkpoint, tree)])
    (hmanifest : after.files.lookup manifestFile =
      some (format.encode ⟨manifestVersion, chainId, target, checkpoint⟩)) :
    Recoverable format chainId after := by
  have hlast : after.selected.getLast? = some (checkpoint, tree) := by
    rw [hselected, List.getLast?_append]
    rfl
  refine ⟨?_, ?_⟩
  · intro hnone
    cases hnone.symm.trans hlast
  · intro other files hother
    obtain ⟨rfl, rfl⟩ := Prod.mk.inj (Option.some.inj (hlast.symm.trans hother))
    exact ⟨hchain, hcomplete, target, hsafe, hsealed, hmanifest⟩

theorem renameDir_returns {target : String} {during : WarmHost → Prop}
    (hsource : host.generations.lookup source = some tree)
    (hfree : (host.generations.lookup target).getD ∅ = ∅)
    (hduring : during
      { host with generations := (host.generations.erase source).insert target tree }) :
    (WarmHost.renameDir source target).Returns host during ()
      { host with generations := (host.generations.erase source).insert target tree } := by
  refine .step ?_ hduring
  simp only [hsource, hfree, if_true]

theorem renameDir_refused {target : String} {during : WarmHost → Prop}
    (hsource : host.generations.lookup source = some tree)
    (htaken : (host.generations.lookup target).getD ∅ ≠ ∅) :
    (WarmHost.renameDir source target).Ends host during
      fun result reached => (∃ error, result = .error error) ∧ reached = host := by
  refine .of_step ?_ fun error _ => ⟨⟨error, rfl⟩, rfl⟩
  intro reached hreached
  simp only [hsource, htaken, if_false] at hreached
  cases hreached

/-- From a sealed generation on, a commit replaces the manifest and prunes. -/
theorem select_ends {target : String} {committed : WarmSession}
    (hrecoverable : Recoverable format chainId host)
    (hchain : checkpoint.chainId = chainId) (hcomplete : CompleteTree chainId tree)
    (hsafe : safeGenerationName target = true)
    (hsealed : host.generations.lookup target = some tree) :
    (atomicWriteSynced (checkpoint, tree)
        (format.encode ⟨manifestVersion, chainId, target, checkpoint⟩) >>= fun _ =>
      pruneGenerations target >>= fun _ =>
        (pure committed : WarmProcess WarmSession)).Ends host (Recoverable format chainId)
      fun result reached => Recoverable format chainId reached ∧
        ((result = .ok committed ∧ temporaryName manifestFile host.sequence ∉ host.files ∧
            reached.selected.getLast? = some (checkpoint, tree)) ∨
          ((∃ error, result = .error error) ∧
            temporaryName manifestFile host.sequence ∈ host.files)) := by
  have hselected : ∀ reached, Selected host reached (checkpoint, tree)
      (format.encode ⟨manifestVersion, chainId, target, checkpoint⟩) →
      Recoverable format chainId reached := by
    intro reached hreached
    refine recoverable_of_selected hchain hcomplete hsafe ?_ hreached.selected hreached.manifest
    rw [hreached.generations]
    exact hsealed
  refine Ends.bind ((atomicWriteSynced_ends _ _ host).mono ?_ fun _ _ hreached => hreached) ?_ ?_
  · rintro reached (hsame | hreached)
    · exact hrecoverable.of_spares hsame.spares
    · exact hselected reached hreached
  · rintro value reached (⟨_, hfree, hreached⟩ | ⟨⟨error, herror⟩, _⟩)
    · have hpruned : ∀ left, Prunes target reached left → Recoverable format chainId left := by
        intro left hleft
        have hkept : left.generations.lookup target = some tree := by
          rw [hleft.active, hreached.generations]
          exact hsealed
        have hlast : left.selected = host.selected ++ [(checkpoint, tree)] := by
          rw [hleft.selected, hreached.selected]
        refine recoverable_of_selected hchain hcomplete hsafe hkept hlast ?_
        rw [hleft.files]
        exact hreached.manifest
      refine Ends.bind ((pruneGenerations_ends target reached).mono hpruned
        fun _ _ hleft => hleft) ?_ ?_
      · rintro pruned left ⟨_, hleft⟩
        refine .of_pure ⟨hpruned left hleft, Or.inl ⟨rfl, hfree, ?_⟩⟩
        rw [hleft.selected, hreached.selected, List.getLast?_append]
        rfl
      · rintro error left ⟨herror, _⟩
        cases herror
    · cases herror
  · rintro error reached (⟨herror, _⟩ | ⟨_, htaken, hsame⟩)
    · cases herror
    · exact ⟨hrecoverable.of_spares hsame.spares, Or.inr ⟨⟨error, rfl⟩, htaken⟩⟩

/-- Every step of a commit leaves a disk from which the next session can resume.
The commit succeeds exactly when nothing is in its way. -/
theorem commit_ends (hrecoverable : Recoverable format chainId host)
    (hstaged : Staged chainId session) (checkpoint : WarmCheckpoint) :
    (session.commit format checkpoint).Ends host (Recoverable format chainId)
      fun result reached => Recoverable format chainId reached ∧
        ((∃ tree, Committable chainId host session checkpoint tree ∧
            (∃ committed, result = .ok committed) ∧
            reached.selected.getLast? = some (checkpoint, tree)) ∨
          ((∀ tree, ¬ Committable chainId host session checkpoint tree) ∧
            ∃ error, result = .error error)) := by
  unfold WarmSession.commit
  rw [hstaged.chain, hstaged.base]
  split
  · rename_i hchain
    exact .of_fail ⟨hrecoverable, Or.inr ⟨fun tree hready => hchain hready.chain, _, rfl⟩⟩
  rename_i hchain
  rw [ne_eq, not_not] at hchain
  refine (Returns.peek _ _).andThen ?_
  cases hfound : host.generations.lookup session.cacheBase with
  | none =>
      refine .of_fail ⟨hrecoverable, Or.inr ⟨fun tree hready => ?_, _, rfl⟩⟩
      cases hfound.symm.trans hready.staged
  | some tree =>
  have hsame : ∀ other, Committable chainId host session checkpoint other → other = tree := by
    intro other hready
    exact Option.some.inj (hready.staged.symm.trans hfound)
  rw [Option.getD_some]
  split
  case isFalse hstate =>
    refine .of_fail ⟨hrecoverable, Or.inr ⟨fun other hready => ?_, _, rfl⟩⟩
    rw [hsame other hready] at hready
    exact hstate hready.complete.state
  rename_i hstate
  split
  case isFalse harchive =>
    refine .of_fail ⟨hrecoverable, Or.inr ⟨fun other hready => ?_, _, rfl⟩⟩
    rw [hsame other hready] at hready
    exact harchive hready.complete.archive
  rename_i harchive
  refine Ends.bind ((syncTree_ends hfound).mono ?_ fun _ _ hreached => hreached) ?_ ?_
  · rintro reached rfl
    exact hrecoverable
  · rintro value reached ⟨rfl, hsynced⟩
    have hcomplete : CompleteTree chainId tree := ⟨hstate, harchive, hsynced.mp rfl⟩
    by_cases hfree : (reached.generations.lookup (session.sealedName checkpoint)).getD ∅ = ∅
    · have hsealing := hrecoverable.seal hstaged.unsafe hfree tree
      refine (renameDir_returns hfound hfree hsealing).andThen
        ((sync_returns hsealing).andThen ?_)
      refine (select_ends hsealing hchain hcomplete (hstaged.sealedName_safe checkpoint)
        (by rw [lookup_insert_eq, if_pos rfl])).mono (fun _ hleft => hleft) ?_
      rintro result left ⟨hleft, ⟨rfl, htemporary, hlast⟩ | ⟨herror, htaken⟩⟩
      · exact ⟨hleft, Or.inl ⟨tree, ⟨hchain, hfound, hcomplete, hfree, htemporary⟩, ⟨_, rfl⟩,
          hlast⟩⟩
      · exact ⟨hleft, Or.inr ⟨fun other hready => hready.temporaryFree htaken, herror⟩⟩
    · refine Ends.bind (renameDir_refused hfound hfree) ?_ ?_
      · rintro renamed left ⟨⟨error, herror⟩, _⟩
        cases herror
      · rintro error left ⟨_, rfl⟩
        exact ⟨hrecoverable, Or.inr ⟨fun other hready => hfree hready.sealedFree, _, rfl⟩⟩
  · rintro error reached ⟨rfl, hsynced⟩
    refine ⟨hrecoverable, Or.inr ⟨fun other hready => ?_, _, rfl⟩⟩
    rw [hsame other hready] at hready
    cases hsynced.mpr hready.complete.regular

end AmmSearch
