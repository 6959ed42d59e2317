/-
The start of a warm session.  Nothing that a session does before its commit touches
the manifest or a sealed generation, and a session starts with a whole copy of what
was selected last.
-/
import AmmSearch.WarmStoreNames

open FiniteMap

namespace AmmSearch

open Durable (Process)
open Durable.Process (Ends Keeps Returns forEach attempt)

/-- All that a session needs, and nothing that cannot be copied. -/
structure CompleteTree (chainId : UInt64) (tree : FileTree) : Prop where
  state : tree.isFile [chainDirName chainId, stateFile] = true
  archive : tree.isFile [chainDirName chainId, registrationArchive] = true
  regular : ∀ path, tree.lookup path ≠ some .special

/-- Neither the manifest nor a sealed generation changes. -/
structure Spares (before after : WarmHost) : Prop where
  manifest : after.files.lookup manifestFile = before.files.lookup manifestFile
  selected : after.selected = before.selected
  generations : ∀ name, safeGenerationName name = true →
    after.generations.lookup name = before.generations.lookup name

variable {before middle after host : WarmHost} {format : ManifestFormat} {chainId : UInt64}
  {name staging source : String} {path : FilePath} {tree : FileTree}

theorem Spares.refl (host : WarmHost) : Spares host host :=
  ⟨rfl, rfl, fun _ _ => rfl⟩

/-- A property that does not depend on one generation. -/
structure Ignores (property : WarmHost → Prop) (name : String) : Prop where
  insert : ∀ host tree, property host →
    property { host with generations := host.generations.insert name tree }
  erase : ∀ host, property host →
    property { host with generations := host.generations.erase name }

theorem spares_ignores (before : WarmHost) (hname : safeGenerationName name = false) :
    Ignores (Spares before) name := by
  have hother : ∀ other, safeGenerationName other = true → other ≠ name := by
    rintro other hsafe rfl
    cases hname.symm.trans hsafe
  refine ⟨?_, ?_⟩
  · intro host tree hspares
    refine ⟨hspares.manifest, hspares.selected, ?_⟩
    intro other hsafe
    rw [lookup_insert_eq, if_neg (hother other hsafe)]
    exact hspares.generations other hsafe
  · intro host hspares
    refine ⟨hspares.manifest, hspares.selected, ?_⟩
    intro other hsafe
    rw [lookup_erase_eq, if_neg (hother other hsafe)]
    exact hspares.generations other hsafe

section Ignores

variable {property : WarmHost → Prop} (hignores : Ignores property name)
include hignores

theorem keeps_createDir : (WarmHost.createDir name).Keeps property := by
  refine .of_step ?_
  intro host reached hproperty hreached
  split at hreached
  · cases hreached
  · cases hreached
    exact hignores.insert host ∅ hproperty

theorem keeps_put (path : FilePath) (entry : FileEntry) :
    (WarmHost.put name path entry).Keeps property :=
  .of_update fun host hproperty => hignores.insert host _ hproperty

theorem keeps_unlink (path : FilePath) : (WarmHost.unlink name path).Keeps property := by
  refine .of_step ?_
  intro host reached hproperty hreached
  split at hreached
  · cases hreached
  · cases hreached
    exact hignores.insert host _ hproperty

theorem keeps_writeFile (path : FilePath) (bytes : List UInt8) :
    (WarmHost.writeFile name path bytes).Keeps property :=
  .forEach (fun _ => keeps_put hignores path _) _

theorem keeps_removeBelow (path : FilePath) :
    (WarmHost.removeBelow name path).Keeps property :=
  .bind (.of_peek _) fun _ => .forEach (keeps_unlink hignores) _

theorem keeps_removeDirAll : (WarmHost.removeDirAll name).Keeps property := by
  refine .bind (.of_peek _) ?_
  intro found
  cases found with
  | none => exact .of_fail _
  | some tree =>
      exact .bind (keeps_removeBelow hignores []) fun _ => .of_update hignores.erase

theorem keeps_copyLegacy (chainId : UInt64) :
    (copyLegacyRegistrations chainId name).Keeps property := by
  refine .bind (.of_peek _) ?_
  intro source
  cases source with
  | none => exact .of_pure _
  | some bytes =>
      exact .bind (keeps_put hignores _ _) fun _ => keeps_writeFile hignores _ bytes

theorem keeps_copyEntry (tree : FileTree) (path : FilePath) :
    (copyEntry tree name path).Keeps property := by
  unfold copyEntry
  split
  · exact .of_pure _
  · exact keeps_put hignores path _
  · exact keeps_writeFile hignores path _
  · exact .of_fail _

theorem keeps_copyTree (source : String) : (copyTree source name).Keeps property := by
  refine .bind (.of_peek _) ?_
  intro found
  cases found with
  | none => exact .of_fail _
  | some tree => exact .forEach (keeps_copyEntry hignores tree) _

theorem keeps_seed (committed : Option (String × WarmCheckpoint)) :
    (WarmStore.seed chainId name committed).Keeps property := by
  cases committed with
  | none => exact .bind (keeps_copyLegacy hignores chainId) fun _ => .of_pure _
  | some found =>
      refine .bind (keeps_copyTree hignores found.1).attempt ?_
      intro copied
      cases copied with
      | ok _ => exact .of_pure _
      | error _ =>
          exact .bind (keeps_removeDirAll hignores) fun _ => .bind (keeps_createDir hignores)
            fun _ => .bind (keeps_copyLegacy hignores chainId) fun _ => .of_pure _

end Ignores

theorem spares_fetchSequence : WarmHost.fetchSequence.Keeps (Spares before) := by
  refine .bind (.of_peek _) fun _ => .bind (.of_update ?_) fun _ => .of_pure _
  exact fun _ hspares => ⟨hspares.manifest, hspares.selected, hspares.generations⟩

theorem spares_uniqueStagingPath (processId : ℕ) (clock : ℕ → ℕ) (fuel : ℕ) :
    (uniqueStagingPath processId clock fuel).Keeps (Spares before) := by
  induction fuel with
  | zero => exact .of_fail _
  | succ fuel ih =>
      refine .bind spares_fetchSequence fun sequence => .bind (.of_peek _) ?_
      intro found
      cases found with
      | true => exact ih
      | false => exact .of_pure _

/-- A name of a staging generation that is not in use. -/
structure Unused (host : WarmHost) (name : String) : Prop where
  staging : ∃ processId nanos sequence, name = stagingName (uniqueText processId nanos sequence)
  free : name ∉ host.generations

theorem Unused.unsafe (hunused : Unused host name) : safeGenerationName name = false := by
  obtain ⟨processId, nanos, sequence, rfl⟩ := hunused.staging
  exact safeGenerationName_stagingName _

theorem fetchSequence_returns (host : WarmHost) {during : WarmHost → Prop}
    (hduring : during { host with sequence := host.sequence + 1 }) :
    WarmHost.fetchSequence.Returns host during host.sequence
      { host with sequence := host.sequence + 1 } :=
  (Returns.peek _ _).andThen ((Returns.update hduring).andThen (Returns.pure _ _))

/-- The loop finds an unused name: every name that is in use rules out one number. -/
theorem uniqueStagingPath_ends (host : WarmHost) (processId : ℕ) (clock : ℕ → ℕ) {fuel : ℕ}
    (used : Finset String)
    (hused : ∀ sequence, host.sequence ≤ sequence →
      stagingName (uniqueText processId (clock sequence) sequence) ∈ host.generations →
      stagingName (uniqueText processId (clock sequence) sequence) ∈ used)
    (hfuel : used.card < fuel) :
    (uniqueStagingPath processId clock fuel).Ends host (fun _ => True)
      fun result reached => ∃ name, result = .ok name ∧ Unused host name ∧
        reached.generations = host.generations ∧ reached.files = host.files := by
  induction fuel generalizing host used with
  | zero => exact absurd hfuel (Nat.not_lt_zero _)
  | succ fuel ih =>
      refine (fetchSequence_returns host trivial).andThen ((Returns.peek _ _).andThen ?_)
      by_cases hfound :
          stagingName (uniqueText processId (clock host.sequence) host.sequence) ∈ host.generations
      · rw [if_pos (decide_eq_true hfound)]
        have hmem := hused host.sequence le_rfl hfound
        have hrest := ih { host with sequence := host.sequence + 1 }
          (used.erase
            (stagingName (uniqueText processId (clock host.sequence) host.sequence))) ?_ ?_
        · refine hrest.mono (fun _ hreached => hreached) ?_
          rintro result reached ⟨name, hresult, hunused, hkept⟩
          exact ⟨name, hresult, ⟨hunused.staging, hunused.free⟩, hkept⟩
        · intro sequence hsequence htaken
          refine Finset.mem_erase.mpr ⟨?_, hused sequence (Nat.le_of_succ_le hsequence) htaken⟩
          intro hsame
          exact absurd (stagingName_inj hsame) (Nat.lt_of_succ_le hsequence).ne'
        · rw [Finset.card_erase_of_mem hmem]
          have hpositive := Finset.card_pos.mpr ⟨_, hmem⟩
          omega
      · rw [if_neg (by simpa using hfound)]
        exact .of_pure ⟨_, rfl, ⟨⟨processId, _, _, rfl⟩, hfound⟩, rfl, rfl⟩

theorem getLast?_inits (bytes : List UInt8) : bytes.inits.getLast? = some bytes := by
  induction bytes with
  | nil => rfl
  | cons byte rest ih =>
      rw [List.inits_cons, List.getLast?_cons, List.getLast?_map, ih]
      rfl

/-- The content of a generation that is being written: one path changed. -/
structure Wrote (before after : WarmHost) (name : String) (path : FilePath)
    (entry : FileEntry) : Prop where
  self : ∃ tree, after.generations.lookup name = some tree ∧ tree.lookup path = some entry ∧
    ∀ other, other ≠ path →
      tree.lookup other = ((before.generations.lookup name).getD ∅).lookup other
  others : ∀ other, other ≠ name →
    after.generations.lookup other = before.generations.lookup other
  files : after.files = before.files

theorem put_wrote (host : WarmHost) (name : String) (path : FilePath) (entry : FileEntry) :
    (WarmHost.put name path entry).Ends host (fun _ => True)
      fun result reached => result = .ok () ∧ Wrote host reached name path entry := by
  refine .of_update trivial ⟨rfl,
    ⟨((host.generations.lookup name).getD ∅).insert path entry, ?_, ?_, ?_⟩, ?_, rfl⟩
  · rw [lookup_insert_eq, if_pos rfl]
  · rw [lookup_insert_eq, if_pos rfl]
  · intro other hother
    rw [lookup_insert_eq, if_neg hother]
  · intro other hother
    rw [lookup_insert_eq, if_neg hother]

theorem Wrote.trans {first last : FileEntry} (hfirst : Wrote before middle name path first)
    (hlast : Wrote middle after name path last) : Wrote before after name path last := by
  obtain ⟨tree, htree, _, hothers⟩ := hfirst.self
  obtain ⟨later, hlater, hpath, hrest⟩ := hlast.self
  rw [htree] at hrest
  refine ⟨⟨later, hlater, hpath, ?_⟩, ?_, hlast.files.trans hfirst.files⟩
  · intro other hother
    rw [hrest other hother]
    exact hothers other hother
  · intro other hother
    exact (hlast.others other hother).trans (hfirst.others other hother)

/-- A file is written whole. -/
theorem writeFile_wrote (host : WarmHost) (name : String) (path : FilePath)
    (bytes : List UInt8) :
    (WarmHost.writeFile name path bytes).Ends host (fun _ => True)
      fun result reached => result = .ok () ∧ Wrote host reached name path (.file bytes) := by
  refine Ends.forEach_last (fun written reached => Wrote host reached name path (.file written))
    ?_ (getLast?_inits bytes)
  rintro written reached (rfl | ⟨earlier, hearlier⟩)
  · exact put_wrote _ name path (.file written)
  · refine (put_wrote reached name path (.file written)).mono (fun _ hreached => hreached) ?_
    rintro result left ⟨hresult, hwrote⟩
    exact ⟨hresult, hearlier.trans hwrote⟩

theorem copyEntry_wrote {entry : FileEntry} (hentry : tree.lookup path = some entry)
    (hregular : entry ≠ .special) (host : WarmHost) (name : String) :
    (copyEntry tree name path).Ends host (fun _ => True)
      fun result reached => result = .ok () ∧ Wrote host reached name path entry := by
  unfold copyEntry
  rw [hentry]
  cases entry with
  | file bytes => exact writeFile_wrote host name path bytes
  | directory => exact put_wrote host name path .directory
  | special => exact absurd rfl hregular

/-- A generation without special files is copied whole into an empty one. -/
theorem copyTree_ends (hsource : host.generations.lookup source = some tree)
    (hregular : ∀ path, tree.lookup path ≠ some .special)
    (hstaging : host.generations.lookup staging = some ∅) :
    (copyTree source staging).Ends host (fun _ => True)
      fun result reached => result = .ok () ∧ reached.generations.lookup staging = some tree := by
  refine (Returns.peek _ _).andThen ?_
  rw [hsource]
  refine Ends.forEach (fun rest reached => (∀ path ∈ rest, path ∈ tree.keys) ∧
    ∃ copied, reached.generations.lookup staging = some copied ∧
      ∀ path, path ∉ rest → copied.lookup path = tree.lookup path) ?_ ?_ _ ⟨?_, ∅, hstaging, ?_⟩
  · rintro path rest reached ⟨hkeys, copied, hcopied, hsame⟩
    obtain ⟨entry, hentry⟩ := Finmap.mem_iff.mp (Finmap.mem_keys.mp (hkeys path List.mem_cons_self))
    have hcopy := copyEntry_wrote hentry (fun hspecial => hregular path (hspecial ▸ hentry)) reached
      staging
    refine hcopy.mono (fun _ hreached => hreached) ?_
    rintro result left ⟨rfl, hwrote⟩
    obtain ⟨later, hlater, hpath, hothers⟩ := hwrote.self
    refine ⟨fun other hother => hkeys other (List.mem_cons_of_mem path hother), later, hlater, ?_⟩
    intro other hother
    by_cases hself : other = path
    · rw [hself, hpath, hentry]
    · rw [hothers other hself, hcopied]
      exact hsame other fun hmem => (List.mem_cons.mp hmem).elim hself hother
  · rintro reached ⟨_, copied, hcopied, hsame⟩
    refine ⟨rfl, ?_⟩
    rw [hcopied, Finmap.ext_lookup fun path => hsame path List.not_mem_nil]
  · exact fun path hpath => (mem_ascending _ _).mp hpath
  · intro path hpath
    rw [mem_ascending, Finmap.mem_keys] at hpath
    rw [Finmap.lookup_empty]
    exact (Finmap.lookup_eq_none.mpr hpath).symm

/-- The disk on which the next session resumes with the last checkpoint that was
selected and the files of its session, or with none. -/
structure Recoverable (format : ManifestFormat) (chainId : UInt64) (host : WarmHost) : Prop where
  none : host.selected.getLast? = none → host.files.lookup manifestFile = none
  some : ∀ checkpoint tree, host.selected.getLast? = some (checkpoint, tree) →
    checkpoint.chainId = chainId ∧ CompleteTree chainId tree ∧
    ∃ name, safeGenerationName name = true ∧ host.generations.lookup name = some tree ∧
      host.files.lookup manifestFile =
        some (format.encode ⟨manifestVersion, chainId, name, checkpoint⟩)

theorem Recoverable.of_spares (hrecoverable : Recoverable format chainId before)
    (hspares : Spares before after) : Recoverable format chainId after := by
  refine ⟨?_, ?_⟩
  · rw [hspares.selected, hspares.manifest]
    exact hrecoverable.none
  · rw [hspares.selected, hspares.manifest]
    intro checkpoint tree hlast
    obtain ⟨hchain, hcomplete, name, hsafe, hname, hmanifest⟩ :=
      hrecoverable.some checkpoint tree hlast
    exact ⟨hchain, hcomplete, name, hsafe, (hspares.generations name hsafe).trans hname, hmanifest⟩

/-- What the next session loads. -/
theorem Recoverable.loadCommitted (hrecoverable : Recoverable format chainId host) :
    (host.selected.getLast? = Option.none ∧
      WarmStore.loadCommitted format chainId host = Option.none) ∨
    ∃ checkpoint tree name, host.selected.getLast? = Option.some (checkpoint, tree) ∧
      CompleteTree chainId tree ∧ safeGenerationName name = true ∧
      host.generations.lookup name = Option.some tree ∧
      WarmStore.loadCommitted format chainId host = Option.some (name, checkpoint) := by
  cases hlast : host.selected.getLast? with
  | none =>
      refine Or.inl ⟨rfl, ?_⟩
      rw [WarmStore.loadCommitted, hrecoverable.none hlast]
      rfl
  | some selected =>
      obtain ⟨checkpoint, tree⟩ := selected
      obtain ⟨hchain, hcomplete, name, hsafe, hname, hmanifest⟩ :=
        hrecoverable.some checkpoint tree hlast
      refine Or.inr ⟨checkpoint, tree, name, rfl, hcomplete, hsafe, hname, ?_⟩
      rw [WarmStore.loadCommitted, hmanifest, Option.bind_some, format.decode_encode,
        Option.bind_some, if_neg (by simp [hchain, hsafe])]
      simp [hname, hcomplete.state, hcomplete.archive]

/-- The checkpoint and the files with which a session starts. -/
structure Resumes (host : WarmHost) (session : WarmSession) (after : WarmHost) : Prop where
  none : host.selected.getLast? = none → session.resumeCheckpoint = none
  some : ∀ checkpoint tree, host.selected.getLast? = some (checkpoint, tree) →
    session.resumeCheckpoint = some checkpoint ∧
      after.generations.lookup session.cacheBase = some tree

/-- A session of the store that has not been committed. -/
structure Staged (chainId : UInt64) (session : WarmSession) : Prop where
  chain : session.chainId = chainId
  base : session.staging = some session.cacheBase
  name : ∃ processId nanos sequence,
    session.cacheBase = stagingName (uniqueText processId nanos sequence)

theorem Staged.unsafe {session : WarmSession} (hstaged : Staged chainId session) :
    safeGenerationName session.cacheBase = false := by
  obtain ⟨processId, nanos, sequence, hname⟩ := hstaged.name
  rw [hname]
  exact safeGenerationName_stagingName _

theorem copyLegacy_ends (chainId : UInt64) (staging : String) (host : WarmHost) :
    (copyLegacyRegistrations chainId staging).Ends host (fun _ => True)
      fun result _ => result = .ok () := by
  refine (Returns.peek _ _).andThen ?_
  cases host.files.lookup registrationArchive with
  | none => exact .of_pure rfl
  | some bytes =>
      refine Ends.bind (put_wrote host staging _ .directory) ?_ ?_
      · intro value reached _
        refine (writeFile_wrote reached staging _ bytes).mono (fun _ hreached => hreached) ?_
        rintro result left ⟨hresult, _⟩
        exact hresult
      · rintro error reached ⟨herror, _⟩
        cases herror

theorem seed_none_ends (chainId : UInt64) (staging : String) (host : WarmHost) :
    (WarmStore.seed chainId staging none).Ends host (fun _ => True)
      fun result _ => result = .ok none := by
  refine Ends.bind (copyLegacy_ends chainId staging host) ?_ ?_
  · intro value reached _
    exact .of_pure rfl
  · intro error reached herror
    cases herror

theorem seed_some_ends (chainId : UInt64) (checkpoint : WarmCheckpoint)
    (hsource : host.generations.lookup source = some tree)
    (hregular : ∀ path, tree.lookup path ≠ some .special)
    (hstaging : host.generations.lookup staging = some ∅) :
    (WarmStore.seed chainId staging (some (source, checkpoint))).Ends host (fun _ => True)
      fun result reached => result = .ok (some checkpoint) ∧
        reached.generations.lookup staging = some tree := by
  have hcopy := copyTree_ends hsource hregular hstaging
  refine Ends.bind (?_ : Process.Ends _ _ _ fun result reached => result = .ok (.ok ()) ∧
    reached.generations.lookup staging = some tree) ?_ ?_
  · refine Ends.attempt (hcopy.mono (fun _ hreached => hreached) ?_)
    rintro result reached ⟨rfl, htree⟩
    exact ⟨rfl, htree⟩
  · rintro copied reached ⟨hcopied, htree⟩
    cases hcopied
    exact .of_pure ⟨rfl, htree⟩
  · rintro error reached ⟨herror, _⟩
    cases herror

theorem createDir_returns (hfree : name ∉ host.generations) :
    (WarmHost.createDir name).Returns host (fun _ => True) ()
      { host with generations := host.generations.insert name ∅ } :=
  .step (if_neg hfree) trivial

/-- A session starts, and resumes with what was selected last. -/
theorem begin_ends (hrecoverable : Recoverable format chainId host) (processId : ℕ)
    (clock : ℕ → ℕ) :
    (WarmStore.begin format chainId processId clock).Ends host (fun _ => True)
      fun result reached => ∃ session, result = .ok session ∧ Staged chainId session ∧
        Resumes host session reached := by
  refine (Returns.peek _ _).andThen ((Returns.peek _ _).andThen ?_)
  have hunique := uniqueStagingPath_ends host processId clock
    host.generations.keys (fun _ _ htaken => Finmap.mem_keys.mpr htaken)
    (Nat.lt_succ_self _)
  refine Ends.bind hunique ?_ ?_
  · rintro staging reached ⟨name, hname, hunused, hgenerations, hfiles⟩
    cases hname
    have hfree : staging ∉ reached.generations := by
      rw [hgenerations]
      exact hunused.free
    refine (createDir_returns hfree).andThen ?_
    have hstaging :
        (reached.generations.insert staging ∅).lookup staging = some (∅ : FileTree) := by
      rw [lookup_insert_eq, if_pos rfl]
    rcases hrecoverable.loadCommitted with
      ⟨hnone, hload⟩ | ⟨checkpoint, tree, name, hsome, hcomplete, hsafe, hlookup, hload⟩
    · rw [hload]
      refine Ends.bind (seed_none_ends chainId staging _) ?_ ?_
      · rintro resume left hresume
        cases hresume
        refine .of_pure ⟨_, rfl, ⟨rfl, rfl, hunused.staging⟩, fun _ => rfl, ?_⟩
        intro checkpoint tree hselected
        cases hnone.symm.trans hselected
      · rintro error left herror
        cases herror
    · rw [hload]
      have hsource : (reached.generations.insert staging ∅).lookup name = some tree := by
        rw [lookup_insert_eq, if_neg, hgenerations, hlookup]
        rintro rfl
        cases hunused.unsafe.symm.trans hsafe
      have hseed := @seed_some_ends
        { reached with generations := reached.generations.insert staging ∅ } _ _ _
        chainId checkpoint hsource hcomplete.regular hstaging
      refine Ends.bind hseed ?_ ?_
      · rintro resume left ⟨hresume, htree⟩
        cases hresume
        refine .of_pure ⟨_, rfl, ⟨rfl, rfl, hunused.staging⟩, ?_, ?_⟩
        · intro hnone
          cases hnone.symm.trans hsome
        · intro other selected hselected
          obtain ⟨rfl, rfl⟩ := Prod.mk.inj (Option.some.inj (hsome.symm.trans hselected))
          exact ⟨rfl, htree⟩
      · rintro error left ⟨herror, _⟩
        cases herror
  · rintro error reached ⟨name, hname, _⟩
    cases hname

/-- Every step of `begin` spares what is selected. -/
theorem spares_begin (format : ManifestFormat) (chainId : UInt64) (host : WarmHost)
    (processId : ℕ) (clock : ℕ → ℕ) :
    (WarmStore.begin format chainId processId clock).Ends host (Spares host)
      fun _ reached => Spares host reached := by
  refine (Returns.peek _ _).andThen ((Returns.peek _ _).andThen ?_)
  have hunique := uniqueStagingPath_ends host processId clock
    host.generations.keys (fun _ _ htaken => Finmap.mem_keys.mpr htaken)
    (Nat.lt_succ_self _)
  have hspares := spares_uniqueStagingPath processId clock
    (host.generations.keys.card + 1) host (.refl host)
  refine Ends.bind ((hspares.and hunique).mono (fun _ hreached => hreached.1)
    fun _ _ hreached => hreached) ?_ ?_
  · rintro staging reached ⟨hreached, name, hname, hunused, _⟩
    cases hname
    have hunsafe := hunused.unsafe
    have hrest : (WarmHost.createDir staging >>= fun _ =>
        WarmStore.seed chainId staging (WarmStore.loadCommitted format chainId host) >>=
          fun resume => (pure ⟨chainId, staging, resume, some staging⟩ :
            WarmProcess WarmSession)).Keeps (Spares host) :=
      .bind (keeps_createDir (spares_ignores host hunsafe)) fun _ =>
        .bind (keeps_seed (spares_ignores host hunsafe) _) fun _ => .of_pure _
    exact hrest reached hreached
  · rintro error reached ⟨hreached, _⟩
    exact hreached

theorem discard_ends {session : WarmSession} (hstaged : Staged chainId session)
    (host : WarmHost) :
    session.discardUnverifiedCache.Ends host (Spares host)
      fun result reached => Spares host reached ∧
        ∀ discarded, result = .ok discarded → Staged chainId discarded := by
  refine (Returns.peek _ _).andThen ?_
  have hloop : ∀ names : List String, (forEach (fun name => WarmHost.removeBelow session.cacheBase
      [chainDirName session.chainId, name]) names).Keeps (Spares host) :=
    .forEach fun name => keeps_removeBelow (spares_ignores host hstaged.unsafe) _
  have hdone : ∀ reached, Spares host reached →
      Ends (pure { session with resumeCheckpoint := none } : WarmProcess WarmSession) reached
        (Spares host) fun result left => Spares host left ∧
          ∀ discarded, result = .ok discarded → Staged chainId discarded := by
    intro reached hreached
    refine .of_pure ⟨hreached, ?_⟩
    rintro discarded ⟨⟩
    exact ⟨hstaged.chain, hstaged.base, hstaged.name⟩
  simp only
  split
  · refine Ends.bind (hloop _ host (.refl host)) ?_ ?_
    · exact fun value reached hreached => hdone reached hreached
    · exact fun error reached hreached => ⟨hreached, nofun⟩
  · exact hdone host (.refl host)

theorem spares_drop {session : WarmSession} (hstaged : Staged chainId session)
    (before : WarmHost) : session.drop.Keeps (Spares before) := by
  unfold WarmSession.drop
  rw [hstaged.base]
  exact .bind (keeps_removeDirAll (spares_ignores before hstaged.unsafe)).attempt
    fun _ => .of_pure _

end AmmSearch
