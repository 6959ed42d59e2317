/-
Crashes of the warm store.  Whatever step the writer dies after, the files that the
manifest selects are still those of the session that committed them, and the next
session resumes with them.
-/
import AmmSearch.WarmStoreCommit

open FiniteMap

namespace AmmSearch

open Durable (Process)
open Durable.Process (Ends Keeps Returns forEach attempt)

variable {format : ManifestFormat} {chainId : UInt64}

theorem spares_renumber (host : WarmHost) (sequence : ℕ) :
    Spares host { host with sequence := sequence } :=
  ⟨rfl, rfl, fun _ _ => rfl⟩

namespace WarmWorld

variable {files : Map String (List UInt8)} {generations : Map String FileTree}
  {world next : WarmWorld} {action : WarmAction}

/-- The disk can be resumed from, and the session is one that was not committed. -/
structure Sound (format : ManifestFormat) (chainId : UInt64) (world : WarmWorld) : Prop where
  host : Recoverable format chainId world.host
  session : ∀ session, world.session = some session → Staged chainId session

theorem sound_initial (hfresh : files.lookup manifestFile = none) :
    Sound format chainId (initial files generations) :=
  ⟨⟨fun _ => hfresh, nofun⟩, nofun⟩

/-- A process that leaves a disk from which one can resume, wherever it dies. -/
theorem Sound.of_ends {α : Type} {process : WarmProcess α}
    {death : Option ℕ} {left : Except WarmStoreError α → Option WarmSession}
    {post : Except WarmStoreError α → WarmHost → Prop} (hsound : Sound format chainId world)
    (hends : process.Ends world.host (Recoverable format chainId) post)
    (hpost : ∀ result reached, post result reached → Recoverable format chainId reached ∧
      ∀ session, left result = some session → Staged chainId session) :
    Sound format chainId (world.after process death left) := by
  cases death with
  | none =>
      obtain ⟨hreached, hsession⟩ := hpost _ _ hends.post
      exact ⟨hreached, hsession⟩
  | some steps =>
      exact ⟨hends.crashed hsound.host (fun _ _ hreached => (hpost _ _ hreached).1) steps, nofun⟩

/-- A process that spares what is selected. -/
theorem Sound.spared {α : Type} {process : WarmProcess α} {death : Option ℕ}
    {left : Except WarmStoreError α → Option WarmSession} (hsound : Sound format chainId world)
    (hkeeps : process.Keeps (Spares world.host))
    (hsession : ∀ result session, left result = some session → Staged chainId session) :
    Sound format chainId (world.after process death left) := by
  have hends := (hkeeps world.host (.refl _)).mono
    (fun _ hreached => hsound.host.of_spares hreached) fun _ _ hreached => hreached
  refine hsound.of_ends hends ?_
  intro result reached hreached
  exact ⟨hsound.host.of_spares hreached, hsession result⟩

theorem Sound.step (hsound : Sound format chainId world)
    (hstep : step format chainId world action = some next) : Sound format chainId next := by
  cases action with
  | start processId =>
      cases hstep
      exact ⟨hsound.host.of_spares (spares_renumber _ 0), nofun⟩
  | begin clock death =>
      cases hprocess : world.processId with
      | none => simp [WarmWorld.step, hprocess] at hstep
      | some processId =>
      cases hsession : world.session with
      | some session => simp [WarmWorld.step, hprocess, hsession] at hstep
      | none =>
        simp only [WarmWorld.step, hprocess, hsession, Option.some.injEq] at hstep
        rw [← hstep]
        have hends := (spares_begin format chainId world.host processId clock).and
          (begin_ends hsound.host processId clock)
        refine hsound.of_ends (hends.mono
          (fun _ hreached => hsound.host.of_spares hreached.1) fun _ _ hreached => hreached) ?_
        rintro result reached ⟨hspares, session, rfl, hstaged, _⟩
        refine ⟨hsound.host.of_spares hspares, ?_⟩
        rintro other hother
        cases hother
        exact hstaged
  | write path entry =>
      obtain ⟨session, hsession, rfl⟩ := Option.map_eq_some_iff.mp hstep
      have hstaged := hsound.session session hsession
      refine hsound.spared (keeps_put (spares_ignores _ hstaged.unsafe) path entry) ?_
      rintro _ other hother
      cases hother
      exact hstaged
  | remove path =>
      obtain ⟨session, hsession, rfl⟩ := Option.map_eq_some_iff.mp hstep
      have hstaged := hsound.session session hsession
      refine hsound.spared (keeps_unlink (spares_ignores _ hstaged.unsafe) path) ?_
      rintro _ other hother
      cases hother
      exact hstaged
  | discard death =>
      obtain ⟨session, hsession, rfl⟩ := Option.map_eq_some_iff.mp hstep
      have hstaged := hsound.session session hsession
      refine hsound.of_ends ((discard_ends hstaged world.host).mono
        (fun _ hreached => hsound.host.of_spares hreached) fun _ _ hreached => hreached) ?_
      rintro result reached ⟨hspares, hdiscarded⟩
      refine ⟨hsound.host.of_spares hspares, ?_⟩
      intro other hother
      cases result with
      | ok discarded =>
          cases hother
          exact hdiscarded _ rfl
      | error error =>
          cases hother
          exact hstaged
  | commit checkpoint death =>
      obtain ⟨session, hsession, rfl⟩ := Option.map_eq_some_iff.mp hstep
      have hstaged := hsound.session session hsession
      refine hsound.of_ends (commit_ends hsound.host hstaged checkpoint) ?_
      rintro result reached ⟨hreached, _⟩
      refine ⟨hreached, ?_⟩
      intro other hother
      cases result with
      | ok committed => cases hother
      | error error =>
          cases hother
          exact hstaged
  | drop death =>
      obtain ⟨session, hsession, rfl⟩ := Option.map_eq_some_iff.mp hstep
      exact hsound.spared (spares_drop (hsound.session session hsession) _) nofun

theorem sound_of_reaches (hfresh : files.lookup manifestFile = none)
    (hreaches : Transitions.Reaches (WarmWorld.step format chainId) (initial files generations)
      world) : Sound format chainId world :=
  hreaches.preserves (fun hbefore hstep => hbefore.step hstep) (sound_initial hfresh)

/-- Wherever the writer died, the next session resumes with the checkpoint and the
files that were selected last, or with none if the manifest was never replaced. -/
theorem crash_consistent (hfresh : files.lookup manifestFile = none)
    (hreaches : Transitions.Reaches (WarmWorld.step format chainId) (initial files generations)
      world) (processId sequence : ℕ) (clock : ℕ → ℕ) :
    ∃ session,
      (WarmStore.begin format chainId processId clock
        { world.host with sequence := sequence }).result = .ok session ∧
      Resumes world.host session
        (WarmStore.begin format chainId processId clock
          { world.host with sequence := sequence }).last := by
  have hhost := (sound_of_reaches hfresh hreaches).host.of_spares
    (spares_renumber world.host sequence)
  obtain ⟨session, hresult, _, hresumes⟩ := (begin_ends hhost processId clock).post
  exact ⟨session, hresult, hresumes.none, hresumes.some⟩

end WarmWorld

namespace WarmStoreExample

def checkpointAt (blockNumber : UInt64) : WarmCheckpoint where
  chainId := 1
  blockNumber := blockNumber
  blockHash := BitVec.ofNat 256 (0x64 * ((2 ^ 256 - 1) / 255))

def manifest : WarmManifest where
  version := 1
  chainId := 1
  generation := "gen-100-64646464-7-1000-0"
  checkpoint := checkpointAt 100

/-- The manifest as it is written. -/
def text : List UInt8 :=
  123 :: ("\"version\":1,\"chain_id\":1,\"generation\":\"gen-100-64646464-7-1000-0\"," ++
    "\"checkpoint\":\x7b\"chain_id\":1,\"block_number\":100,\"block_hash\":\"0x" ++
    "6464646464646464646464646464646464646464646464646464646464646464\"\x7d\x7d").toList.map
    fun char => UInt8.ofNat char.toNat

def numbers (manifest : WarmManifest) : List ℕ :=
  manifest.version.toNat :: manifest.chainId.toNat :: manifest.checkpoint.chainId.toNat ::
    manifest.checkpoint.blockNumber.toNat :: manifest.checkpoint.blockHash.toNat ::
    manifest.generation.toList.map Char.toNat

def ofNumbers : List ℕ → Option WarmManifest
  | version :: chainId :: checkpointChain :: blockNumber :: blockHash :: generation =>
      some ⟨UInt32.ofNat version, UInt64.ofNat chainId, String.ofList (generation.map Char.ofNat),
        ⟨UInt64.ofNat checkpointChain, UInt64.ofNat blockNumber, BitVec.ofNat 256 blockHash⟩⟩
  | _ => none

theorem ofNumbers_numbers (manifest : WarmManifest) :
    ofNumbers (numbers manifest) = some manifest := by
  have hchars : manifest.generation.toList.map (Char.ofNat ∘ Char.toNat) =
      manifest.generation.toList := by
    rw [show Char.ofNat ∘ Char.toNat = id from funext Char.ofNat_toNat, List.map_id]
  simp [ofNumbers, numbers, hchars]

/-- The digits of a number. -/
def numeral (number : ℕ) : List UInt8 :=
  (Nat.toDigits 10 number).map fun char => UInt8.ofNat char.toNat

def ofNumeral (bytes : List UInt8) : ℕ :=
  Nat.ofDigitChars 10 (bytes.map fun byte => Char.ofNat byte.toNat) 0

theorem digit_bounds {number : ℕ} {char : Char} (hchar : char ∈ Nat.toDigits 10 number) :
    48 ≤ char.toNat ∧ char.toNat ≤ 57 := by
  have hdigit := Nat.isDigit_of_mem_toDigits (by decide) (by decide) hchar
  simpa [Char.isDigit, UInt32.le_iff_toNat_le] using hdigit

theorem ofNumeral_numeral (number : ℕ) : ofNumeral (numeral number) = number := by
  have hchars : (numeral number).map (fun byte => Char.ofNat byte.toNat) =
      Nat.toDigits 10 number := by
    rw [numeral, List.map_map]
    refine (List.map_congr_left ?_).trans (List.map_id _)
    intro char hchar
    have hbounds := digit_bounds hchar
    have hbyte : (UInt8.ofNat char.toNat).toNat = char.toNat := by
      rw [UInt8.toNat_ofNat', Nat.mod_eq_of_lt (by omega)]
    rw [Function.comp_apply, hbyte, Char.ofNat_toNat, id_eq]
  rw [ofNumeral, hchars]
  simp

theorem comma_not_mem_numeral (number : ℕ) : 44 ∉ numeral number := by
  intro hcomma
  obtain ⟨char, hchar, hsame⟩ := List.mem_map.mp hcomma
  have hbounds := digit_bounds hchar
  have hnat := congrArg UInt8.toNat hsame
  rw [UInt8.toNat_ofNat', Nat.mod_eq_of_lt (by omega)] at hnat
  have hcomma : (44 : UInt8).toNat = 44 := rfl
  omega

/-- A format that writes the manifest above as its text, and any other one as a list
of numbers. -/
def manifestFormat : ManifestFormat where
  encode other :=
    if other = manifest then text else 0 :: [44].intercalate ((numbers other).map numeral)
  decode bytes :=
    if bytes = text then some manifest else ofNumbers ((bytes.tail.splitOn 44).map ofNumeral)
  decode_encode other := by
    by_cases hother : other = manifest
    · simp [hother]
    · have htext : 0 :: [44].intercalate ((numbers other).map numeral) ≠ text := by
        intro hsame
        exact absurd (List.cons.inj hsame).1 (by decide)
      have hsplit : ([44].intercalate ((numbers other).map numeral)).splitOn 44 =
          (numbers other).map numeral := by
        refine List.splitOn_intercalate 44 ?_ (by simp [numbers])
        intro bytes hbytes
        obtain ⟨number, _, rfl⟩ := List.mem_map.mp hbytes
        exact comma_not_mem_numeral number
      have hnumbers : ((numbers other).map numeral).map ofNumeral = numbers other := by
        rw [List.map_map, show ofNumeral ∘ numeral = id from funext ofNumeral_numeral, List.map_id]
      rw [if_neg hother, if_neg htext, List.tail_cons, hsplit, hnumbers, ofNumbers_numbers]

/-- A session up to its commit. -/
def sessionOf (processId : ℕ) (byte : UInt8) : List WarmAction :=
  [.start processId, .begin (fun sequence => 1000 + sequence) none,
    .write ["chain_1"] .directory, .write ["chain_1", "evm_state.bin"] (.file [byte]),
    .write ["chain_1", "amm_registrations.bin"] (.file [byte])]

/-- The second commit dies between its seal and its manifest. -/
def interrupted : List WarmAction :=
  sessionOf 7 1 ++ [.commit (checkpointAt 100) none] ++
    sessionOf 8 2 ++ [.commit (checkpointAt 101) (some 8)]

theorem crash_consistent_interrupted :
    ∃ (world : WarmWorld) (resumed : WarmSession),
      Transitions.run (WarmWorld.step manifestFormat 1) (WarmWorld.initial ∅ ∅) interrupted =
        some world ∧
      (WarmStore.begin manifestFormat 1 9 (fun sequence => sequence)
        { world.host with sequence := 0 }).result = .ok resumed ∧
      resumed.resumeCheckpoint = some (checkpointAt 100) := by
  have hrun : ((Transitions.run (WarmWorld.step manifestFormat 1) (WarmWorld.initial ∅ ∅)
      interrupted).map fun world => world.host.selected.getLast?.map Prod.fst) =
        some (some (checkpointAt 100)) := by
    decide +kernel
  obtain ⟨world, hworld, hlast⟩ := Option.map_eq_some_iff.mp hrun
  obtain ⟨⟨last, tree⟩, hselected, rfl⟩ := Option.map_eq_some_iff.mp hlast
  obtain ⟨resumed, hresult, hresumes⟩ :=
    WarmWorld.crash_consistent (Finmap.lookup_empty _) ⟨_, hworld⟩ 9 0 fun sequence => sequence
  exact ⟨world, resumed, hworld, hresult, (hresumes.some _ _ hselected).1⟩

end WarmStoreExample

end AmmSearch
