/-
What a graph version identifies.  The graphs of one process come from full
builds, from copies and from updates in place; a version names one topology
exactly as long as copies are not advanced apart.
-/
import AmmSearch.AmmGraphIncremental

open FiniteMap StableGraph

namespace AmmSearch

namespace Topology

/-- The topology of a full build. -/
def ofRegistry (registry : AdapterRegistry) (options : GraphBuildOptions) :
    Topology :=
  let pools := (registry.pools.filterMap fun registration =>
      (AmmGraph.registeredEntry registration options).map
        (Prod.mk registration.key)).foldl
    (fun pools entry => pools.insert entry.1 entry.2) ∅
  ⟨pools, usedTokens pools⟩

theorem lookup_ofRegistry (registry : AdapterRegistry)
    (options : GraphBuildOptions) (pool : PoolKey) :
    (ofRegistry registry options).pools.lookup pool =
      (registry.pool pool).bind (AmmGraph.registeredEntry · options) := by
  have hmem : ∀ entry : PoolKey × List Address,
      (entry ∈ registry.pools.filterMap fun registration =>
        (AmmGraph.registeredEntry registration options).map
          (Prod.mk registration.key)) ↔
      ∃ registration, registry.pool entry.1 = some registration ∧
        AmmGraph.registeredEntry registration options = some entry.2 := by
    rintro ⟨key, tokens⟩
    simp only [List.mem_filterMap, Option.map_eq_some_iff, Prod.mk.injEq,
      registry.pool_eq_some_iff]
    constructor
    · rintro ⟨registration, hregistered, found, hfound, rfl, rfl⟩
      exact ⟨registration, ⟨hregistered, rfl⟩, hfound⟩
    · rintro ⟨registration, ⟨hregistered, rfl⟩, hfound⟩
      exact ⟨registration, hregistered, tokens, hfound, rfl, rfl⟩
  apply Option.ext
  intro tokens
  simp only [ofRegistry]
  rw [lookup_foldl_insert_iff, Option.bind_eq_some_iff]
  · simp only [hmem, Finmap.lookup_empty, reduceCtorEq, and_false, or_false]
    constructor
    · rintro ⟨entry, ⟨registration, hregistered, hfound⟩, rfl, rfl⟩
      exact ⟨registration, hregistered, hfound⟩
    · rintro ⟨registration, hregistered, hfound⟩
      exact ⟨(pool, tokens), ⟨registration, hregistered, hfound⟩, rfl, rfl⟩
  · intro left hleft right hright hkey
    obtain ⟨registration, hregistered, hfound⟩ := (hmem left).mp hleft
    obtain ⟨registration', hregistered', hfound'⟩ := (hmem right).mp hright
    rw [hkey, hregistered'] at hregistered
    obtain rfl := Option.some.inj hregistered
    exact Option.some.inj (hfound.symm.trans hfound')

end Topology

/-- An update in place of one graph. -/
inductive GraphCommand
  | applyPool (registration : PoolRegistration) (options : GraphBuildOptions)
  | removePool (pool : PoolKey)
  | removePoolCompacting (pool : PoolKey)
  | rebuildFromRegistry (registry : AdapterRegistry) (options : GraphBuildOptions)

namespace GraphCommand

/-- What the update is for. -/
def effect (topology : Topology) : GraphCommand → Topology
  | applyPool registration options => topology.apply registration options
  | removePool pool => topology.drop pool
  | removePoolCompacting pool => topology.retire pool
  | rebuildFromRegistry registry options => Topology.ofRegistry registry options

variable {G : Type} [StableDiGraph G Address EdgeData]

/-- Run the update with the next lineage of the process; a rebuild takes one. -/
def run (nextLineage : ℕ) (g : AmmGraph G) : GraphCommand → Option (ℕ × AmmGraph G)
  | applyPool registration options =>
      (g.applyPool registration options).map fun result => (nextLineage, result.2)
  | removePool pool =>
      (g.removePool pool).map fun result => (nextLineage, result.2)
  | removePoolCompacting pool =>
      (g.removePoolCompacting pool).map fun result => (nextLineage, result.2)
  | rebuildFromRegistry registry options =>
      (checkedNext nextLineage).bind fun next =>
        (g.rebuildFromRegistry nextLineage registry options).map fun result =>
          (next, result.2)

end GraphCommand

namespace AmmGraph

variable {G : Type} [StableDiGraph G Address EdgeData]

theorem topology_fromRegistry (lineage : ℕ) (registry : AdapterRegistry)
    (options : GraphBuildOptions) :
    ((fromRegistry lineage registry options).graph : AmmGraph G).topology =
      Topology.ofRegistry registry options := by
  have htracks := @tracks_fromRegistry G _ lineage registry options
  have hpools : ((fromRegistry lineage registry options).graph :
      AmmGraph G).poolTokens = (Topology.ofRegistry registry options).pools := by
    apply Finmap.ext_lookup
    intro pool
    rw [htracks.lookup, Topology.lookup_ofRegistry]
  have htokens : ((fromRegistry lineage registry options).graph :
      AmmGraph G).nodeMap.keys = Topology.usedTokens _ := htracks.compact
  simp only [topology] at htokens ⊢
  rw [htokens, hpools]
  rfl

/-- An update keeps version and topology together, or advances both. -/
structure Advances (g g' : AmmGraph G) (target : Topology) : Prop where
  topology : g'.topology = target
  kept : target = g.topology → g'.version = g.version
  next : target ≠ g.topology →
    g'.version = ⟨g.version.lineage, g.version.revision + 1⟩

theorem advances_removePool {g g' : AmmGraph G} (hvalid : g.Valid)
    {pool : PoolKey} {removed : ℕ}
    (hremove : g.removePool pool = some (removed, g')) :
    g.Advances g' (g.topology.drop pool) := by
  rw [removePool_eq hvalid] at hremove
  cases hlookup : g.poolTokens.lookup pool with
  | none =>
      rw [hlookup] at hremove
      cases hremove
      have hsame : g.topology.drop pool = g.topology := by
        simp only [Topology.drop, topology, Topology.erase_of_absent hlookup]
      exact ⟨hsame.symm, fun _ => rfl, fun hne => absurd hsame hne⟩
  | some tokens =>
      simp only [hlookup] at hremove
      obtain ⟨bumped, hbump, heq⟩ := Option.map_eq_some_iff.mp hremove
      obtain ⟨_, rfl⟩ := bumpVersion_eq_some_iff.mp hbump
      cases heq
      have hne : g.topology.drop pool ≠ g.topology := by
        intro heq
        have hpools : (g.topology.drop pool).pools = g.topology.pools :=
          congrArg Topology.pools heq
        exact @Topology.pools_retire_ne g.topology pool tokens hlookup hpools
      refine ⟨?_, fun heq => absurd heq hne, fun _ => ?_⟩
      · rw [topology_of_version, topology_removePoolEdges]
      · rw [version_removePoolEdges]

theorem advances_setPool {g bumped : AmmGraph G} (hvalid : g.Valid) {pool : PoolKey}
    {entry : Option (List Address)} (hne : g.poolTokens.lookup pool ≠ entry)
    (hbump : (g.setPool pool entry).bumpVersion = some bumped) :
    g.Advances bumped (g.setPool pool entry).topology := by
  obtain ⟨_, rfl⟩ := bumpVersion_eq_some_iff.mp hbump
  refine ⟨rfl, fun heq => ?_, fun _ => ?_⟩
  · exact absurd (congrArg Topology.pools heq) (poolTokens_setPool_ne hvalid hne)
  · rw [version_setPool hvalid]

theorem advances_removePoolCompacting {g g' : AmmGraph G} (hvalid : g.Valid)
    {pool : PoolKey} {mutation : GraphPoolMutation}
    (hremove : g.removePoolCompacting pool = some (mutation, g')) :
    g.Advances g' (g.topology.retire pool) := by
  rw [removePoolCompacting_eq hvalid] at hremove
  cases hlookup : g.poolTokens.lookup pool with
  | none =>
      rw [hlookup] at hremove
      cases hremove
      have hsame := @Topology.retire_of_absent g.topology pool hlookup
      exact ⟨hsame.symm, fun _ => rfl, fun hne => absurd hsame hne⟩
  | some tokens =>
      simp only [hlookup] at hremove
      obtain ⟨bumped, hbump, heq⟩ := Option.map_eq_some_iff.mp hremove
      cases heq
      have hadvances := advances_setPool hvalid (by simp [hlookup]) hbump
      rwa [topology_setPool hvalid] at hadvances

theorem advances_applyPool {g g' : AmmGraph G} (hvalid : g.Valid)
    {registration : PoolRegistration} {options : GraphBuildOptions}
    {mutation : GraphPoolMutation}
    (happly : g.applyPool registration options = some (mutation, g')) :
    g.Advances g' (g.topology.apply registration options) := by
  rw [applyPool_eq hvalid] at happly
  rw [topology_apply hvalid]
  split at happly
  · rename_i hsame
    cases happly
    rw [if_pos hsame]
    exact ⟨rfl, fun _ => rfl, fun hne => absurd rfl hne⟩
  · rename_i hdiffer
    obtain ⟨bumped, hbump, heq⟩ := Option.map_eq_some_iff.mp happly
    cases heq
    rw [if_neg hdiffer]
    exact advances_setPool hvalid hdiffer hbump

theorem advances_rebuildFromRegistry {g g' : AmmGraph G} {lineage : ℕ}
    {registry : AdapterRegistry} {options : GraphBuildOptions}
    {summary : GraphBuildSummary}
    (hrebuild : g.rebuildFromRegistry lineage registry options = some (summary, g')) :
    g.Advances g' (Topology.ofRegistry registry options) := by
  have hbuilt := @topology_fromRegistry G _ lineage registry options
  rcases rebuildFromRegistry_cases hrebuild with ⟨hsame, rfl⟩ | ⟨hdiffer, _, rfl⟩
  · rw [hbuilt] at hsame
    exact ⟨hbuilt, fun _ => rfl, fun hne => absurd hsame.symm hne⟩
  · rw [hbuilt] at hdiffer
    exact ⟨hbuilt, fun heq => absurd heq.symm hdiffer, fun _ => rfl⟩

/-- Every update refines its effect and advances the version with it. -/
theorem Valid.runCommand {g g' : AmmGraph G} (hvalid : g.Valid)
    {nextLineage next : ℕ} {command : GraphCommand}
    (hrun : command.run nextLineage g = some (next, g')) :
    g'.Valid ∧ nextLineage ≤ next ∧ g.Advances g' (command.effect g.topology) := by
  cases command with
  | applyPool registration options =>
      obtain ⟨⟨mutation, result⟩, happly, heq⟩ := Option.map_eq_some_iff.mp hrun
      cases heq
      exact ⟨hvalid.applyPool happly, le_rfl, advances_applyPool hvalid happly⟩
  | removePool pool =>
      obtain ⟨⟨removed, result⟩, hremove, heq⟩ := Option.map_eq_some_iff.mp hrun
      cases heq
      exact ⟨hvalid.removePool hremove, le_rfl, advances_removePool hvalid hremove⟩
  | removePoolCompacting pool =>
      obtain ⟨⟨mutation, result⟩, hremove, heq⟩ := Option.map_eq_some_iff.mp hrun
      cases heq
      exact ⟨hvalid.removePoolCompacting hremove, le_rfl,
        advances_removePoolCompacting hvalid hremove⟩
  | rebuildFromRegistry registry options =>
      obtain ⟨lineage, hlineage, hrest⟩ := Option.bind_eq_some_iff.mp hrun
      obtain ⟨⟨summary, result⟩, hrebuild, heq⟩ := Option.map_eq_some_iff.mp hrest
      cases heq
      exact ⟨Valid.rebuildFromRegistry hrebuild, (lt_of_checkedNext hlineage).le,
        advances_rebuildFromRegistry hrebuild⟩

end AmmGraph

/-- The graphs of one process: the lineage counter, the current value of every
graph variable, and all the values there have been. -/
structure GraphProcess (G : Type) where
  nextLineage : ℕ
  live : List (AmmGraph G)
  obtained : List (AmmGraph G)

/-- A step of a process that concerns its graphs. -/
inductive ProcessStep
  | new
  | fromRegistry (registry : AdapterRegistry) (options : GraphBuildOptions)
  | clone (index : ℕ)
  | update (index : ℕ) (command : GraphCommand)

namespace GraphProcess

variable {G : Type} [StableDiGraph G Address EdgeData]

/-- No graph yet; the first lineage is one. -/
def start : GraphProcess G := ⟨1, [], []⟩

/-- A further graph variable. -/
def push (p : GraphProcess G) (nextLineage : ℕ) (g : AmmGraph G) : GraphProcess G :=
  ⟨nextLineage, p.live ++ [g], p.obtained ++ [g]⟩

def step (p : GraphProcess G) : ProcessStep → Option (GraphProcess G)
  | .new => (checkedNext p.nextLineage).map fun next =>
      p.push next (AmmGraph.new p.nextLineage)
  | .fromRegistry registry options => (checkedNext p.nextLineage).map fun next =>
      p.push next (AmmGraph.fromRegistry p.nextLineage registry options).graph
  | .clone index => (p.live[index]?).map (p.push p.nextLineage)
  | .update index command => (p.live[index]?).bind fun g =>
      (command.run p.nextLineage g).map fun result =>
        ⟨result.1, p.live.set index result.2, p.obtained ++ [result.2]⟩

def run (p : GraphProcess G) : List ProcessStep → Option (GraphProcess G)
  | [] => some p
  | step :: rest => (p.step step).bind fun q => q.run rest

/-- Equal versions mean equal pool maps and equal token sets. -/
def Identifies (p : GraphProcess G) : Prop :=
  ∀ g ∈ p.obtained, ∀ g' ∈ p.obtained, g.version = g'.version →
    g.poolTokens = g'.poolTokens ∧ g.nodeMap.keys = g'.nodeMap.keys

/-- An update that changes a topology whose version was already advanced
makes the change that was made then. -/
def Unforked (p : GraphProcess G) : ProcessStep → Prop
  | .update index command => ∀ g, p.live[index]? = some g →
      command.effect g.topology ≠ g.topology →
      ∀ advanced ∈ p.obtained,
        advanced.version = ⟨g.version.lineage, g.version.revision + 1⟩ →
        advanced.topology = command.effect g.topology
  | _ => True

/-- Every step of the run is unforked where it is taken. -/
def UnforkedRun (p : GraphProcess G) : List ProcessStep → Prop
  | [] => True
  | step :: rest => p.Unforked step ∧ ∀ q, p.step step = some q → q.UnforkedRun rest

/-- What holds in every process, forked or not. -/
structure Consistent (p : GraphProcess G) : Prop where
  live_obtained : ∀ g ∈ p.live, g ∈ p.obtained
  valid : ∀ g ∈ p.obtained, g.Valid
  lineage_lt : ∀ g ∈ p.obtained, g.version.lineage < p.nextLineage

/-- The process one graph value later. -/
structure Extends (p q : GraphProcess G) (g : AmmGraph G) : Prop where
  obtained : q.obtained = p.obtained ++ [g]
  lineage : p.nextLineage ≤ q.nextLineage
  live : ∀ other ∈ q.live, other ∈ p.live ∨ other = g

variable {p q : GraphProcess G}

omit [StableDiGraph G Address EdgeData] in
theorem extends_push {next : ℕ} (hnext : p.nextLineage ≤ next) (g : AmmGraph G) :
    p.Extends (p.push next g) g := by
  refine ⟨rfl, hnext, ?_⟩
  intro other hother
  rcases List.mem_append.mp hother with hold | hnew
  · exact Or.inl hold
  · exact Or.inr (List.mem_singleton.mp hnew)

theorem Consistent.extend {g : AmmGraph G} (hconsistent : p.Consistent)
    (hextends : p.Extends q g) (hvalid : g.Valid)
    (hlineage : g.version.lineage < q.nextLineage) : q.Consistent := by
  refine ⟨?_, ?_, ?_⟩
  · intro other hother
    rw [hextends.obtained, List.mem_append, List.mem_singleton]
    rcases hextends.live other hother with hold | hnew
    · exact Or.inl (hconsistent.live_obtained other hold)
    · exact Or.inr hnew
  · intro other hother
    rw [hextends.obtained, List.mem_append, List.mem_singleton] at hother
    rcases hother with hold | rfl
    · exact hconsistent.valid other hold
    · exact hvalid
  · intro other hother
    rw [hextends.obtained, List.mem_append, List.mem_singleton] at hother
    rcases hother with hold | rfl
    · exact (hconsistent.lineage_lt other hold).trans_le hextends.lineage
    · exact hlineage

omit [StableDiGraph G Address EdgeData] in
theorem topology_eq_iff {g g' : AmmGraph G} :
    g.topology = g'.topology ↔
      g.poolTokens = g'.poolTokens ∧ g.nodeMap.keys = g'.nodeMap.keys :=
  Topology.mk.injEq _ _ _ _ ▸ Iff.rfl

omit [StableDiGraph G Address EdgeData] in
/-- A new value agrees with the old ones of its version. -/
theorem identifies_extend_iff {g : AmmGraph G} (hextends : p.Extends q g) :
    q.Identifies ↔ p.Identifies ∧ ∀ other ∈ p.obtained,
      other.version = g.version → other.topology = g.topology := by
  simp only [Identifies, ← topology_eq_iff, hextends.obtained, List.mem_append,
    List.mem_singleton]
  constructor
  · intro hall
    refine ⟨fun left hleft right hright => ?_, fun other hother => ?_⟩
    · exact hall left (Or.inl hleft) right (Or.inl hright)
    · exact hall other (Or.inl hother) g (Or.inr rfl)
  · rintro ⟨hold, hnew⟩ left hleft right hright hversion
    rcases hleft with hleft | rfl <;> rcases hright with hright | rfl
    · exact hold left hleft right hright hversion
    · exact hnew left hleft hversion
    · exact (hnew right hright hversion.symm).symm
    · rfl

/-- One step keeps the process consistent, and adds a value that agrees with
the earlier ones of its version exactly when the step is unforked. -/
theorem step_identifies_iff (hconsistent : p.Consistent) {step : ProcessStep}
    (hstep : p.step step = some q) :
    q.Consistent ∧ (q.Identifies ↔ p.Identifies ∧ p.Unforked step) := by
  have hfresh : ∀ {g : AmmGraph G}, g.version.lineage = p.nextLineage →
      ∀ other ∈ p.obtained, other.version = g.version →
        other.topology = g.topology := by
    intro g hlineage other hother hversion
    have hlt := hconsistent.lineage_lt other hother
    rw [hversion, hlineage] at hlt
    exact absurd hlt (lt_irrefl _)
  cases step with
  | new =>
      obtain ⟨next, hnext, rfl⟩ := Option.map_eq_some_iff.mp hstep
      have hlt := lt_of_checkedNext hnext
      have hextends := extends_push hlt.le (AmmGraph.new p.nextLineage)
      refine ⟨hconsistent.extend hextends (AmmGraph.Valid.new _) hlt, ?_⟩
      rw [identifies_extend_iff hextends]
      exact and_congr_right fun _ => iff_of_true (hfresh rfl) trivial
  | fromRegistry registry options =>
      obtain ⟨next, hnext, rfl⟩ := Option.map_eq_some_iff.mp hstep
      have hlt := lt_of_checkedNext hnext
      have hversion :=
        (@AmmGraph.fromRegistry_spec G _ p.nextLineage registry options).2.2.1
      have hextends := extends_push hlt.le
        (AmmGraph.fromRegistry p.nextLineage registry options).graph
      refine ⟨hconsistent.extend hextends (AmmGraph.Valid.fromRegistry _ _ _) ?_, ?_⟩
      · rw [hversion]
        exact hlt
      · rw [identifies_extend_iff hextends]
        exact and_congr_right fun _ =>
          iff_of_true (hfresh (by rw [hversion]; rfl)) trivial
  | clone index =>
      obtain ⟨g, hlive, rfl⟩ := Option.map_eq_some_iff.mp hstep
      have hobtained := hconsistent.live_obtained g (List.mem_of_getElem? hlive)
      have hextends := @extends_push G p p.nextLineage le_rfl g
      refine ⟨hconsistent.extend hextends (hconsistent.valid g hobtained)
        (hconsistent.lineage_lt g hobtained), ?_⟩
      rw [identifies_extend_iff hextends]
      refine and_congr_right fun hidentifies => iff_of_true ?_ trivial
      intro other hother hversion
      exact topology_eq_iff.mpr (hidentifies other hother g hobtained hversion)
  | update index command =>
      obtain ⟨g, hlive, hrest⟩ := Option.bind_eq_some_iff.mp hstep
      obtain ⟨⟨next, g'⟩, hrun, rfl⟩ := Option.map_eq_some_iff.mp hrest
      have hobtained := hconsistent.live_obtained g (List.mem_of_getElem? hlive)
      obtain ⟨hvalid, hnext, hadvances⟩ :=
        (hconsistent.valid g hobtained).runCommand hrun
      have hlineage := hconsistent.lineage_lt g hobtained
      have hextends : p.Extends
          ⟨next, p.live.set index g', p.obtained ++ [g']⟩ g' := by
        refine ⟨rfl, hnext, ?_⟩
        intro other hother
        exact List.mem_or_eq_of_mem_set hother
      by_cases hsame : command.effect g.topology = g.topology
      · have hversion := hadvances.kept hsame
        have htopology := hadvances.topology.trans hsame
        refine ⟨hconsistent.extend hextends hvalid ?_, ?_⟩
        · rw [hversion]
          exact hlineage.trans_le hnext
        · rw [identifies_extend_iff hextends]
          refine and_congr_right fun hidentifies => iff_of_true ?_ ?_
          · intro other hother hother'
            rw [hversion] at hother'
            rw [htopology]
            exact topology_eq_iff.mpr
              (hidentifies other hother g hobtained hother')
          · intro found hfound hne
            obtain rfl := Option.some.inj (hlive.symm.trans hfound)
            exact absurd hsame hne
      · have hversion := hadvances.next hsame
        refine ⟨hconsistent.extend hextends hvalid ?_, ?_⟩
        · rw [hversion]
          exact hlineage.trans_le hnext
        · rw [identifies_extend_iff hextends, hversion, hadvances.topology]
          refine and_congr_right fun _ => ?_
          constructor
          · intro hagree found hfound _
            obtain rfl := Option.some.inj (hlive.symm.trans hfound)
            exact hagree
          · intro hunforked
            exact hunforked g hlive hsame

theorem run_identifies_iff (hconsistent : p.Consistent) (steps : List ProcessStep)
    (hrun : p.run steps = some q) :
    q.Identifies ↔ p.Identifies ∧ p.UnforkedRun steps := by
  induction steps generalizing p with
  | nil =>
      cases hrun
      exact (and_iff_left trivial).symm
  | cons step rest ih =>
      obtain ⟨next, hstep, hrest⟩ := Option.bind_eq_some_iff.mp hrun
      obtain ⟨hconsistent', hiff⟩ := step_identifies_iff hconsistent hstep
      rw [ih hconsistent' hrest, hiff, and_assoc]
      refine and_congr_right fun _ => and_congr_right fun _ => ?_
      constructor
      · intro hsafe found hfound
        obtain rfl := Option.some.inj (hstep.symm.trans hfound)
        exact hsafe
      · exact fun hsafe => hsafe next hstep

/-- A version names one topology in a process exactly when no version is
advanced to two topologies. -/
theorem identifies_iff_unforkedRun (steps : List ProcessStep)
    (hrun : (start : GraphProcess G).run steps = some q) :
    q.Identifies ↔ (start : GraphProcess G).UnforkedRun steps := by
  have hconsistent : (start : GraphProcess G).Consistent := by
    constructor <;> simp [start]
  have hidentifies : (start : GraphProcess G).Identifies := by
    simp [Identifies, start]
  rw [run_identifies_iff hconsistent steps hrun]
  exact and_iff_right hidentifies

end GraphProcess

namespace TwoPoolGraph

/-- Two copies of the empty graph are advanced by different pools. -/
def forkedSteps : List ProcessStep :=
  [.new, .clone 0, .update 0 (.applyPool left {}), .update 1 (.applyPool right {})]

/-- One graph is advanced twice while a copy stays behind. -/
def linearSteps : List ProcessStep :=
  [.new, .clone 0, .update 0 (.applyPool left {}), .update 0 (.removePool left.key)]

/-- Both copies have revision one and different pools. -/
theorem not_identifies_forkedSteps :
    ∃ q : GraphProcess (SlotGraph Address EdgeData),
      GraphProcess.start.run forkedSteps = some q ∧ ¬ q.Identifies := by
  refine ⟨_, rfl, fun hidentifies => ?_⟩
  have hsame := (hidentifies _ (List.mem_of_getElem? (i := 2) rfl) _
    (List.mem_of_getElem? (i := 3) rfl) rfl).1
  have hlookup := congrArg (Finmap.lookup left.key) hsame
  exact absurd hlookup (by decide)

theorem identifies_linearSteps :
    ∃ q : GraphProcess (SlotGraph Address EdgeData),
      GraphProcess.start.run linearSteps = some q ∧
        q.Identifies ∧ GraphProcess.start.UnforkedRun
          (G := SlotGraph Address EdgeData) linearSteps := by
  refine ⟨_, rfl, ?_⟩
  rw [← GraphProcess.identifies_iff_unforkedRun linearSteps rfl, and_self,
    GraphProcess.Identifies]
  decide

end TwoPoolGraph

end AmmSearch
