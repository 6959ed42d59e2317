/-
The balance cap of a prefix: when it is known, it is the greatest fresh balance
of the target token over all edges into the target that the remaining hops can
reach.
-/
import AmmSearch.EnumerationExact
import AmmSearch.HeuristicSearch

open FiniteMap StableGraph LevelOrder

namespace AmmSearch

theorem raiseIncumbent_spec (incumbent : Option U256) (amount : U256) :
    ∃ best, raiseIncumbent incumbent amount = some best ∧ amount ≤ best ∧
      (∀ earlier, incumbent = some earlier → earlier ≤ best) ∧
      (best = amount ∨ incumbent = some best) := by
  cases incumbent with
  | none => exact ⟨amount, rfl, le_rfl, by simp, Or.inl rfl⟩
  | some earlier =>
      refine ⟨max earlier amount, rfl, le_max_right _ _, ?_, ?_⟩
      · intro other hother
        obtain rfl := Option.some.inj hother
        exact le_max_left _ _
      · rcases max_choice earlier amount with hmax | hmax
        · exact Or.inr (by rw [hmax])
        · exact Or.inl hmax

namespace AmmSearcher

variable {G : Type} {searcher : AmmSearcher G}
  {index : PoolLiquidityIndex} {start target node : NodeIndex} {targetToken : Address}
  {maxHops depth : ℕ}

/-- The edges lead from the start to the node in `depth` hops and avoid the target. -/
inductive LeadsTo (searcher : AmmSearcher G) (start target : NodeIndex) : NodeIndex → ℕ → Prop
  | start : LeadsTo searcher start target start 0
  | edge {node : NodeIndex} {depth : ℕ} {edge : CachedOutgoingEdge}
      (hnode : LeadsTo searcher start target node depth)
      (hedge : edge ∈ searcher.graph.outgoingEdges node) (hopen : edge.target ≠ target) :
      LeadsTo searcher start target edge.target (depth + 1)

/-- An edge into the target that is reached within `maxHops` hops. -/
def ClosingEdge (searcher : AmmSearcher G) (start target : NodeIndex) (maxHops : ℕ)
    (edge : CachedOutgoingEdge) : Prop :=
  ∃ node depth, searcher.LeadsTo start target node depth ∧ depth < maxHops ∧
    edge ∈ searcher.graph.outgoingEdges node ∧ edge.target = target

/-- The queue entries that an entry adds. -/
def capChildren (searcher : AmmSearcher G) (target : NodeIndex) (maxHops : ℕ)
    (entry : NodeIndex × ℕ) : List (NodeIndex × ℕ) :=
  ((searcher.graph.outgoingEdges entry.1).filter fun edge =>
    edge.target ≠ target ∧ entry.2 + 1 < maxHops).map fun edge => (edge.target, entry.2 + 1)

theorem mem_capChildren {entry child : NodeIndex × ℕ} :
    child ∈ searcher.capChildren target maxHops entry ↔
      ∃ edge ∈ searcher.graph.outgoingEdges entry.1, edge.target ≠ target ∧
        entry.2 + 1 < maxHops ∧ child = (edge.target, entry.2 + 1) := by
  simp only [capChildren, List.mem_map, List.mem_filter, decide_eq_true_eq]
  constructor
  · rintro ⟨edge, ⟨hedge, hopen, hroom⟩, rfl⟩
    exact ⟨edge, hedge, hopen, hroom, rfl⟩
  · rintro ⟨edge, hedge, hopen, hroom, rfl⟩
    exact ⟨edge, ⟨hedge, hopen, hroom⟩, rfl⟩

/-- The cap after a list of edges: at least the balance of every edge into the target, and
one of them unless it was there before. -/
structure CapAfter (index : PoolLiquidityIndex) (target : NodeIndex) (targetToken : Address)
    (edges : List CachedOutgoingEdge) (before after : Option U256) : Prop where
  bounds : ∀ edge ∈ edges, edge.target = target →
    ∃ balance best, (index.balanceState edge.pool targetToken).fresh? = some balance ∧
      after = some best ∧ balance ≤ best
  grows : ∀ earlier, before = some earlier → ∃ best, after = some best ∧ earlier ≤ best
  attained : ∀ best, after = some best → before = some best ∨
    ∃ edge ∈ edges, edge.target = target ∧
      (index.balanceState edge.pool targetToken).fresh? = some best

theorem CapAfter.nil (cap : Option U256) : CapAfter index target targetToken [] cap cap where
  bounds := by simp
  grows := fun earlier hearlier => ⟨earlier, hearlier, le_rfl⟩
  attained := fun _ hbest => Or.inl hbest

theorem CapAfter.skip {edge : CachedOutgoingEdge} {edges : List CachedOutgoingEdge}
    {before after : Option U256} (hopen : edge.target ≠ target)
    (hafter : CapAfter index target targetToken edges before after) :
    CapAfter index target targetToken (edge :: edges) before after where
  bounds := by
    intro other hother hclosing
    rcases List.mem_cons.mp hother with rfl | hother
    · exact absurd hclosing hopen
    · exact hafter.bounds other hother hclosing
  grows := hafter.grows
  attained := by
    intro best hbest
    rcases hafter.attained best hbest with hbefore | ⟨other, hother, hclosing⟩
    · exact Or.inl hbefore
    · exact Or.inr ⟨other, List.mem_cons_of_mem edge hother, hclosing⟩

theorem CapAfter.close {edge : CachedOutgoingEdge} {edges : List CachedOutgoingEdge}
    {before after : Option U256} {balance : U256} (hclosing : edge.target = target)
    (hfresh : (index.balanceState edge.pool targetToken).fresh? = some balance)
    (hafter : CapAfter index target targetToken edges (raiseIncumbent before balance) after) :
    CapAfter index target targetToken (edge :: edges) before after := by
  obtain ⟨raised, hraised, hbalance, hearlier, horigin⟩ := raiseIncumbent_spec before balance
  obtain ⟨best, hbest, hle⟩ := hafter.grows raised hraised
  constructor
  · intro other hother hcloses
    rcases List.mem_cons.mp hother with rfl | hother
    · exact ⟨balance, best, hfresh, hbest, hbalance.trans hle⟩
    · exact hafter.bounds other hother hcloses
  · intro earlier hbefore
    exact ⟨best, hbest, (hearlier earlier hbefore).trans hle⟩
  · intro other hother
    rcases hafter.attained other hother with hbefore | ⟨later, hlater, hcloses⟩
    · obtain rfl := Option.some.inj (hraised.symm.trans hbefore)
      rcases horigin with rfl | hsame
      · exact Or.inr ⟨edge, List.mem_cons_self, hclosing, hfresh⟩
      · exact Or.inl hsame
    · exact Or.inr ⟨later, List.mem_cons_of_mem edge hlater, hcloses⟩

/-- The edges of one entry: an unknown balance into the target ends the loop. -/
theorem capEdges_cases (hdepth : depth < maxHops) (edges : List CachedOutgoingEdge)
    (run : CapRun) :
    (capEdges index target targetToken maxHops depth edges run = none ∧
      ∃ edge ∈ edges, edge.target = target ∧
        (index.balanceState edge.pool targetToken).fresh? = none) ∨
    ∃ cap, capEdges index target targetToken maxHops depth edges run =
        some ⟨run.queue ++ (edges.filter fun edge =>
          edge.target ≠ target ∧ depth + 1 < maxHops).map fun edge => (edge.target, depth + 1),
          run.seen, cap⟩ ∧
      CapAfter index target targetToken edges run.cap cap := by
  induction edges generalizing run with
  | nil => exact Or.inr ⟨run.cap, by simp [capEdges], .nil run.cap⟩
  | cons edge rest ih =>
      rw [capEdges, if_neg (Nat.not_lt.mpr hdepth)]
      by_cases hclosing : edge.target = target
      · rw [if_pos hclosing]
        cases hfresh : (index.balanceState edge.pool targetToken).fresh? with
        | none => exact Or.inl ⟨rfl, edge, List.mem_cons_self, hclosing, hfresh⟩
        | some balance =>
            simp only
            rcases ih { run with cap := raiseIncumbent run.cap balance } with
              ⟨hnone, other, hother, hunknown⟩ | ⟨cap, hsome, hafter⟩
            · exact Or.inl ⟨hnone, other, List.mem_cons_of_mem edge hother, hunknown⟩
            · refine Or.inr ⟨cap, ?_, hafter.close hclosing hfresh⟩
              rw [hsome, List.filter_cons_of_neg (by simp [hclosing])]
      · rw [if_neg hclosing]
        by_cases hroom : depth + 1 < maxHops
        · rw [if_pos hroom]
          rcases ih { run with queue := run.queue ++ [(edge.target, depth + 1)] } with
            ⟨hnone, other, hother, hunknown⟩ | ⟨cap, hsome, hafter⟩
          · exact Or.inl ⟨hnone, other, List.mem_cons_of_mem edge hother, hunknown⟩
          · refine Or.inr ⟨cap, ?_, hafter.skip hclosing⟩
            rw [hsome, List.filter_cons_of_pos (by simp [hclosing, hroom])]
            simp
        · rw [if_neg hroom]
          rcases ih run with ⟨hnone, other, hother, hunknown⟩ | ⟨cap, hsome, hafter⟩
          · exact Or.inl ⟨hnone, other, List.mem_cons_of_mem edge hother, hunknown⟩
          · refine Or.inr ⟨cap, ?_, hafter.skip hclosing⟩
            rw [hsome, List.filter_cons_of_neg (by simp [hroom])]

/-- What holds between two pops of the queue. -/
structure CapInvariant (searcher : AmmSearcher G) (index : PoolLiquidityIndex)
    (start target : NodeIndex) (targetToken : Address) (maxHops : ℕ) (run : CapRun) :
    Prop where
  leads : ∀ entry ∈ run.queue, searcher.LeadsTo start target entry.1 entry.2 ∧
    entry.2 < maxHops
  begins : (start, 0) ∈ run.seen ∨ (start, 0) ∈ run.queue
  balances : ∀ entry ∈ run.seen, ∀ edge ∈ searcher.graph.outgoingEdges entry.1,
    edge.target = target →
      ∃ balance best, (index.balanceState edge.pool targetToken).fresh? = some balance ∧
        run.cap = some best ∧ balance ≤ best
  closed : ∀ entry ∈ run.seen, ∀ child ∈ searcher.capChildren target maxHops entry,
    child ∈ run.seen ∨ child ∈ run.queue
  attained : ∀ best, run.cap = some best →
    ∃ edge, searcher.ClosingEdge start target maxHops edge ∧
      (index.balanceState edge.pool targetToken).fresh? = some best

/-- The cap of the closing edges, `unknown` when a balance is not fresh or there is none. -/
structure IsBalanceCap (searcher : AmmSearcher G) (index : PoolLiquidityIndex)
    (start target : NodeIndex) (targetToken : Address) (maxHops : ℕ) (cap : U256) : Prop where
  bounds : ∀ edge, searcher.ClosingEdge start target maxHops edge →
    ∃ balance, (index.balanceState edge.pool targetToken).fresh? = some balance ∧ balance ≤ cap
  attained : ∃ edge, searcher.ClosingEdge start target maxHops edge ∧
    (index.balanceState edge.pool targetToken).fresh? = some cap

theorem CapInvariant.skip {run : CapRun} {entry : NodeIndex × ℕ} {rest : List (NodeIndex × ℕ)}
    (hinv : searcher.CapInvariant index start target targetToken maxHops run)
    (hqueue : run.queue = entry :: rest) (hseen : entry ∈ run.seen) :
    searcher.CapInvariant index start target targetToken maxHops { run with queue := rest } := by
  have hpending : ∀ other, other ∈ run.seen ∨ other ∈ run.queue →
      other ∈ run.seen ∨ other ∈ rest := by
    rintro other (hother | hother)
    · exact Or.inl hother
    · rw [hqueue] at hother
      rcases List.mem_cons.mp hother with rfl | hother
      · exact Or.inl hseen
      · exact Or.inr hother
  exact
    { leads := fun other hother =>
        hinv.leads other (by rw [hqueue]; exact List.mem_cons_of_mem entry hother)
      begins := hpending _ hinv.begins
      balances := hinv.balances
      closed := fun other hother child hchild => hpending child (hinv.closed other hother child
        hchild)
      attained := hinv.attained }

theorem CapInvariant.visit {run : CapRun} {entry : NodeIndex × ℕ} {rest : List (NodeIndex × ℕ)}
    (hinv : searcher.CapInvariant index start target targetToken maxHops run)
    (hqueue : run.queue = entry :: rest) {cap : Option U256}
    (hafter : CapAfter index target targetToken (searcher.graph.outgoingEdges entry.1)
      run.cap cap) :
    searcher.CapInvariant index start target targetToken maxHops
      ⟨rest ++ searcher.capChildren target maxHops entry, insert entry run.seen, cap⟩ := by
  obtain ⟨hleads, hdepth⟩ := hinv.leads entry (by rw [hqueue]; exact List.mem_cons_self)
  have hpending : ∀ other, other ∈ run.seen ∨ other ∈ run.queue →
      other ∈ insert entry run.seen ∨
        other ∈ rest ++ searcher.capChildren target maxHops entry := by
    rintro other (hother | hother)
    · exact Or.inl (Finset.mem_insert_of_mem hother)
    · rw [hqueue] at hother
      rcases List.mem_cons.mp hother with rfl | hother
      · exact Or.inl (Finset.mem_insert_self _ _)
      · exact Or.inr (List.mem_append_left _ hother)
  constructor
  · intro other hother
    rcases List.mem_append.mp hother with hother | hother
    · exact hinv.leads other (by rw [hqueue]; exact List.mem_cons_of_mem entry hother)
    · obtain ⟨edge, hedge, hopen, hroom, rfl⟩ := mem_capChildren.mp hother
      exact ⟨.edge hleads hedge hopen, hroom⟩
  · exact hpending _ hinv.begins
  · intro other hother edge hedge hclosing
    rcases Finset.mem_insert.mp hother with rfl | hother
    · exact hafter.bounds edge hedge hclosing
    · obtain ⟨balance, best, hfresh, hbest, hle⟩ := hinv.balances other hother edge hedge hclosing
      obtain ⟨later, hlater, hgrows⟩ := hafter.grows best hbest
      exact ⟨balance, later, hfresh, hlater, hle.trans hgrows⟩
  · intro other hother child hchild
    rcases Finset.mem_insert.mp hother with rfl | hother
    · exact Or.inr (List.mem_append_right _ hchild)
    · exact hpending child (hinv.closed other hother child hchild)
  · intro best hbest
    rcases hafter.attained best hbest with hbefore | ⟨edge, hedge, hclosing, hfresh⟩
    · exact hinv.attained best hbefore
    · exact ⟨edge, ⟨entry.1, entry.2, hleads, hdepth, hedge, hclosing⟩, hfresh⟩

/-- When the queue is empty every entry in reach has been visited. -/
theorem CapInvariant.visited {run : CapRun}
    (hinv : searcher.CapInvariant index start target targetToken maxHops run)
    (hempty : run.queue = []) (hleads : searcher.LeadsTo start target node depth)
    (hdepth : depth < maxHops) : (node, depth) ∈ run.seen := by
  have hseen : ∀ entry, entry ∈ run.seen ∨ entry ∈ run.queue → entry ∈ run.seen := by
    rintro entry (hentry | hentry)
    · exact hentry
    · rw [hempty] at hentry
      cases hentry
  induction hleads with
  | start => exact hseen _ hinv.begins
  | edge hnode hedge hopen ih =>
      exact hseen _ (hinv.closed _ (ih (Nat.lt_of_succ_lt hdepth)) _
        (mem_capChildren.mpr ⟨_, hedge, hopen, hdepth, rfl⟩))

theorem CapInvariant.finish {run : CapRun}
    (hinv : searcher.CapInvariant index start target targetToken maxHops run)
    (hempty : run.queue = []) (cap : U256) :
    run.cap.elim UpperBoundCap.unknown .known = .known cap ↔
      searcher.IsBalanceCap index start target targetToken maxHops cap := by
  have hbounds : ∀ edge, searcher.ClosingEdge start target maxHops edge →
      ∃ balance best, (index.balanceState edge.pool targetToken).fresh? = some balance ∧
        run.cap = some best ∧ balance ≤ best := by
    rintro edge ⟨node, depth, hleads, hdepth, hedge, hclosing⟩
    exact hinv.balances _ (hinv.visited hempty hleads hdepth) edge hedge hclosing
  constructor
  · intro hknown
    cases hcap : run.cap with
    | none =>
        rw [hcap] at hknown
        cases hknown
    | some best =>
        rw [hcap, Option.elim_some, UpperBoundCap.known.injEq] at hknown
        subst hknown
        refine ⟨?_, hinv.attained best hcap⟩
        intro edge hedge
        obtain ⟨balance, other, hfresh, hother, hle⟩ := hbounds edge hedge
        obtain rfl := Option.some.inj (hcap.symm.trans hother)
        exact ⟨balance, hfresh, hle⟩
  · rintro ⟨hmost, edge, hedge, hfresh⟩
    obtain ⟨balance, best, hbalance, hbest, hle⟩ := hbounds edge hedge
    obtain rfl := Option.some.inj (hfresh.symm.trans hbalance)
    obtain ⟨other, hother, hattained⟩ := hinv.attained best hbest
    obtain ⟨most, hmostFresh, hmostLe⟩ := hmost other hother
    obtain rfl := Option.some.inj (hattained.symm.trans hmostFresh)
    rw [hbest, le_antisymm hle hmostLe]
    rfl

theorem potential_capChildren (entry : NodeIndex × ℕ) (rest : List (NodeIndex × ℕ)) :
    potential (fun entry : NodeIndex × ℕ => maxHops - entry.2) searcher.graph.maxOutDegree
        (rest ++ searcher.capChildren target maxHops entry) + 1 ≤
      potential (fun entry : NodeIndex × ℕ => maxHops - entry.2) searcher.graph.maxOutDegree
        (entry :: rest) := by
  refine potential_step ?_ ?_ entry rest
  · intro entry child hchild
    obtain ⟨edge, _, _, hroom, rfl⟩ := mem_capChildren.mp hchild
    omega
  · intro entry
    unfold capChildren
    rw [List.length_map]
    exact (List.length_filter_le _ _).trans (searcher.graph.length_outgoingEdges_le entry.1)

/-- The loop has enough fuel, and its cap is that of the closing edges. -/
theorem capLoop_eq_known_iff (fuel : ℕ) {run : CapRun}
    (hinv : searcher.CapInvariant index start target targetToken maxHops run)
    (hfuel : potential (fun entry : NodeIndex × ℕ => maxHops - entry.2)
      searcher.graph.maxOutDegree run.queue < fuel) (cap : U256) :
    searcher.capLoop index target targetToken maxHops fuel run = .known cap ↔
      searcher.IsBalanceCap index start target targetToken maxHops cap := by
  induction fuel generalizing run with
  | zero => exact absurd hfuel (Nat.not_lt_zero _)
  | succ fuel ih =>
      rw [capLoop]
      cases hqueue : run.queue with
      | nil => exact hinv.finish hqueue cap
      | cons entry rest =>
          rw [hqueue] at hfuel
          obtain ⟨hleads, hdepth⟩ := hinv.leads entry (by rw [hqueue]; exact List.mem_cons_self)
          have hstep := @potential_capChildren G searcher target maxHops entry rest
          have hrest : potential (fun entry : NodeIndex × ℕ => maxHops - entry.2)
              searcher.graph.maxOutDegree rest ≤
                potential (fun entry : NodeIndex × ℕ => maxHops - entry.2)
                  searcher.graph.maxOutDegree
                  (rest ++ searcher.capChildren target maxHops entry) := by
            simp [potential]
          simp only
          by_cases hseen : entry ∈ run.seen
          · rw [if_pos (Or.inr hseen)]
            exact ih (hinv.skip hqueue hseen) (by simp only; omega)
          · rw [if_neg (not_or.mpr ⟨Nat.not_le.mpr hdepth, hseen⟩)]
            rcases capEdges_cases hdepth (searcher.graph.outgoingEdges entry.1)
                { run with queue := rest, seen := insert entry run.seen } with
              ⟨hnone, edge, hedge, hclosing, hunknown⟩ | ⟨after, hsome, hafter⟩
            · rw [hnone]
              constructor
              · intro hknown
                cases hknown
              · intro hcap
                obtain ⟨balance, hfresh, _⟩ := hcap.bounds edge
                  ⟨entry.1, entry.2, hleads, hdepth, hedge, hclosing⟩
                cases hunknown.symm.trans hfresh
            · rw [hsome]
              refine ih (hinv.visit hqueue hafter) ?_
              exact Nat.lt_of_succ_le (hstep.trans (Nat.le_of_lt_succ hfuel))

/-- A balance cap is known exactly when every closing edge has a fresh balance, and there is
one; it is then the greatest of them. -/
theorem targetBalanceCap_eq_known_iff (cap : U256) :
    searcher.targetBalanceCap start target targetToken maxHops = .known cap ↔
      ∃ index, searcher.liquidityIndex = some index ∧
        searcher.IsBalanceCap index start target targetToken maxHops cap := by
  unfold targetBalanceCap
  cases hindex : searcher.liquidityIndex with
  | none => simp
  | some index =>
      simp only [Option.some.injEq, exists_eq_left']
      split
      · rename_i hzero
        subst hzero
        constructor
        · intro hknown
          cases hknown
        · rintro ⟨_, _, ⟨_, _, _, hdepth, _⟩, _⟩
          exact absurd hdepth (Nat.not_lt_zero _)
      · rename_i hroom
        refine capLoop_eq_known_iff _ ⟨?_, Or.inr List.mem_cons_self, by simp, by simp, by simp⟩
          ?_ cap
        · intro entry hentry
          obtain rfl := List.mem_singleton.mp hentry
          exact ⟨.start, Nat.pos_of_ne_zero hroom⟩
        · simp [potential, AmmGraph.enumerationFuel]

end AmmSearcher

end AmmSearch
