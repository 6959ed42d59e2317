/-
The stable directed multigraph used as an external dependency: node and edge
indices stay valid until they are removed, removed indices may be reused, and
adjacency iteration starts at the newest edge.  The operations are a class
whose fields name every fact that is relied on; an executable instance closes
the file.
-/
import Mathlib.Data.List.AList
import Mathlib.Data.Finset.Lattice.Fold

namespace StableGraph

abbrev NodeIndex := ℕ

abbrev EdgeIndex := ℕ

/-- Endpoints and weight of one live edge. -/
structure EdgeRecord (E : Type) where
  source : NodeIndex
  target : NodeIndex
  weight : E
deriving DecidableEq

/-- Stable directed multigraph operations with their documented behaviour. -/
class StableDiGraph (G : Type) (N E : outParam Type) where
  empty : G
  nodeWeight : G → NodeIndex → Option N
  edge : G → EdgeIndex → Option (EdgeRecord E)
  nodeIndices : G → List NodeIndex
  edgeIndices : G → List EdgeIndex
  outgoing : G → NodeIndex → List EdgeIndex
  incoming : G → NodeIndex → List EdgeIndex
  addNode : G → N → NodeIndex × G
  addEdge : G → NodeIndex → NodeIndex → E → EdgeIndex × G
  removeEdge : G → EdgeIndex → G
  removeNode : G → NodeIndex → G
  nodeWeight_empty : ∀ n, nodeWeight empty n = none
  edge_empty : ∀ e, edge empty e = none
  nodup_nodeIndices : ∀ g, (nodeIndices g).Nodup
  mem_nodeIndices : ∀ g n, n ∈ nodeIndices g ↔ (nodeWeight g n).isSome
  nodup_edgeIndices : ∀ g, (edgeIndices g).Nodup
  mem_edgeIndices : ∀ g e, e ∈ edgeIndices g ↔ (edge g e).isSome
  nodup_outgoing : ∀ g n, (outgoing g n).Nodup
  mem_outgoing : ∀ g n e,
    e ∈ outgoing g n ↔ ∃ record, edge g e = some record ∧ record.source = n
  nodup_incoming : ∀ g n, (incoming g n).Nodup
  mem_incoming : ∀ g n e,
    e ∈ incoming g n ↔ ∃ record, edge g e = some record ∧ record.target = n
  addNode_fresh : ∀ g w, nodeWeight g (addNode g w).1 = none
  nodeWeight_addNode : ∀ g w n, nodeWeight (addNode g w).2 n =
    if n = (addNode g w).1 then some w else nodeWeight g n
  edge_addNode : ∀ g w e, edge (addNode g w).2 e = edge g e
  outgoing_addNode : ∀ g w n, outgoing (addNode g w).2 n = outgoing g n
  addEdge_fresh : ∀ g a b w, edge g (addEdge g a b w).1 = none
  nodeWeight_addEdge : ∀ g a b w n,
    nodeWeight (addEdge g a b w).2 n = nodeWeight g n
  edge_addEdge : ∀ g a b w e, (nodeWeight g a).isSome → (nodeWeight g b).isSome →
    edge (addEdge g a b w).2 e =
      if e = (addEdge g a b w).1 then some ⟨a, b, w⟩ else edge g e
  outgoing_addEdge : ∀ g a b w n,
    (nodeWeight g a).isSome → (nodeWeight g b).isSome →
    outgoing (addEdge g a b w).2 n =
      if n = a then (addEdge g a b w).1 :: outgoing g n else outgoing g n
  nodeWeight_removeEdge : ∀ g x n, nodeWeight (removeEdge g x) n = nodeWeight g n
  edge_removeEdge : ∀ g x e,
    edge (removeEdge g x) e = if e = x then none else edge g e
  outgoing_removeEdge : ∀ g x n,
    outgoing (removeEdge g x) n = (outgoing g n).filter (· ≠ x)
  nodeWeight_removeNode : ∀ g x n, outgoing g x = [] → incoming g x = [] →
    nodeWeight (removeNode g x) n = if n = x then none else nodeWeight g n
  edge_removeNode : ∀ g x e, outgoing g x = [] → incoming g x = [] →
    edge (removeNode g x) e = edge g e
  outgoing_removeNode : ∀ g x n, outgoing g x = [] → incoming g x = [] →
    outgoing (removeNode g x) n = outgoing g n

/-- An executable stable graph: association lists, newest entry first. -/
structure SlotGraph (N E : Type) where
  nodes : AList (fun _ : NodeIndex => N)
  edges : AList (fun _ : EdgeIndex => EdgeRecord E)

namespace SlotGraph

variable {N E : Type}

/-- The next unused index of an association list. -/
def freshIndex {V : Type} (slots : AList (fun _ : ℕ => V)) : ℕ :=
  slots.keys.foldr (fun index bound => max (index + 1) bound) 0

theorem lt_freshIndex {V : Type} (slots : AList (fun _ : ℕ => V)) {index : ℕ}
    (hindex : index ∈ slots) : index < freshIndex slots := by
  have hkeys : index ∈ slots.keys := AList.mem_keys.mp hindex
  unfold freshIndex
  generalize slots.keys = keys at hkeys
  induction keys with
  | nil => simp at hkeys
  | cons head tail ih =>
      simp only [List.foldr_cons]
      rcases List.mem_cons.mp hkeys with rfl | htail
      · exact lt_of_lt_of_le (Nat.lt_succ_self _) (le_max_left _ _)
      · exact lt_of_lt_of_le (ih htail) (le_max_right _ _)

theorem freshIndex_notMem {V : Type} (slots : AList (fun _ : ℕ => V)) :
    freshIndex slots ∉ slots :=
  fun hmem => lt_irrefl _ (lt_freshIndex slots hmem)

/-- Indices of the edges that satisfy `keep`, newest first. -/
def edgesWhere (g : SlotGraph N E) (keep : EdgeRecord E → Bool) :
    List EdgeIndex :=
  (g.edges.entries.filter fun entry => keep entry.2).map Sigma.fst

theorem nodup_edgesWhere (g : SlotGraph N E) (keep : EdgeRecord E → Bool) :
    (g.edgesWhere keep).Nodup :=
  List.Nodup.sublist (List.Sublist.map Sigma.fst List.filter_sublist)
    g.edges.keys_nodup

theorem mem_edgesWhere (g : SlotGraph N E) (keep : EdgeRecord E → Bool)
    (e : EdgeIndex) :
    e ∈ g.edgesWhere keep ↔
      ∃ record, g.edges.lookup e = some record ∧ keep record = true := by
  simp only [edgesWhere, List.mem_map, List.mem_filter, Sigma.exists]
  constructor
  · rintro ⟨index, record, ⟨hmem, hkeep⟩, rfl⟩
    exact ⟨record, (List.mem_dlookup_iff g.edges.nodupKeys).mpr hmem, hkeep⟩
  · rintro ⟨record, hlookup, hkeep⟩
    exact ⟨e, record,
      ⟨(List.mem_dlookup_iff g.edges.nodupKeys).mp hlookup, hkeep⟩, rfl⟩

theorem edgesWhere_insert_fresh (g : SlotGraph N E) (record : EdgeRecord E)
    (keep : EdgeRecord E → Bool) :
    edgesWhere ⟨g.nodes, g.edges.insert (freshIndex g.edges) record⟩ keep =
      if keep record then freshIndex g.edges :: g.edgesWhere keep
      else g.edgesWhere keep := by
  have hentries :
      (g.edges.insert (freshIndex g.edges) record).entries =
        ⟨freshIndex g.edges, record⟩ :: g.edges.entries :=
    AList.entries_insert_of_notMem (freshIndex_notMem g.edges)
  simp only [edgesWhere]
  rw [hentries]
  by_cases hkeep : keep record = true <;> simp [hkeep]

theorem kerase_eq_filter {V : Type} (x : ℕ) {entries : List (Σ _ : ℕ, V)}
    (hnodup : entries.NodupKeys) :
    entries.kerase x = entries.filter fun entry => entry.1 ≠ x := by
  induction entries with
  | nil => rfl
  | cons head tail ih =>
      rw [List.nodupKeys_cons] at hnodup
      by_cases heq : x = head.1
      · have hkeep : tail.filter (fun entry => entry.1 ≠ x) = tail := by
          apply List.filter_eq_self.mpr
          intro entry hentry
          have hne : entry.1 ≠ x := by
            rintro rfl
            exact hnodup.1 (heq ▸ List.mem_keys_of_mem hentry)
          simpa using hne
        rw [List.kerase_cons_eq heq, List.filter_cons, hkeep]
        simp [heq]
      · rw [List.kerase_cons_ne heq, ih hnodup.2, List.filter_cons]
        simp [Ne.symm heq]

theorem edgesWhere_erase (g : SlotGraph N E) (x : EdgeIndex)
    (keep : EdgeRecord E → Bool) :
    edgesWhere ⟨g.nodes, g.edges.erase x⟩ keep =
      (g.edgesWhere keep).filter (· ≠ x) := by
  have hentries : (g.edges.erase x).entries = g.edges.entries.filter fun entry => entry.1 ≠ x :=
    kerase_eq_filter x g.edges.nodupKeys
  simp only [edgesWhere, hentries, List.filter_filter, List.filter_map]
  congr 1
  apply List.filter_congr
  intro entry _
  exact Bool.and_comm _ _

instance : StableDiGraph (SlotGraph N E) N E where
  empty := ⟨∅, ∅⟩
  nodeWeight g n := g.nodes.lookup n
  edge g e := g.edges.lookup e
  nodeIndices g := g.nodes.keys
  edgeIndices g := g.edges.keys
  outgoing g n := g.edgesWhere fun record => record.source == n
  incoming g n := g.edgesWhere fun record => record.target == n
  addNode g w :=
    (freshIndex g.nodes, ⟨g.nodes.insert (freshIndex g.nodes) w, g.edges⟩)
  addEdge g a b w :=
    (freshIndex g.edges,
      ⟨g.nodes, g.edges.insert (freshIndex g.edges) ⟨a, b, w⟩⟩)
  removeEdge g x := ⟨g.nodes, g.edges.erase x⟩
  removeNode g x := ⟨g.nodes.erase x, g.edges⟩
  nodeWeight_empty n := AList.lookup_empty n
  edge_empty e := AList.lookup_empty e
  nodup_nodeIndices g := g.nodes.keys_nodup
  mem_nodeIndices g n := AList.mem_keys.symm.trans AList.lookup_isSome.symm
  nodup_edgeIndices g := g.edges.keys_nodup
  mem_edgeIndices g e := AList.mem_keys.symm.trans AList.lookup_isSome.symm
  nodup_outgoing g n := g.nodup_edgesWhere _
  mem_outgoing g n e := by simp [mem_edgesWhere]
  nodup_incoming g n := g.nodup_edgesWhere _
  mem_incoming g n e := by simp [mem_edgesWhere]
  addNode_fresh g w := AList.lookup_eq_none.mpr (freshIndex_notMem g.nodes)
  nodeWeight_addNode g w n := by
    rcases eq_or_ne n (freshIndex g.nodes) with rfl | heq
    · simp
    · simp [heq, AList.lookup_insert_ne heq]
  edge_addNode g w e := rfl
  outgoing_addNode g w n := rfl
  addEdge_fresh g a b w := AList.lookup_eq_none.mpr (freshIndex_notMem g.edges)
  nodeWeight_addEdge g a b w n := rfl
  edge_addEdge g a b w e _ _ := by
    rcases eq_or_ne e (freshIndex g.edges) with rfl | heq
    · simp
    · simp [heq, AList.lookup_insert_ne heq]
  outgoing_addEdge g a b w n _ _ := by
    rw [edgesWhere_insert_fresh]
    by_cases heq : n = a
    · simp [heq]
    · simp [heq, Ne.symm heq]
  nodeWeight_removeEdge g x n := rfl
  edge_removeEdge g x e := by
    rcases eq_or_ne e x with rfl | heq
    · simp
    · simp [heq, AList.lookup_erase_ne heq]
  outgoing_removeEdge g x n := edgesWhere_erase g x _
  nodeWeight_removeNode g x n _ _ := by
    rcases eq_or_ne n x with rfl | heq
    · simp
    · simp [heq, AList.lookup_erase_ne heq]
  edge_removeNode g x e _ _ := rfl
  outgoing_removeNode g x n _ _ := rfl

end SlotGraph

end StableGraph
