import MaluDb.Lib.Select
import MaluDb.Vector.Ann

/-!
# What the beam search finds

The loop of `nsw_search` on an arbitrary graph, with distances of any kind. `Sound` holds after
every round, `Wide` as long as the beam has room for all nodes.
-/

namespace MaluDb.Vector

open MaluDb.Lib MaluDb.Lib.Heap List List.Subset CandEntry

/-! ## The queues -/

section

variable {D : Type} [LT D] [DecidableLT D]

theorem minheapPush_perm (h : List (CandEntry D)) (e : CandEntry D) :
    (minheapPush h e).Perm (e :: h) :=
  (siftUp_perm _ _ _).trans (perm_append_singleton e h)

theorem minheapPop_eq_none {h : List (CandEntry D)} : minheapPop h = none ↔ h = [] := by
  cases h with
  | nil => exact iff_of_true rfl rfl
  | cons top rest =>
    refine iff_of_false ?_ (cons_ne_nil _ _)
    unfold minheapPop
    dsimp only
    split <;> exact Option.some_ne_none _

theorem minheapPop_perm {h h' : List (CandEntry D)} {c : CandEntry D}
    (hpop : minheapPop h = some (c, h')) : h.Perm (c :: h') := by
  cases h with
  | nil => cases hpop
  | cons top rest =>
    unfold minheapPop at hpop
    dsimp only at hpop
    split at hpop
    · rename_i hlast
      cases hpop
      rw [getLast?_eq_none_iff.mp hlast]
    rename_i last hlast
    cases hpop
    refine List.Perm.cons _ ((siftDown_perm _ _ _).trans ?_).symm
    have hrest := dropLast_append_getLast? last hlast
    exact hrest ▸ (perm_append_singleton last rest.dropLast).symm.trans (hrest ▸ .refl _)

theorem shiftInsert_perm [BEq D] (sorted : List (CandEntry D)) (x : CandEntry D) :
    (shiftInsert sorted x).Perm (x :: sorted) := by
  unfold shiftInsert
  refine perm_middle.trans (List.Perm.cons x ?_)
  rw [← reverse_append, takeWhile_append_dropWhile]
  exact (reverse_reverse sorted).symm ▸ .refl _

theorem foldl_shiftInsert_perm [BEq D] (l sorted : List (CandEntry D)) :
    (l.foldl shiftInsert sorted).Perm (l ++ sorted) := by
  induction l generalizing sorted with
  | nil => exact .refl _
  | cons x l ih =>
    exact (ih _).trans (((shiftInsert_perm sorted x).append_left l).trans perm_middle)

end

/-! ## Paths -/

section

variable {F : Type}

/-- Node `a` has an edge to node `b`. -/
def Points (g : AnnGraph F) (a b : Nat) : Prop := (b : Int) ∈ g.edges[a]?.getD []

/-- A path from `a` to `b` along stored edges. -/
abbrev Reaches (g : AnnGraph F) : Nat → Nat → Prop := Relation.ReflTransGen (Points g)

def AnnGraph.InRange (g : AnnGraph F) : Prop :=
  ∀ es ∈ g.edges, ∀ e ∈ es, e < (g.edges.length : Int)

variable {g : AnnGraph F}

theorem AnnGraph.InRange.lt_of_mem (hg : g.InRange) {a : Nat} {e : Int}
    (he : e ∈ g.edges[a]?.getD []) : e < (g.edges.length : Int) := by
  cases hes : g.edges[a]? with
  | none =>
    rw [hes] at he
    cases he
  | some es =>
    rw [hes] at he
    exact hg es (mem_of_getElem? hes) e he

theorem Points.lt (hg : g.InRange) {a b : Nat} (h : Points g a b) : b < g.edges.length :=
  Int.ofNat_lt.mp (hg.lt_of_mem h)

theorem Reaches.lt (hg : g.InRange) {a b : Nat} (ha : a < g.edges.length) (h : Reaches g a b) :
    b < g.edges.length := by
  induction h with
  | refl => exact ha
  | tail _ hbc _ => exact hbc.lt hg

end

/-! ## Every round -/

section

variable {F D : Type} [LT D] [DecidableLT D] {ar : Arith F D}
variable {g : AnnGraph F} {query : Vec F} {ef ep : Nat} {b : Beam D}

variable (ar g query) in
def candOf (i : Nat) : CandEntry D := ⟨i, nodeDistance ar g query i⟩

theorem visitEdge_cases (ar : Arith F D) (g : AnnGraph F) (query : Vec F) (ef : Nat) (b : Beam D)
    (nb : Int) :
    ((∀ i : Nat, nb = i → i ∈ b.visited) ∧ visitEdge ar g query ef b nb = b) ∨
      ∃ i : Nat, nb = i ∧ i ∉ b.visited ∧ (visitEdge ar g query ef b nb =
            ⟨minheapPush b.cand (candOf ar g query i),
              maxheapPush ef b.results (candOf ar g query i), i :: b.visited⟩ ∨
          ef ≤ b.results.length ∧
            visitEdge ar g query ef b nb = ⟨b.cand, b.results, i :: b.visited⟩) := by
  unfold visitEdge
  by_cases hold : nb < 0 ∨ nb.toNat ∈ b.visited
  · rw [if_pos hold]
    refine .inl ⟨?_, rfl⟩
    rintro i rfl
    exact hold.resolve_left (by omega)
  rw [if_neg hold]
  push Not at hold
  refine .inr ⟨nb.toNat, by omega, hold.2, ?_⟩
  split
  · exact .inl rfl
  · rename_i hfull
    push Not at hfull
    exact .inr ⟨hfull.1, rfl⟩

variable (ar g query ep) in
/-- **What is visited can be reached from the entry node, and the results are different visited
nodes with their distances.** -/
structure Sound (b : Beam D) : Prop where
  reached : ∀ i ∈ b.visited, Reaches g ep i
  cand : ∀ c ∈ b.cand, c.idx ∈ b.visited
  results : ∀ c ∈ b.results, c.idx ∈ b.visited ∧ c = candOf ar g query c.idx
  nodup : (b.results.map idx).Nodup
  nonempty : b.results ≠ []

theorem Sound.visitEdge (h : Sound ar g query ep b) {nb : Int}
    (hnb : ∀ i : Nat, nb = i → Reaches g ep i) :
    Sound ar g query ep (visitEdge ar g query ef b nb) := by
  obtain ⟨-, heq⟩ | ⟨i, hi, hnew, heq | ⟨-, heq⟩⟩ := visitEdge_cases ar g query ef b nb
  · rw [heq]
    exact h
  · rw [heq]
    have hsub : (maxheapPush ef b.results (candOf ar g query i)).Subperm
        (candOf ar g query i :: b.results) := push_subperm _ _ _ _
    refine ⟨?_, ?_, ?_, ?_, ?_⟩
    · exact forall_mem_cons.mpr ⟨hnb i hi, h.reached⟩
    · intro c hc
      rcases mem_cons.mp ((minheapPush_perm _ _).mem_iff.mp hc) with rfl | hc
      · exact mem_cons_self
      · exact mem_cons_of_mem i (h.cand c hc)
    · intro c hc
      rcases mem_cons.mp (hsub.subset hc) with rfl | hc
      · exact ⟨mem_cons_self, rfl⟩
      · exact ⟨mem_cons_of_mem i (h.results c hc).1, (h.results c hc).2⟩
    · -- the new index is not among the results, since these are visited
      have hfresh : i ∉ b.results.map idx := by
        intro hmem
        obtain ⟨c, hc, rfl⟩ := mem_map.mp hmem
        exact hnew (h.results c hc).1
      obtain ⟨l, hl, hsubl⟩ := hsub
      have hcons : ((candOf ar g query i :: b.results).map idx).Nodup :=
        nodup_cons.mpr ⟨hfresh, h.nodup⟩
      exact (hl.map _).nodup_iff.mp (hcons.sublist (hsubl.map _))
    · intro hnil
      have hlen := length_push (keyAbove dist) ef b.results (candOf ar g query i)
      have hpos : 0 < b.results.length := length_pos_iff.mpr h.nonempty
      rw [show push _ _ _ _ = ([] : List (CandEntry D)) from hnil, length_nil] at hlen
      split at hlen <;> omega
  · rw [heq]
    refine ⟨forall_mem_cons.mpr ⟨hnb i hi, h.reached⟩, ?_, ?_, h.nodup, h.nonempty⟩
    · exact fun c hc => mem_cons_of_mem i (h.cand c hc)
    · exact fun c hc => ⟨mem_cons_of_mem i (h.results c hc).1, (h.results c hc).2⟩

/-- **What the visits of the edges of a popped node keep holds after every round.** -/
theorem beamLoop_induct {I : Beam D → Prop} {J : Nat → Prop}
    (hpop : ∀ b c cand, I b → minheapPop b.cand = some (c, cand) → J c.idx ∧ I { b with cand })
    (hvisit : ∀ i, J i → ∀ nb ∈ g.edges[i]?.getD [], ∀ b, I b → I (visitEdge ar g query ef b nb)) :
    ∀ {fuel : Nat} {b : Beam D}, I b → I (beamLoop ar g query ef fuel b)
  | 0, _, h => h
  | fuel + 1, b, h => by
    unfold beamLoop
    split
    · exact h
    rename_i c cand hc
    obtain ⟨hidx, hrest⟩ := hpop b c cand h hc
    split
    · exact hrest
    · exact beamLoop_induct hpop hvisit
        (foldlRecOn _ _ hrest fun b hb nb hnb => hvisit c.idx hidx nb hnb b hb)

theorem Sound.beamLoop {fuel : Nat} (h : Sound ar g query ep b) :
    Sound ar g query ep (beamLoop ar g query ef fuel b) := by
  refine beamLoop_induct (J := Reaches g ep) (fun b c cand h hpop => ?_)
    (fun i hi nb hnb b h => h.visitEdge ?_) h
  · have hmem : ∀ e, e ∈ c :: cand → e.idx ∈ b.visited := fun e he =>
      h.cand e ((minheapPop_perm hpop).mem_iff.mpr he)
    exact ⟨h.reached _ (hmem c mem_cons_self), h.reached,
      fun e he => hmem e (mem_cons_of_mem c he), h.results, h.nodup, h.nonempty⟩
  · rintro j rfl
    exact hi.tail hnb

/-! ## A wide beam -/

def Beam.left (b : Beam D) (n : Nat) : Nat := b.cand.length + (n - b.visited.length)

variable (g) in
/-- **The beam while it has room for all nodes**: every visited node is a result, and it waits, is
one of `opened`, or all its edges have been followed. -/
structure Wide (opened : List Nat) (b : Beam D) : Prop where
  nodup : b.visited.Nodup
  bounded : ∀ i ∈ b.visited, i < g.edges.length
  results : b.results.length = b.visited.length
  followed : ∀ i ∈ b.visited, (∃ c ∈ b.cand, c.idx = i) ∨ i ∈ opened ∨
    ∀ j, Points g i j → j ∈ b.visited

section

variable {l : List Nat} {n : Nat} (hnd : l.Nodup) (hlt : ∀ i ∈ l, i < n)
include hnd hlt

theorem subperm_range : l.Subperm (range n) :=
  subperm_of_subset hnd fun i hi => mem_range.mpr (hlt i hi)

theorem length_le_of_bounded : l.length ≤ n :=
  (subperm_range hnd hlt).length_le.trans_eq length_range

theorem mem_of_bounded (hlen : n ≤ l.length) {i : Nat} (hi : i < n) : i ∈ l := by
  have hperm := (subperm_range hnd hlt).perm_of_length_le (by rw [length_range]; exact hlen)
  exact hperm.mem_iff.mpr (mem_range.mpr hi)

end

variable (ar query) in
theorem Wide.visitEdge {opened : List Nat} (h : Wide g opened b) (hef : g.edges.length ≤ ef)
    {nb : Int} (hnb : nb < g.edges.length) :
    Wide g opened (visitEdge ar g query ef b nb) ∧
      b.visited ⊆ (Vector.visitEdge ar g query ef b nb).visited ∧
      (∀ i : Nat, nb = i → i ∈ (Vector.visitEdge ar g query ef b nb).visited) ∧
      (Vector.visitEdge ar g query ef b nb).left g.edges.length = b.left g.edges.length := by
  obtain ⟨hold, heq⟩ | ⟨i, hi, hnew, hcases⟩ := visitEdge_cases ar g query ef b nb
  · rw [heq]
    exact ⟨h, refl _, hold, rfl⟩
  have hlt : i < g.edges.length := by omega
  have hnd : (i :: b.visited).Nodup := nodup_cons.mpr ⟨hnew, h.nodup⟩
  have hbd : ∀ j ∈ i :: b.visited, j < g.edges.length :=
    forall_mem_cons.mpr ⟨hlt, h.bounded⟩
  have hlen : b.visited.length + 1 ≤ g.edges.length := length_le_of_bounded hnd hbd
  have hres := h.results
  -- the results cannot be full, since `i` is a node that is not among them
  have heq := hcases.resolve_right fun hfull => absurd hfull.1 (by omega)
  rw [heq]
  refine ⟨⟨hnd, hbd, ?_, ?_⟩, subset_cons_self i _, ?_, ?_⟩
  · have hroom : b.results.length < ef := by omega
    exact (push_of_room hroom _).length_eq.trans (congrArg (· + 1) hres)
  · intro j hj
    rcases mem_cons.mp hj with rfl | hj
    · exact .inl ⟨_, (minheapPush_perm _ _).mem_iff.mpr mem_cons_self, rfl⟩
    rcases h.followed j hj with ⟨c, hc, hcj⟩ | hopen | hall
    · exact .inl ⟨c, (minheapPush_perm _ _).mem_iff.mpr (mem_cons_of_mem _ hc), hcj⟩
    · exact .inr (.inl hopen)
    · exact .inr (.inr fun k hk => mem_cons_of_mem i (hall k hk))
  · intro j hj
    rw [show j = i by omega]
    exact mem_cons_self
  · have hcand := (minheapPush_perm b.cand (candOf ar g query i)).length_eq
    simp only [Beam.left, hcand, length_cons]
    omega

variable (ar query) in
theorem Wide.follow {opened : List Nat} (hef : g.edges.length ≤ ef) (es : List Int)
    (hes : ∀ e ∈ es, e < (g.edges.length : Int)) :
    ∀ {b : Beam D}, Wide g opened b → Wide g opened (es.foldl (Vector.visitEdge ar g query ef) b) ∧
        b.visited ⊆ (es.foldl (Vector.visitEdge ar g query ef) b).visited ∧
        (∀ i : Nat, (i : Int) ∈ es → i ∈ (es.foldl (Vector.visitEdge ar g query ef) b).visited) ∧
        (es.foldl (Vector.visitEdge ar g query ef) b).left g.edges.length =
          b.left g.edges.length := by
  induction es with
  | nil => exact fun h => ⟨h, refl _, by simp, rfl⟩
  | cons nb es ih =>
    intro b h
    obtain ⟨hw, hsub, hvisit, hleft⟩ := h.visitEdge ar query hef
      (hes nb mem_cons_self)
    obtain ⟨hw', hsub', hvisit', hleft'⟩ := ih (fun e he => hes e (mem_cons_of_mem nb he)) hw
    refine ⟨hw', List.Subset.trans hsub hsub', ?_, hleft'.trans hleft⟩
    intro i hi
    rcases mem_cons.mp hi with hi | hi
    · exact hsub' (hvisit i hi.symm)
    · exact hvisit' i hi

variable (ar query) in
theorem Wide.round (h : Wide g [] b) (hg : g.InRange) (hef : g.edges.length ≤ ef)
    {c : CandEntry D} {cand : List (CandEntry D)} (hpop : minheapPop b.cand = some (c, cand)) :
    Wide g [] ((g.edges[c.idx]?.getD []).foldl (Vector.visitEdge ar g query ef) { b with cand }) ∧
      b.visited ⊆ ((g.edges[c.idx]?.getD []).foldl (Vector.visitEdge ar g query ef)
        { b with cand }).visited ∧
      ((g.edges[c.idx]?.getD []).foldl (Vector.visitEdge ar g query ef)
        { b with cand }).left g.edges.length + 1 = b.left g.edges.length := by
  have hperm := minheapPop_perm hpop
  have hopened : Wide g [c.idx] { b with cand } := by
    refine ⟨h.nodup, h.bounded, h.results, ?_⟩
    intro i hi
    rcases h.followed i hi with ⟨e, he, rfl⟩ | hopen | hall
    · rcases mem_cons.mp (hperm.mem_iff.mp he) with rfl | he
      · exact .inr (.inl mem_cons_self)
      · exact .inl ⟨e, he, rfl⟩
    · cases hopen
    · exact .inr (.inr hall)
  obtain ⟨hw, hsub, hvisit, hleft⟩ := Wide.follow ar query hef _
    (fun e he => hg.lt_of_mem he) hopened
  refine ⟨⟨hw.nodup, hw.bounded, hw.results, ?_⟩, hsub, ?_⟩
  · intro i hi
    rcases hw.followed i hi with hwait | hopen | hall
    · exact .inl hwait
    · rw [mem_singleton.mp hopen]
      exact .inr (.inr hvisit)
    · exact .inr (.inr hall)
  · rw [hleft]
    simp only [Beam.left, hperm.length_eq, length_cons]
    omega

variable (ar query) in
/-- **The loop follows every edge of what it visits**: it ends when nothing waits, or when the
results hold all nodes. -/
theorem Wide.beamLoop (hg : g.InRange) (hef : g.edges.length ≤ ef) :
    ∀ {fuel : Nat} {b : Beam D}, Wide g [] b → b.left g.edges.length ≤ fuel →
      b.visited ⊆ (beamLoop ar g query ef fuel b).visited ∧
        (Vector.beamLoop ar g query ef fuel b).results.length =
          (Vector.beamLoop ar g query ef fuel b).visited.length ∧
        (∀ i ∈ (Vector.beamLoop ar g query ef fuel b).visited, ∀ j, Points g i j →
          j ∈ (Vector.beamLoop ar g query ef fuel b).visited)
  | fuel, b, h, hfuel => by
    have hdone : b.cand = [] → ∀ i ∈ b.visited, ∀ j, Points g i j → j ∈ b.visited := by
      intro hcand i hi
      rcases h.followed i hi with ⟨c, hc, -⟩ | hopen | hall
      · rw [hcand] at hc
        cases hc
      · cases hopen
      · exact hall
    cases fuel with
    | zero =>
      refine ⟨refl _, h.results, hdone (length_eq_zero_iff.mp ?_)⟩
      unfold Beam.left at hfuel
      omega
    | succ fuel =>
      unfold Vector.beamLoop
      split
      · rename_i hpop
        exact ⟨refl _, h.results, hdone (minheapPop_eq_none.mp hpop)⟩
      rename_i c cand hpop
      split
      · rename_i hstop
        refine ⟨refl _, h.results, ?_⟩
        -- a full result heap holds every node
        have hfull : ef ≤ b.results.length := by
          simp only [beamStops, Bool.and_eq_true, decide_eq_true_eq] at hstop
          exact hstop.1
        have hres := h.results
        exact fun i _ j hj => mem_of_bounded h.nodup h.bounded (by omega) (hj.lt hg)
      · obtain ⟨hw, hsub, hleft⟩ := h.round ar query hg hef hpop
        obtain ⟨hsub', hlen, hall⟩ := Wide.beamLoop hg hef hw
          (show _ ≤ fuel by omega)
        exact ⟨List.Subset.trans hsub hsub', hlen, hall⟩

end

/-! ## The search -/

section

variable {F D : Type} [LT D] [DecidableLT D] (ar : Arith F D) (g : AnnGraph F) (query : Vec F)

/-- The node a search over the first `n` nodes starts from. -/
def searchEntry (n : Nat) : Nat :=
  if g.entryNode < 0 ∨ (n : Int) ≤ g.entryNode then 0 else g.entryNode.toNat

def startBeam (ef ep : Nat) : Beam D :=
  ⟨minheapPush [] (candOf ar g query ep), maxheapPush ef [] (candOf ar g query ep), [ep]⟩

/-- The beam after the last round of a search of width `ef`. -/
def endBeam (ef ep : Nat) : Beam D :=
  beamLoop ar g query ef (g.edges.length + 1) (startBeam ar g query ef ep)

variable {n k : Nat} {efArg resCap : Int}

theorem nswSearch_eq [BEq D] (hn : n ≠ 0) (hk : k ≠ 0) :
    nswSearch ar g query n k efArg resCap =
      ((endBeam ar g query (min (max efArg k) resCap).toNat (searchEntry g n)).results.foldl
        shiftInsert []).take k := by
  unfold nswSearch
  rw [if_neg (by tauto)]
  rfl

variable {ar g query} {ef ep : Nat}

theorem startBeam_cand : (startBeam ar g query ef ep).cand = [candOf ar g query ep] :=
  perm_singleton.mp (minheapPush_perm _ _)

theorem startBeam_results (hef : 0 < ef) :
    (startBeam ar g query ef ep).results = [candOf ar g query ep] :=
  perm_singleton.mp (push_of_room hef _)

variable (ar g query ep) in
theorem endBeam_sound (hef : 0 < ef) : Sound ar g query ep (endBeam ar g query ef ep) := by
  refine Sound.beamLoop ⟨?_, ?_, ?_, ?_, ?_⟩
  · intro i hi
    rw [mem_singleton.mp hi]
  · rw [startBeam_cand]
    exact forall_mem_singleton.mpr mem_cons_self
  · rw [startBeam_results hef]
    exact forall_mem_singleton.mpr ⟨mem_cons_self, rfl⟩
  · rw [startBeam_results hef]
    exact nodup_singleton _
  · rw [startBeam_results hef]
    exact cons_ne_nil _ _

/-- **A beam as wide as the graph ends with every node that can be reached.** -/
theorem endBeam_wide (hg : g.InRange) (hef : g.edges.length ≤ ef) (hep : ep < g.edges.length) :
    ∀ i, i ∈ (endBeam ar g query ef ep).results.map idx ↔ Reaches g ep i := by
  have hpos : 0 < ef := by omega
  have hsound := endBeam_sound ar g query ep hpos
  have hstart : Wide g [] (startBeam ar g query ef ep) := by
    refine ⟨nodup_singleton _, forall_mem_singleton.mpr hep, ?_, ?_⟩
    · rw [startBeam_results hpos]
      rfl
    · rw [startBeam_cand]
      exact forall_mem_singleton.mpr (.inl ⟨_, mem_cons_self, rfl⟩)
  have hleft : (startBeam ar g query ef ep).left g.edges.length ≤ g.edges.length + 1 := by
    unfold Beam.left
    rw [startBeam_cand]
    simp only [startBeam, length_cons, length_nil]
    omega
  obtain ⟨hsub, hlen, hall⟩ := hstart.beamLoop ar query hg hef hleft
  -- the results are different visited nodes, and as many
  have hperm : ((endBeam ar g query ef ep).results.map idx).Perm
      (endBeam ar g query ef ep).visited := by
    refine List.Subperm.perm_of_length_le (subperm_of_subset hsound.nodup ?_) ?_
    · intro i hi
      obtain ⟨c, hc, rfl⟩ := mem_map.mp hi
      exact (hsound.results c hc).1
    · rw [length_map]
      exact hlen.ge
  intro i
  rw [hperm.mem_iff]
  refine ⟨hsound.reached i, fun hi => ?_⟩
  induction hi with
  | refl => exact hsub mem_cons_self
  | tail _ hbc ih => exact hall _ ih _ hbc

variable (ar g query) in
/-- **What a search finds can be reached, each node once and with its distance, and it finds
something.** -/
theorem nswSearch_sound [BEq D] (hn : n ≠ 0) (hk : k ≠ 0) (hef : 0 < efArg) (hcap : 0 < resCap) :
    nswSearch ar g query n k efArg resCap ≠ [] ∧ ∀ c ∈ nswSearch ar g query n k efArg resCap,
        Reaches g (searchEntry g n) c.idx ∧ c = candOf ar g query c.idx := by
  rw [nswSearch_eq ar g query hn hk]
  have hpos : 0 < (min (max efArg k) resCap).toNat := by omega
  have hsound := endBeam_sound ar g query (searchEntry g n) hpos
  have hperm := foldl_shiftInsert_perm
    (endBeam ar g query (min (max efArg k) resCap).toNat (searchEntry g n)).results []
  rw [append_nil] at hperm
  constructor
  · intro hnil
    rcases take_eq_nil_iff.mp hnil with hzero | hempty
    · exact hk hzero
    · rw [hempty] at hperm
      exact hsound.nonempty (nil_perm.mp hperm)
  · intro c hc
    have hmem := hsound.results c (hperm.mem_iff.mp (mem_of_mem_take hc))
    exact ⟨hsound.reached _ hmem.1, hmem.2⟩

variable (ar query) in
/-- **A search as wide as the graph ranks exactly the nodes that can be reached.** -/
theorem nswSearch_wide [BEq D] (hg : g.InRange) (hn : n ≠ 0) (hk : k ≠ 0)
    (hep : searchEntry g n < g.edges.length)
    (hef : (g.edges.length : Int) ≤ min (max efArg k) resCap) :
    ∃ found : List (CandEntry D), (found.map idx).Nodup ∧
        (∀ i, i ∈ found.map idx ↔ Reaches g (searchEntry g n) i) ∧
        (∀ c ∈ found, c = candOf ar g query c.idx) ∧
        nswSearch ar g query n k efArg resCap = (found.foldl shiftInsert []).take k := by
  have hpos : 0 < (min (max efArg k) resCap).toNat := by omega
  have hsound := endBeam_sound ar g query (searchEntry g n) hpos
  exact ⟨_, hsound.nodup, endBeam_wide hg (by omega) hep, fun c hc => (hsound.results c hc).2,
    nswSearch_eq ar g query hn hk⟩

variable (ar query) in
theorem nswSearch_all [BEq D] (hg : g.InRange) (hn : n ≠ 0) (hk : k ≠ 0)
    (hep : searchEntry g n < g.edges.length)
    (hef : (g.edges.length : Int) ≤ min (max efArg k) resCap)
    (hall : ∀ i < g.edges.length, Reaches g (searchEntry g n) i) :
    ∃ found : List (CandEntry D), found.Perm ((range g.edges.length).map (candOf ar g query)) ∧
        nswSearch ar g query n k efArg resCap = (found.foldl shiftInsert []).take k := by
  obtain ⟨found, hnd, hmem, hcand, heq⟩ := nswSearch_wide ar query hg hn hk hep hef
  have hidx : (found.map idx).Perm (range g.edges.length) := by
    refine (perm_ext_iff_of_nodup hnd nodup_range).mpr fun i => ?_
    rw [hmem, mem_range]
    exact ⟨Reaches.lt hg hep, hall i⟩
  have hfound : (found.map idx).map (candOf ar g query) = found := by
    rw [List.map_map]
    exact (map_congr_left fun c hc => (hcand c hc).symm).trans (map_id found)
  exact ⟨found, hfound ▸ hidx.map _, heq⟩

end

/-! ## The nearest of what is visited -/

section

variable {F D : Type} [LinearOrder D] {ar : Arith F D} {g : AnnGraph F} {query : Vec F} {ef : Nat}
  {b : Beam D}

/-- The key of the sort in `nsw_search`. -/
def candKey (c : CandEntry D) : D ×ₗ Nat := toLex (c.dist, c.idx)

theorem sortsAfter_iff {a x : CandEntry D} : sortsAfter a x = true ↔ candKey x < candKey a := by
  unfold sortsAfter candKey
  rw [Prod.Lex.toLex_lt_toLex]
  simp only [Bool.or_eq_true, Bool.and_eq_true, decide_eq_true_eq, beq_iff_eq]
  exact or_congr_right (and_congr_left' eq_comm)

theorem reverse_shiftInsert (sorted : List (CandEntry D)) (x : CandEntry D) :
    (shiftInsert sorted x).reverse =
      sorted.reverse.orderedInsert (fun a b => candKey b ≤ candKey a) x := by
  have hafter : (fun b => decide ¬ candKey b ≤ candKey x) = (sortsAfter · x) := by
    funext b
    rw [Bool.eq_iff_iff, sortsAfter_iff, decide_eq_true_iff, not_le]
  rw [orderedInsert_eq_take_drop, hafter]
  simp [shiftInsert]

theorem shiftInsert_pairwise {sorted : List (CandEntry D)} (x : CandEntry D)
    (h : sorted.Pairwise fun a b => candKey a ≤ candKey b) :
    (shiftInsert sorted x).Pairwise fun a b => candKey a ≤ candKey b := by
  rw [← pairwise_reverse, reverse_shiftInsert]
  exact (pairwise_reverse.mpr h).orderedInsert x _

theorem foldl_shiftInsert_pairwise (l : List (CandEntry D)) :
    ∀ {sorted : List (CandEntry D)}, sorted.Pairwise (fun a b => candKey a ≤ candKey b) →
      (l.foldl shiftInsert sorted).Pairwise fun a b => candKey a ≤ candKey b := by
  induction l with
  | nil => exact fun h => h
  | cons x l ih => exact fun h => ih (shiftInsert_pairwise x h)

variable (ar g query ef) in
/-- The nodes are visited once, and the results are the nearest of them. -/
structure Beam.Nearest (b : Beam D) : Prop where
  nodup : b.visited.Nodup
  keeps : Keeps dist ef (b.visited.map (candOf ar g query) : List (CandEntry D)) b.results

theorem Beam.Nearest.visitEdge (h : b.Nearest ar g query ef) (nb : Int) :
    (visitEdge ar g query ef b nb).Nearest ar g query ef := by
  unfold Vector.visitEdge
  split
  · exact h
  rename_i hnew
  push Not at hnew
  have hnodup : (nb.toNat :: b.visited).Nodup := nodup_cons.mpr ⟨hnew.2, h.nodup⟩
  have hpush := h.keeps.push (candOf ar g query nb.toNat)
  split
  · exact ⟨hnodup, hpush⟩
  -- a full heap of nearer nodes would not have taken the entry
  rename_i hfull
  push Not at hfull
  have hle : ∀ x ∈ b.results, x.dist ≤ nodeDistance ar g query nb.toNat := by
    cases hres : b.results with
    | nil => exact by simp
    | cons worst rest =>
      have hworst : worst.dist ≤ nodeDistance ar g query nb.toNat := by
        simpa [betterThanWorst, hres] using hfull.2
      have horder := h.keeps.order
      rw [hres] at horder
      exact forall_mem_cons.mpr ⟨hworst, fun x hx => (key_le_root horder x hx).trans hworst⟩
  rw [push_skip hfull.1 hle] at hpush
  exact ⟨hnodup, hpush⟩

theorem Beam.Nearest.beamLoop {fuel : Nat} (h : b.Nearest ar g query ef) :
    (beamLoop ar g query ef fuel b).Nearest ar g query ef :=
  beamLoop_induct (J := fun _ => True) (fun _ _ _ h _ => ⟨trivial, h.nodup, h.keeps⟩)
    (fun _ _ nb _ _ h => h.visitEdge nb) h

variable (ar g query) (n k : Nat) (efArg resCap : Int)

/-- The width of the beam. -/
def beamWidth : Nat := (min (max efArg k) resCap).toNat

/-- The nodes that `nsw_search` visits. -/
def visitedNodes : List Nat :=
  if n = 0 ∨ k = 0 then []
  else (endBeam ar g query (beamWidth k efArg resCap) (searchEntry g n)).visited

/-- **A search returns the nearest of the nodes that it visits**, in ascending order. -/
theorem nswSearch_nearest :
    (visitedNodes ar g query n k efArg resCap).Nodup ∧
      (nswSearch ar g query n k efArg resCap).map dist =
        (((visitedNodes ar g query n k efArg resCap).map (nodeDistance ar g query)).insertionSort
          (· ≤ ·)).take (min k (beamWidth k efArg resCap)) ∧
      ∀ c ∈ nswSearch ar g query n k efArg resCap,
        c.idx ∈ visitedNodes ar g query n k efArg resCap ∧
          c.dist = nodeDistance ar g query c.idx := by
  by_cases hnone : n = 0 ∨ k = 0
  · simp [nswSearch, visitedNodes, hnone]
  push Not at hnone
  have hsearch : nswSearch ar g query n k efArg resCap =
      ((endBeam ar g query (beamWidth k efArg resCap) (searchEntry g n)).results.foldl
        shiftInsert []).take k := nswSearch_eq ar g query hnone.1 hnone.2
  have hnear : (endBeam ar g query (beamWidth k efArg resCap) (searchEntry g n)).Nearest ar g query
      (beamWidth k efArg resCap) :=
    Beam.Nearest.beamLoop ⟨nodup_singleton _, (keeps_nil _ _).push (candOf ar g query _)⟩
  rw [visitedNodes, if_neg (by tauto), hsearch]
  generalize endBeam ar g query (beamWidth k efArg resCap) (searchEntry g n) = b at hnear
  have hperm := foldl_shiftInsert_perm b.results []
  rw [append_nil] at hperm
  refine ⟨hnear.nodup, ?_, fun c hc => ?_⟩
  · have hsorted : ((b.results.foldl shiftInsert []).map dist).Pairwise (· ≤ ·) :=
      pairwise_map.mpr ((foldl_shiftInsert_pairwise b.results .nil).imp fun h =>
        (Prod.Lex.toLex_le_toLex.mp h).elim le_of_lt (·.1.le))
    have hkept := hnear.keeps.best.sort_map rfl
    rw [List.map_map] at hkept
    rw [map_take, ← insertionSort_of_perm hsorted (hperm.map _), hkept, take_take]
    rfl
  · have hmem := Multiset.mem_of_le hnear.keeps.best.le_all
      (Multiset.mem_coe.mpr (hperm.mem_iff.mp (mem_of_mem_take hc)))
    obtain ⟨i, hi, rfl⟩ := mem_map.mp (Multiset.mem_coe.mp hmem)
    exact ⟨hi, rfl⟩

/-- The width 1 is raised to `k`, so that two nodes are returned. -/
theorem nswSearch_raises_width :
    let g : AnnGraph Int := ⟨.l2, 1, 1, 1, 0, [1, 2], [[1], [0]], [[0], [1]]⟩
    visitedNodes intArith g [0] 2 2 1 2 = [1, 0] ∧
      nswSearch intArith g [0] 2 2 1 2 = [⟨0, 0⟩, ⟨1, 1⟩] ∧ min 2 (min 1 2) = 1 := by
  decide

end

end MaluDb.Vector
