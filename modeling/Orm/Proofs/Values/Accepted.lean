import Orm.Proofs.Alike.Anywhere
import Orm.Proofs.Place.Projection
import Orm.Sample

/-
Which queries can be read as tuples of values.

A SELECT of values leaves the computed columns out and keeps the ordering. So of the queries that can be
selected, those can be read as values whose ordering needs no computed column
(`compileValues_accepts`).
-/

namespace Orm

variable {ι α β : Type} {schema : Schema ι} {root : ι}

/-! ## Lists of runs -/

section

variable {σ : Type} {f : β → ExceptT Error (StateM σ) α}

theorem Yields.mem_mapM {l : List β} {as : List α} {s t : σ} (h : Yields (l.mapM f) s as t) :
    ∀ c ∈ l, ∃ a s' t', Yields (f c) s' a t' := by
  induction l generalizing as s t with
  | nil => exact fun c hc => absurd hc List.not_mem_nil
  | cons c l ih =>
    simp only [List.mapM_cons, Yields.bind_iff] at h
    obtain ⟨a, m, hc, as', m', hl, -, -⟩ := h
    exact List.forall_mem_cons.2 ⟨⟨a, s, m, hc⟩, ih hl⟩

theorem exists_yields_mapM {l : List β} (h : ∀ c ∈ l, ∀ s, ∃ a t, Yields (f c) s a t) (s : σ) :
    ∃ as t, Yields (l.mapM f) s as t := by
  induction l generalizing s with
  | nil => exact ⟨[], s, Yields.pure_iff.2 ⟨rfl, rfl⟩⟩
  | cons c l ih =>
    rw [List.forall_mem_cons] at h
    obtain ⟨a, m, hc⟩ := h.1 s
    obtain ⟨as, t, hl⟩ := ih h.2 m
    refine ⟨a :: as, t, ?_⟩
    simp only [List.mapM_cons, Yields.bind_iff, Yields.pure_iff]
    exact ⟨a, m, hc, as, t, hl, rfl, rfl⟩

end

/-! ## Projections that keep repetitions -/

namespace ScanPlan

variable {s t : ScanPlan ι}

/-- The nodes of a plan, whatever their keys. -/
def bareNodes (s : ScanPlan ι) : List (ScanNode ι) := s.nodes.map fun n => { n with pkEntry := none }

/-- Both plans have one tree of nodes. -/
def SameNodes (s t : ScanPlan ι) : Prop := t.bareNodes = s.bareNodes

theorem bareNodes_setPkEntry (nodes : List (ScanNode ι)) (i k : Nat) :
    (setPkEntry nodes i k).map (fun n => { n with pkEntry := none }) =
      nodes.map fun n => { n with pkEntry := none } := by
  refine List.ext_getElem? fun j => ?_
  rw [List.getElem?_map, List.getElem?_map, getElem?_setPkEntry]
  split
  · cases nodes[j]? <;> rfl
  · rfl

theorem bareNodes_project (s : ScanPlan ι) (i : Nat) (f : FieldDef ι) (dedupe : Bool) :
    (s.project i f dedupe).bareNodes = s.bareNodes := by
  obtain he | ⟨n, -, -, he⟩ := s.project_cases i f dedupe
  · rw [he]
  · rw [he, bareNodes]
    dsimp only
    split
    · exact bareNodes_setPkEntry ..
    · rfl

theorem bareNodes_projectAll (s : ScanPlan ι) (i : Nat) (fields : List (FieldDef ι))
    (dedupe : Bool) : (s.projectAll i fields dedupe).bareNodes = s.bareNodes := by
  induction fields generalizing s with
  | nil => rfl
  | cons f fields ih => exact (ih _).trans (s.bareNodes_project i f dedupe)

theorem findIdx?_bareNodes (s : ScanPlan ι) (x : String) :
    s.bareNodes.findIdx? (·.tableAlias == x) = s.nodes.findIdx? (·.tableAlias == x) :=
  List.findIdx?_map ..

namespace SameNodes

theorem project (h : SameNodes s t) (i : Nat) (f : FieldDef ι) (dedupe dedupe' : Bool) :
    SameNodes (s.project i f dedupe) (t.project i f dedupe') := by
  unfold SameNodes
  rw [bareNodes_project, bareNodes_project]
  exact h

theorem projectAll (h : SameNodes s t) (i : Nat) (fields : List (FieldDef ι))
    (dedupe dedupe' : Bool) :
    SameNodes (s.projectAll i fields dedupe) (t.projectAll i fields dedupe') := by
  unfold SameNodes
  rw [bareNodes_projectAll, bareNodes_projectAll]
  exact h

theorem ensureNode (h : SameNodes s t) (p : Nat) (f : FieldDef ι) (m : ι) (x : String) :
    SameNodes (s.ensureNode p f m x).1 (t.ensureNode p f m x).1 ∧
      (t.ensureNode p f m x).2 = (s.ensureNode p f m x).2 := by
  have hfind : t.nodes.findIdx? (·.tableAlias == x) = s.nodes.findIdx? (·.tableAlias == x) := by
    rw [← findIdx?_bareNodes, ← findIdx?_bareNodes, h]
  have hlength : t.nodes.length = s.nodes.length := by
    simpa [bareNodes] using congrArg List.length h
  unfold ScanPlan.ensureNode
  rw [hfind]
  split
  · exact ⟨h, rfl⟩
  · refine ⟨?_, hlength⟩
    unfold SameNodes bareNodes at h ⊢
    rw [List.map_append, List.map_append, h]

theorem ensureChain (h : SameNodes s t) {i j : Nat} (hj : j = i) (hops : List (Hop ι × String)) :
    SameNodes (Orm.ensureChain schema s i hops).1 (Orm.ensureChain schema t j hops).1 ∧
      (Orm.ensureChain schema t j hops).2 = (Orm.ensureChain schema s i hops).2 := by
  induction hops generalizing s t i j with
  | nil => exact ⟨h, hj⟩
  | cons x hops ih =>
    subst hj
    obtain ⟨hnode, hindex⟩ := h.ensureNode j x.1.field x.1.relation.target x.2
    exact ih hnode hindex

/-- The nodes at one index differ in their keys only. -/
theorem node (h : SameNodes s t) (i : Nat) :
    s.nodes[i]? = none ∧ t.nodes[i]? = none ∨
      ∃ n m, s.nodes[i]? = some n ∧ t.nodes[i]? = some m ∧ m.model = n.model ∧
        m.tableAlias = n.tableAlias := by
  have hbare := congrArg (·[i]?) h
  simp only [bareNodes, List.getElem?_map] at hbare
  cases hs : s.nodes[i]? with
  | none =>
    rw [hs, Option.map_none, Option.map_eq_none_iff] at hbare
    exact .inl ⟨rfl, hbare⟩
  | some n =>
    rw [hs, Option.map_some, Option.map_eq_some_iff] at hbare
    obtain ⟨m, hm, heq⟩ := hbare
    obtain ⟨-, -, hmodel, halias, -⟩ := ScanNode.mk.inj heq
    exact .inr ⟨n, m, rfl, hm, hmodel, halias⟩

end SameNodes

end ScanPlan

section

variable {s t : ScanPlan ι} (dedupe dedupe' : Bool)

theorem projectEnd_paired (h : s.SameNodes t) (w : Walk ι) (node : Nat) :
    Paired Eq (projectEnd schema dedupe w s node) (projectEnd schema dedupe' w t node)
      ScanPlan.SameNodes := by
  unfold projectEnd
  obtain ⟨hs, ht⟩ | ⟨n, m, hs, ht, hmodel, halias⟩ := h.node node
  · rw [hs, ht]
    exact .of_pure h
  rw [hs, ht]
  dsimp only
  rw [hmodel, halias]
  cases w.field with
  | none => exact .of_pure (h.projectAll ..)
  | some f =>
    dsimp only
    split
    · exact .of_pure (h.project ..)
    · refine (Paired.same _).bind fun x x' hx => ?_
      subst hx
      refine (Paired.same _).bind fun target target' htarget => ?_
      subst htarget
      refine (Paired.same _).bind fun pk pk' hpk => ?_
      subst hpk
      obtain ⟨hnode, hindex⟩ := h.ensureNode node f target x
      rw [hindex]
      exact .of_pure (hnode.project ..)

theorem projectPath_paired (h : s.SameNodes t) (path : String) :
    Paired Eq (projectPath schema root dedupe s path) (projectPath schema root dedupe' t path)
      ScanPlan.SameNodes := by
  rw [projectPath_eq, projectPath_eq]
  refine (Paired.same _).bind fun w w' hw => ?_
  subst hw
  refine (Paired.same _).bind fun hops hops' hhops => ?_
  subst hhops
  have hchain : (ensureChain schema s 0 (w.chain.zip hops)).1.SameNodes
      (ensureChain schema t 0 (w.chain.zip hops)).1 ∧
      (ensureChain schema t 0 (w.chain.zip hops)).2 = (ensureChain schema s 0 (w.chain.zip hops)).2 :=
    h.ensureChain rfl (w.chain.zip hops)
  obtain ⟨hnodes, hindex⟩ := hchain
  rw [hindex]
  exact projectEnd_paired dedupe dedupe' hnodes w _

theorem projectPaths_paired : ∀ {s t : ScanPlan ι} (paths : List String), s.SameNodes t →
    Paired Eq (projectPaths schema root dedupe s paths) (projectPaths schema root dedupe' t paths)
      ScanPlan.SameNodes
  | _, _, [], h => .of_pure h
  | _, _, path :: rest, h =>
    (projectPath_paired dedupe dedupe' h path).bind fun _ _ h' => projectPaths_paired rest h'

/-- Projecting columns once, or as often as they are named, brings the same tables into scope. -/
theorem projection_paired (paths : List String) :
    Paired Eq (projection schema root dedupe paths) (projection schema root dedupe' paths)
      ScanPlan.SameNodes := by
  have hroot : (ScanPlan.withRoot root (schema root).table).SameNodes
      (.withRoot root (schema root).table) := rfl
  unfold projection
  dsimp only
  split
  · exact .of_pure (hroot.projectAll ..)
  · exact projectPaths_paired dedupe dedupe' paths hroot

end

/-! ## Orderings -/

/-- An item of an ordering is resolved if it is a computed column, or a path that has a column. -/
theorem resolveOrderingItem_succeeds {computed : List String} {item : String} {s : Scope} :
    (∃ sql t, Yields (resolveOrderingItem schema root computed item) s sql t) ↔
      ordersComputed computed item = true ∨ Resolves schema root (orderingPath item).1 := by
  unfold resolveOrderingItem ordersComputed
  rcases orderingPath item with ⟨path, descending⟩
  dsimp only
  by_cases hc : computed.contains path = true
  · rw [if_pos hc]
    exact ⟨fun _ => .inl hc, fun _ => ⟨_, s, rfl⟩⟩
  · rw [if_neg hc, or_iff_right hc]
    simp only [Yields.bind_iff, Yields.pure_iff]
    constructor
    · rintro ⟨_, _, column, t, hy, -⟩
      exact Resolves.of_yields hy
    · intro h
      obtain ⟨column, t, hy⟩ := h s
      exact ⟨_, t, column, t, hy, rfl, rfl⟩

variable {p : Plan ι} {paths : List String}

/-- What a query orders by can be found without its computed columns: an item that names one of them
is a path as well. -/
def Plan.OrdersPaths (schema : Schema ι) (p : Plan ι) : Prop :=
  ∀ item ∈ p.ordering schema false, ordersComputed (p.annotations.map (·.1)) item = true →
    Resolves schema p.model (orderingPath item).1

/-! ## SELECT of values -/

/-- The query whose tuples are read. -/
def Plan.uncomputed (p : Plan ι) : Plan ι := { p with annotations := [] }

open Expression (depth depthAll depthNamed planDepth)

/-- A query that can be selected can be resolved for its values, if its ordering can. -/
theorem Plan.resolve_uncomputed {r : ResolvedSelect ι} {t : Scope}
    (st : Plan.Stages schema { p with select := paths } paths false true {} r t)
    (he : p.error = none) :
    (∃ r' t', Yields (p.uncomputed.resolve schema paths false false) {} r' t') ↔
      p.OrdersPaths schema := by
  constructor
  · rintro ⟨r', t', hy⟩ item hitem -
    obtain ⟨-, ⟨st'⟩⟩ := Plan.stages hy
    obtain ⟨sql, u, v, hitem⟩ := st'.ordering.mem_mapM item hitem
    exact (resolveOrderingItem_succeeds.1 ⟨sql, v, hitem⟩).resolve_left
      (by simp [ordersComputed, Plan.uncomputed])
  · intro h
    have hprojection : Paired Eq (projection schema p.model true paths)
        (projection schema p.model false paths) ScanPlan.SameNodes := projection_paired true false paths
    obtain ⟨hq, hscope⟩ := hprojection st.explicit st.explicit rfl
    obtain ⟨scan, hscan, -⟩ := hq.exists_ok (congrArg Prod.fst st.projection)
    obtain ⟨filters, u, hfilters, -⟩ := (resolveFilters_unrelated p.filters).yields st.filters
      (outcome (projection schema p.model false paths) st.explicit).2
    have hordering : ∀ item ∈ p.ordering schema false, ∀ s, ∃ sql t,
        Yields (resolveOrderingItem schema p.model [] item) s sql t := by
      intro item hitem s
      refine resolveOrderingItem_succeeds.2 (.inr ?_)
      obtain ⟨sql, u, v, hresolved⟩ := st.ordering.mem_mapM item hitem
      rcases resolveOrderingItem_succeeds.1 ⟨sql, v, hresolved⟩ with hc | hpath
      · exact h item hitem hc
      · exact hpath
    obtain ⟨ordering, v, hordering⟩ := exists_yields_mapM hordering u
    have hcheck : p.uncomputed.check = .ok () := by
      simp [Plan.check, Plan.uncomputed, he]
    simp only [Plan.resolve, Resolving.ofResult, Yields.bind_iff, Yields.pure_iff,
      Yields.mk_pure_iff, Yields.get_iff]
    exact ⟨_, v, ⟨⟩, {}, ⟨hcheck, rfl⟩, ⟨⟩, st.explicit, st.joins, scan, _, Prod.ext hscan rfl, [], _,
      Yields.pure_iff.2 ⟨rfl, rfl⟩, filters, u, hfilters, ordering, v, hordering, v, v, ⟨rfl, rfl⟩,
      rfl, rfl⟩

/--
A query that selects certain paths can be read as tuples of them if and only if it orders by paths: the
SELECT of values has no computed columns, which the ordering may still name.
-/
theorem compileValues_accepts {c : Compiled ι}
    (h : compileSelect schema { p with select := paths } = .ok c) :
    (∃ c', compileValues schema p paths = .ok c') ↔ p.OrdersPaths schema := by
  obtain ⟨sql, scan, args, hw, rfl⟩ := compileSelect_cases h
  obtain ⟨r, scope, computed, mid, predicates, hres, -, hpred, -⟩ := Plan.writeSelect_cases hw
  obtain ⟨he, ⟨st⟩⟩ := Plan.stages hres
  rw [← Plan.resolve_uncomputed st he]
  constructor
  · rintro ⟨c', hc'⟩
    obtain ⟨_, _, _, hw', -⟩ := compileValues_cases hc'
    obtain ⟨r', t', _, _, _, hres', -⟩ := Plan.writeSelect_cases hw'
    exact ⟨r', t', hres'⟩
  · rintro ⟨r', t', hres'⟩
    obtain ⟨-, ⟨st'⟩⟩ := Plan.stages hres'
    obtain ⟨hannotations, -⟩ := Yields.pure_iff.1 st'.annotations
    obtain ⟨filters, u, hfilters, hsame, hdepth⟩ :=
      (resolveFilters_unrelated p.filters).yields st.filters st'.computed
    obtain rfl : filters = r'.filters :=
      Except.ok.inj (congrArg Prod.fst (hfilters.symm.trans st'.filters))
    have hdepths : depthAll p.filters ≤ min (planDepth { p with select := paths })
        (planDepth p.uncomputed) := by
      rw [Expression.planDepth_eq, Expression.planDepth_eq]
      simp only [Plan.uncomputed]
      omega
    have hnests : NestUnrelated _ (Plan.nestedIn schema { p with select := paths })
        (p.uncomputed.nestedIn schema) := Plan.writeNested_unrelated _ _
    obtain ⟨texts, args, hwritten, -⟩ :=
      (Expression.writeAll_unrelated hnests hsame (hdepth ▸ hdepths)).yields hpred []
    have hcomputed : Yields (writeAnnotations schema (p.uncomputed.nestedIn schema) r'.annotations)
        [] [] [] := by
      rw [← hannotations]
      exact Yields.pure_iff.2 ⟨rfl, rfl⟩
    have hselect := Plan.writeSelect_of_parts hres' hcomputed hwritten
    exact ⟨_, bind_eq_ok.2 ⟨(_, args), Binding.run_ok_iff.2 hselect, rfl⟩⟩

/-- Todos by their titles in capitals, which go by the name of the titles. -/
def loudTodos : Plan Sample :=
  (Plan.annotating Sample.schema { model := .todo } "title"
    (.func { text := "UPPER(%s)", fields := ["title"], params := [] })).ordered Sample.schema
      ["-title", "user.name"]

theorem loudTodos_accepted : ∃ c,
    compileSelect Sample.schema { loudTodos with select := ["tags.label", "id"] } = .ok c ∧
    ((∃ c', compileValues Sample.schema loudTodos ["tags.label", "id"] = .ok c') ↔
      loudTodos.OrdersPaths Sample.schema) := by
  obtain ⟨c, hc⟩ : ∃ c,
      compileSelect Sample.schema { loudTodos with select := ["tags.label", "id"] } = .ok c :=
    exists_eq_ok (by decide +kernel)
  exact ⟨c, hc, compileValues_accepts hc⟩

/-- Todos by their titles in capitals, under a name of their own. -/
def shoutedTodos : Plan Sample :=
  (Plan.annotating Sample.schema { model := .todo } "shout"
    (.func { text := "UPPER(%s)", fields := ["title"], params := [] })).ordered Sample.schema ["shout"]

/-- A query that is built without a mistake and can be selected, but not be read as values. -/
theorem shoutedTodos_refused : shoutedTodos.error.isNone = true ∧
    (∃ c, compileSelect Sample.schema { shoutedTodos with select := ["id"] } = .ok c) ∧
    compileValues Sample.schema shoutedTodos ["id"] = .error (.unknownField "todos" "shout") :=
  ⟨by decide +kernel, exists_eq_ok (by decide +kernel), rfl⟩

end Orm
