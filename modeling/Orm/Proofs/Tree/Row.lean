import Orm.Proofs.Instance
import Orm.Proofs.Outcome
import Orm.Proofs.Tree.Merge

/-
The tree of one row: every tree in it hangs below the one of its node's parent, once for a node, and has
the key that the row has at its node (`rowTree_fromRow`). The columns are taken one after the other: what
one of them changes is known (`RowValues.take_cases`), and what holds after each holds after all
(`RowValues.takeAll_induct`).
-/

namespace Orm

variable {ι : Type} {schema : Schema ι} {scan : ScanPlan ι}

/-! ## Columns -/

/-- The nodes that one column changes: that of its field, if it has one. -/
theorem RowValues.take_cases {k : Nat} {r r' : RowValues ι} {entry : ScanEntry ι} {v : Value}
    (h : r.take schema scan k entry v = .ok r') :
    (∃ name, entry.target = .computed name ∧ r'.nodes = r.nodes ∧
      r'.annotations = r.annotations ++ [(name, v)]) ∨
    ∃ node f n values values', entry.target = .field node f ∧ scan.nodes[node]? = some n ∧
      r.nodes[node]? = some values ∧
      values.take schema n.model (node == 0) (n.pkEntry == some k) f v = .ok values' ∧
      r'.nodes = r.nodes.set node values' ∧ r'.annotations = r.annotations := by
  rw [RowValues.take] at h
  split at h
  case h_1 name hentry =>
    obtain rfl := Except.ok.inj h
    exact .inl ⟨name, hentry, rfl, rfl⟩
  case h_2 node f hentry =>
    split at h
    case h_1 n values hnode hvalues =>
      obtain ⟨values', htake, h⟩ := bind_eq_ok.1 h
      obtain rfl := pure_eq_ok.1 h
      exact .inr ⟨node, f, n, values, values', hentry, hnode, hvalues, htake, rfl, rfl⟩
    case h_2 => cases h

theorem RowValues.takeAll_induct {P : List (ScanEntry ι × Value) → RowValues ι → Prop}
    {all : List (ScanEntry ι × Value)} {r r' : RowValues ι} (start : P [] r)
    (step : ∀ before entry v after r r', before ++ (entry, v) :: after = all → P before r →
      r.take schema scan before.length entry v = .ok r' → P (before ++ [(entry, v)]) r')
    (h : r.takeAll schema scan 0 all = .ok r') : P all r' := by
  have hrest : ∀ (rest before : List (ScanEntry ι × Value)) (r : RowValues ι),
      before ++ rest = all → P before r →
      r.takeAll schema scan before.length rest = .ok r' → P all r' := by
    intro rest
    induction rest with
    | nil =>
      intro before r hall hr ht
      rw [List.append_nil] at hall
      rw [← Except.ok.inj ht, ← hall]
      exact hr
    | cons c rest ih =>
      intro before r hall hr ht
      obtain ⟨entry, v⟩ := c
      rw [RowValues.takeAll] at ht
      obtain ⟨r₁, hr₁, ht⟩ := bind_eq_ok.1 ht
      refine ih (before ++ [(entry, v)]) r₁ ?_ (step before entry v rest r r₁ hall hr hr₁) ?_
      · rw [List.append_assoc]
        exact hall
      · rwa [List.length_append]
  exact hrest all [] r rfl start h

/-- The values of a node after one of them was replaced. -/
theorem getElem?_set_cases {α : Type} {l : List α} {i j : Nat} {a b : α}
    (h : (l.set i a)[j]? = some b) : j = i ∧ b = a ∨ j ≠ i ∧ l[j]? = some b := by
  rw [List.getElem?_set] at h
  split at h
  case isTrue heq =>
    split at h
    case isTrue => exact .inl ⟨heq.symm, (Option.some.inj h).symm⟩
    case isFalse => cases h
  case isFalse hne => exact .inr ⟨Ne.symm hne, h⟩

/-! ## Keys -/

/-- The field of a column that belongs to a node. -/
def ScanTarget.fieldAt (i : Nat) : ScanTarget ι → Option (FieldDef ι)
  | .field node f => if node = i then some f else none
  | .computed _ => none

/-- The key that a value of a field is, none for NULL. -/
def FieldDef.keyOf (f : FieldDef ι) (v : Value) : Option String :=
  ((f.type.normalize v).toOption.filter (!·.isNull)).map (·.groupKey)

/-- The key of a node among the columns of a row. -/
def ScanPlan.keyAmong (scan : ScanPlan ι) (columns : List (ScanEntry ι × Value)) (i : Nat) :
    Option String :=
  (scan.nodes[i]?.bind (·.pkEntry)).bind fun e =>
    (columns[e]?).bind fun c => (c.1.target.fieldAt i).bind (·.keyOf c.2)

/-- The key that a row has at a node: the value of the column that holds the node's primary key. -/
def ScanPlan.keyIn (scan : ScanPlan ι) (row : List Value) (i : Nat) : Option String :=
  scan.keyAmong (scan.entries.zip row) i

theorem ScanPlan.keyAmong_snoc (columns : List (ScanEntry ι × Value)) (c : ScanEntry ι × Value)
    (i : Nat) : scan.keyAmong (columns ++ [c]) i =
      if scan.nodes[i]?.bind (·.pkEntry) = some columns.length then
        ((c.1.target.fieldAt i).bind (·.keyOf c.2)).or (scan.keyAmong columns i)
      else scan.keyAmong columns i := by
  rw [keyAmong, keyAmong]
  cases h : scan.nodes[i]?.bind (·.pkEntry) with
  | none => simp
  | some e =>
    simp only [Option.some.injEq, Option.bind_some]
    by_cases he : e = columns.length
    · subst he
      rw [if_pos rfl, List.getElem?_concat_length, List.getElem?_eq_none (Nat.le_refl _)]
      simp
    · rw [if_neg he]
      by_cases hlt : e < columns.length
      · rw [List.getElem?_append_left hlt]
      · rw [List.getElem?_eq_none (by simp; omega), List.getElem?_eq_none (by omega)]

/-! ## The values of a row -/

/-- What a row has brought to the nodes, after the given columns. -/
structure RowValues.From (schema : Schema ι) (scan : ScanPlan ι)
    (columns : List (ScanEntry ι × Value)) (r : RowValues ι) : Prop where
  key : ∀ i n, r.nodes[i]? = some n → n.key = scan.keyAmong columns i
  bare : ∀ (i : Nat) (n : NodeValues ι) x, r.nodes[i]? = some n → n.instance_ = some x → x.Bare schema

theorem NodeValues.take_ok {model : ι} {isRoot isKey : Bool} {f : FieldDef ι} {n n' : NodeValues ι}
    {v : Value} (h : n.take schema model isRoot isKey f v = .ok n') :
    (n'.key = if isKey = true then (f.keyOf v).or n.key else n.key) ∧
      ((∀ x, n.instance_ = some x → x.Bare schema) → ∀ x, n'.instance_ = some x → x.Bare schema) := by
  simp only [NodeValues.take, bind_eq_ok] at h
  obtain ⟨w, hw, h⟩ := h
  have hkey : f.keyOf v = if w.isNull = true then none else some w.groupKey := by
    rw [FieldDef.keyOf, hw]
    cases hn : w.isNull <;> simp [Except.toOption, hn]
  split at h
  · rename_i hnull
    rw [Bool.and_eq_true] at hnull
    obtain rfl := pure_eq_ok.1 h
    refine ⟨?_, fun hx => hx⟩
    rw [hkey, hnull.1]
    cases isKey <;> simp
  · rename_i hnull
    obtain ⟨-, -, h⟩ := bind_eq_ok.1 h
    obtain rfl := pure_eq_ok.1 h
    refine ⟨?_, fun hx x hx' => ?_⟩
    · rw [hkey]
      cases isKey <;> cases w.isNull <;> simp
    · obtain rfl := Option.some.inj hx'
      cases hn : n.instance_ with
      | none => exact (Instance.Bare.new schema model).setValue f.name w
      | some x => exact (hx x hn).setValue f.name w

theorem RowValues.From.take {columns : List (ScanEntry ι × Value)} {r r' : RowValues ι}
    {entry : ScanEntry ι} {v : Value} (h : r.From schema scan columns)
    (ht : r.take schema scan columns.length entry v = .ok r') :
    r'.From schema scan (columns ++ [(entry, v)]) := by
  obtain ⟨name, hentry, hnodes, -⟩ | ⟨node, f, n, values, values', hentry, hnode, hvalues, htake, hnodes, -⟩ :=
    RowValues.take_cases ht
  · refine ⟨fun i n hn => ?_, fun i n x hn hx => h.bare i n x (hnodes ▸ hn) hx⟩
    rw [hnodes] at hn
    rw [ScanPlan.keyAmong_snoc, h.key i n hn, hentry]
    split <;> rfl
  · obtain ⟨hkey, hbare⟩ := NodeValues.take_ok htake
    refine ⟨fun i m hm => ?_, fun i m x hm hx => ?_⟩
    · rw [ScanPlan.keyAmong_snoc, hentry, ScanTarget.fieldAt]
      obtain ⟨rfl, rfl⟩ | ⟨hi, hm⟩ := getElem?_set_cases (hnodes ▸ hm)
      · rw [hkey, hnode, h.key i values hvalues, if_pos rfl]
        simp
      · rw [if_neg (Ne.symm hi), h.key i m hm]
        split <;> rfl
    · obtain ⟨rfl, rfl⟩ | ⟨-, hm⟩ := getElem?_set_cases (hnodes ▸ hm)
      · exact hbare (fun x => h.bare i values x hvalues) x hx
      · exact h.bare i m x hm hx

theorem RowValues.From.takeAll {columns : List (ScanEntry ι × Value)} {r r' : RowValues ι}
    (h : r.From schema scan []) (ht : r.takeAll schema scan 0 columns = .ok r') :
    r'.From schema scan columns :=
  RowValues.takeAll_induct (P := fun columns r => r.From schema scan columns) h
    (fun _ _ _ _ _ _ _ h ht => h.take ht) ht

/-! ## The tree of a row -/

/-- The node above a node. -/
def ScanPlan.parentAt (scan : ScanPlan ι) (i : Nat) : Option Nat := scan.nodes[i]?.bind (·.parent)

/-- What holds of every tree in the tree of a row. -/
structure Tree.FromRow (schema : Schema ι) (scan : ScanPlan ι) (row : List Value) (t : Tree ι) :
    Prop where
  key : t.key = scan.keyIn row t.index
  bare : t.root.Bare schema
  nodup : (t.children.map Tree.index).Nodup
  parent : ∀ c ∈ t.children, scan.parentAt c.index = some t.index

/-- What holds of every tree in the tree of a row whatever the row is. -/
structure Tree.Built (schema : Schema ι) (scan : ScanPlan ι) (t : Tree ι) : Prop where
  bare : t.root.Bare schema
  nodup : (t.children.map Tree.index).Nodup
  parent : ∀ c ∈ t.children, scan.parentAt c.index = some t.index

/-- The trees that are not yet hung while those of the nodes in `left` are still to be. -/
def Unhung (schema : Schema ι) (scan : ScanPlan ι) (row : List Value) (left : List Nat)
    (trees : List (Option (Tree ι))) : Prop :=
  ∀ (i : Nat) (t : Tree ι), trees[i]? = some (some t) →
    t.index = i ∧ t.Every (Tree.FromRow schema scan row) ∧
    ∀ c ∈ t.children, c.index ∉ left

theorem seeds_unhung {row : List Value} {r : RowValues ι}
    (h : r.From schema scan (scan.entries.zip row)) (present : List Bool) (left : List Nat) :
    Unhung schema scan row left (seeds schema scan r.nodes present) := by
  intro i t ht
  rw [seeds, List.getElem?_map] at ht
  obtain ⟨j, hj, ht⟩ := Option.map_eq_some_iff.1 ht
  obtain ⟨_, hj⟩ := List.getElem?_eq_some_iff.1 hj
  rw [List.getElem_range] at hj
  subst hj
  split at ht
  · rename_i n v hn hv _
    obtain rfl := Option.some.inj ht
    refine ⟨rfl, .intro ⟨h.key _ v hv, ?_, List.nodup_nil, ?_⟩ ?_, ?_⟩
    · cases hx : v.instance_ with
      | none => exact .new schema n.model
      | some x => exact h.bare _ v x hv hx
    all_goals exact fun c hc => absurd hc List.not_mem_nil
  · cases ht

theorem Unhung.mono {row : List Value} {left more : List Nat} {trees : List (Option (Tree ι))}
    (h : Unhung schema scan row more trees) (hsub : ∀ i ∈ left, i ∈ more) :
    Unhung schema scan row left trees := by
  intro i t ht
  obtain ⟨hindex, hevery, hleft⟩ := h i t ht
  exact ⟨hindex, hevery, fun c hc hmem => hleft c hc (hsub _ hmem)⟩

@[simp] theorem Tree.addChild_index (child t : Tree ι) : (Tree.addChild child t).index = t.index := by
  cases t
  rfl

@[simp] theorem Tree.addChild_root (child t : Tree ι) : (Tree.addChild child t).root = t.root := by
  cases t
  rfl

@[simp] theorem Tree.addChild_children (child t : Tree ι) :
    (Tree.addChild child t).children = child :: t.children := by
  cases t
  rfl

/-- What holds all over two trees holds all over the second with the first below it, if it holds of that
as a whole. -/
theorem Tree.Every.addChild {P : Tree ι → Prop} {child t : Tree ι} (hc : child.Every P) (ht : t.Every P)
    (h : P (Tree.addChild child t)) : (Tree.addChild child t).Every P := by
  refine .intro h ?_
  rw [addChild_children]
  exact List.forall_mem_cons.2 ⟨hc, ht.under⟩

/-- A tree hung below one that had none of that node. -/
theorem addChild_fromRow {row : List Value} {t child : Tree ι}
    (ht : t.Every (Tree.FromRow schema scan row)) (hc : child.Every (Tree.FromRow schema scan row))
    (hnew : ∀ c ∈ t.children, c.index ≠ child.index)
    (hp : scan.parentAt child.index = some t.index) :
    (Tree.addChild child t).Every (Tree.FromRow schema scan row) := by
  refine hc.addChild ht ?_
  cases t with
  | node i k x ts =>
    obtain ⟨hkey, hbare, hnodup, hparent⟩ := ht.here
    refine ⟨hkey, hbare, ?_, List.forall_mem_cons.2 ⟨hp, hparent⟩⟩
    refine List.nodup_cons.2 ⟨fun hmem => ?_, hnodup⟩
    obtain ⟨c, hc, heq⟩ := List.mem_map.1 hmem
    exact hnew c hc heq

/-- A tree after one has been hung: as it was, or with that one below it. -/
theorem hang_cases {i j : Nat} {trees : List (Option (Tree ι))} {t : Tree ι}
    (h : (hang scan trees i)[j]? = some (some t)) :
    trees[j]? = some (some t) ∨ ∃ child u, trees[i]? = some (some child) ∧
      scan.parentAt i = some j ∧ trees[j]? = some (some u) ∧ t = Tree.addChild child u := by
  have hset : ∀ {t : Tree ι}, (trees.set i none)[j]? = some (some t) → trees[j]? = some (some t) := by
    intro t ht
    obtain ⟨-, ht⟩ | ⟨-, ht⟩ := getElem?_set_cases ht
    · cases ht
    · exact ht
  rw [hang] at h
  split at h
  case h_1 child hchild =>
    split at h
    case h_1 p hp =>
      rw [List.getElem?_modify] at h
      split at h
      case isTrue hj =>
        subst hj
        obtain ⟨o, ho, h⟩ := Option.map_eq_some_iff.1 h
        obtain ⟨u, rfl, rfl⟩ := Option.map_eq_some_iff.1 h
        exact .inr ⟨child, u, hchild, hp, hset ho, rfl⟩
      case isFalse =>
        exact .inl (hset (by simpa using h))
    case h_2 => exact .inl (hset h)
  case h_2 => exact .inl h

/-- What holds of a tree whatever is hung below it holds of all trees in the end. -/
theorem foldl_hang_every {P : Tree ι → Prop} (hP : ∀ child t, P t → P (Tree.addChild child t))
    {left : List Nat} {trees : List (Option (Tree ι))}
    (h : ∀ (i : Nat) t, trees[i]? = some (some t) → t.Every P) :
    ∀ (i : Nat) t, (left.foldl (hang scan) trees)[i]? = some (some t) → t.Every P := by
  induction left generalizing trees with
  | nil => exact h
  | cons i left ih =>
    refine ih fun j t ht => ?_
    obtain ht | ⟨child, u, hchild, -, hu, rfl⟩ := hang_cases ht
    · exact h j t ht
    · exact (h i child hchild).addChild (h j u hu) (hP child u (h j u hu).here)

theorem hang_unhung {row : List Value} {i : Nat} {left : List Nat} {trees : List (Option (Tree ι))}
    (hi : i ∉ left) (h : Unhung schema scan row (i :: left) trees) :
    Unhung schema scan row left (hang scan trees i) := by
  intro j t ht
  obtain ht | ⟨child, u, hchild, hp, hu, rfl⟩ := hang_cases ht
  · exact h.mono (fun k hk => List.mem_cons_of_mem i hk) j t ht
  · obtain ⟨hindex, hevery, -⟩ := h i child hchild
    obtain ⟨hindex', hevery', hleft⟩ := h j u hu
    have hnew : ∀ c ∈ u.children, c.index ≠ child.index := fun c hc heq =>
      hleft c hc (heq.trans hindex ▸ List.mem_cons_self)
    refine ⟨?_, addChild_fromRow hevery' hevery hnew (by rw [hindex, hindex']; exact hp), ?_⟩
    · rw [Tree.addChild_index]
      exact hindex'
    · rw [Tree.addChild_children]
      refine List.forall_mem_cons.2 ⟨hindex ▸ hi, fun c hc hmem => ?_⟩
      exact hleft c hc (List.mem_cons_of_mem i hmem)

theorem foldl_hang_unhung {row : List Value} {left : List Nat} {trees : List (Option (Tree ι))}
    (hn : left.Nodup) (h : Unhung schema scan row left trees) :
    Unhung schema scan row [] (left.foldl (hang scan) trees) := by
  induction left generalizing trees with
  | nil => exact h
  | cons i left ih =>
    obtain ⟨hi, hn⟩ := List.nodup_cons.1 hn
    exact ih hn (hang_unhung hi h)

/-- Computed values are kept apart from the fields. -/
theorem annotateAll_same {x y : Instance ι} {computed : List (String × Value)}
    (h : annotateAll schema x computed = .ok y) : y.model = x.model ∧ y.slots = x.slots := by
  induction computed generalizing x with
  | nil =>
    obtain rfl := Except.ok.inj h
    exact ⟨rfl, rfl⟩
  | cons a computed ih =>
    obtain ⟨name, v⟩ := a
    rw [annotateAll, Instance.annotate] at h
    by_cases ha : (schema x.model).annotated = true
    · rw [if_pos ha] at h
      exact ih (x := { x with annotations := _ }) h
    · rw [if_neg ha] at h
      cases h

theorem annotateAll_bare {x y : Instance ι} {computed : List (String × Value)} (hx : x.Bare schema)
    (h : annotateAll schema x computed = .ok y) : y.Bare schema := by
  obtain ⟨hmodel, hslots⟩ := annotateAll_same h
  refine ⟨?_, fun name rs hrs => hx.collections name rs ?_⟩
  · rw [hslots, hmodel]
    exact hx.names
  · rwa [Instance.slot?, hslots] at hrs

/-- How the tree of a row is made: from what its columns bring, the trees hung below each other, and the
computed values. -/
theorem rowTree_cases {row : List Value} {t : Tree ι} (h : rowTree schema scan row = .ok t) :
    row.length = scan.entries.length ∧ ∃ r u y,
      RowValues.takeAll schema scan 0 { nodes := scan.nodes.map fun _ => {} } (scan.entries.zip row) =
        .ok r ∧
      ((nodesUpward scan).foldl (hang scan) (seeds schema scan r.nodes (presence scan r.nodes)))[0]? =
        some (some u) ∧
      annotateAll schema u.root r.annotations = .ok y ∧ t = .node u.index u.key y u.children := by
  rw [rowTree] at h
  split at h
  case isTrue => cases h
  case isFalse hlength =>
    obtain ⟨-, -, h⟩ := bind_eq_ok.1 h
    obtain ⟨r, hr, h⟩ := bind_eq_ok.1 h
    dsimp only at h
    split at h
    case h_1 i k x children rest heq =>
      obtain ⟨y, hy, h⟩ := bind_eq_ok.1 h
      obtain rfl := pure_eq_ok.1 h
      exact ⟨by simpa using hlength, r, .node i k x children, y, hr, by rw [heq]; rfl, hy, rfl⟩
    case h_2 => cases h

/-- The tree of a row is one of the root, and all trees in it are from the row. -/
theorem rowTree_fromRow {row : List Value} {t : Tree ι} (h : rowTree schema scan row = .ok t) :
    t.index = 0 ∧ t.Every (Tree.FromRow schema scan row) := by
  obtain ⟨-, r, u, y, hr, hu, hy, rfl⟩ := rowTree_cases h
  have hstart : RowValues.From schema scan [] { nodes := scan.nodes.map fun _ => {} } := by
    refine ⟨fun i n hn => ?_, fun i n x hn hx => ?_⟩
    all_goals
      rw [List.getElem?_map] at hn
      obtain ⟨m, -, rfl⟩ := Option.map_eq_some_iff.1 hn
    · cases h : scan.nodes[i]?.bind (·.pkEntry) <;> simp [ScanPlan.keyAmong, h]
    · cases hx
  have hnodup : (nodesUpward scan).Nodup := by
    rw [nodesUpward, List.nodup_reverse]
    exact List.nodup_range.sublist (List.drop_sublist 1 _)
  have hunhung := foldl_hang_unhung hnodup (seeds_unhung (hstart.takeAll hr) (presence scan r.nodes) _)
  obtain ⟨hindex, hevery, -⟩ := hunhung 0 u hu
  obtain ⟨hkey, hbare, hnodup, hparent⟩ := hevery.here
  have hy : y.Bare schema := annotateAll_bare hbare hy
  exact ⟨hindex, .intro ⟨hkey, hy, hnodup, hparent⟩ hevery.under⟩

end Orm
