import Orm.Proofs.Fault.Materialize
import Orm.Proofs.Legible.Key
import Orm.Proofs.Tree.Marked

/-
Rows are merged by their keys only. Every root key has an instance of its own, and so has every row
without one; below an instance it is the same with what a collection takes. Keys are compared by their
texts, so this keeps apart what the texts tell apart (`materialize_keeps_apart`).
-/

namespace Orm

variable {ι : Type} {schema : Schema ι} {scan : ScanPlan ι} {root : ι}

/-! ## The keys of rows -/

/-- The key that a value of a field is, as the field reads it; none for NULL. -/
def FieldDef.keyValueOf (f : FieldDef ι) (v : Value) : Option Value :=
  (f.type.normalize v).toOption.filter (!·.isNull)

namespace ScanPlan

/-- The value of the key that a row has at a node. -/
def keyValueIn (scan : ScanPlan ι) (row : List Value) (i : Nat) : Option Value :=
  (scan.nodes[i]?.bind (·.pkEntry)).bind fun e =>
    ((scan.entries.zip row)[e]?).bind fun c => (c.1.target.fieldAt i).bind (·.keyValueOf c.2)

theorem keyIn_eq (scan : ScanPlan ι) (row : List Value) (i : Nat) :
    scan.keyIn row i = (scan.keyValueIn row i).map (·.groupKey) := by
  simp only [keyIn, keyAmong, keyValueIn, Option.map_bind, Function.comp_def]
  rfl

/-- The key of the `i`-th row at a node, its own one or the one that the row gives. -/
def markIn (scan : ScanPlan ι) (row : List Value) (i j : Nat) : String :=
  (scan.keyIn row j).getD (rowMark i)

/-- Two rows have different values for the key of a node, and their texts tell them apart. -/
def DifferAt (scan : ScanPlan ι) (row row' : List Value) (j : Nat) : Prop :=
  ∃ v w, scan.keyValueIn row j = some v ∧ scan.keyValueIn row' j = some w ∧
    v.toldApart w = true ∧ v ≠ w

theorem DifferAt.markIn_ne {row row' : List Value} {j : Nat} (h : scan.DifferAt row row' j)
    (i i' : Nat) : scan.markIn row i j ≠ scan.markIn row' i' j := by
  obtain ⟨v, w, hv, hw, htold, hne⟩ := h
  rw [markIn, markIn, keyIn_eq, keyIn_eq, hv, hw]
  exact fun heq => hne (Value.groupKey_inj htold heq)

end ScanPlan

/-! ## What stands for a tree -/

/-- The tree of the `i`-th row, in which every instance has a key. -/
structure Tree.OfRow (schema : Schema ι) (scan : ScanPlan ι) (row : List Value) (i : Nat)
    (t : Tree ι) : Prop where
  marked : ∃ u, rowTree schema scan row = .ok u ∧ t = u.marked (rowMark i)
  keys : t.Every fun u => u.key = some (scan.markIn row i u.index)

theorem Tree.OfRow.of_rowTree {row : List Value} {u : Tree ι} (h : rowTree schema scan row = .ok u)
    (i : Nat) : Tree.OfRow schema scan row i (u.marked (rowMark i)) := by
  refine ⟨⟨u, h, rfl⟩, (rowTree_fromRow h).2.marked fun v hv => ?_⟩
  rw [marked_key, marked_index, hv.key]
  rfl

theorem Tree.OfRow.key {row : List Value} {i : Nat} {t : Tree ι} (h : Tree.OfRow schema scan row i t) :
    t.key = some (scan.markIn row i 0) := by
  obtain ⟨u, hu, rfl⟩ := h.marked
  rw [h.keys.here, marked_index, (rowTree_fromRow hu).1]

/-- The instance at a position stands for a tree, together with the group that the tree is in. -/
def ShownAt (schema : Schema ι) (scan : ScanPlan ι) (groups : List (List (Tree ι)))
    (xs : List (Instance ι)) (p : Nat) (t : Tree ι) : Prop :=
  ∃ g x, groups[p]? = some g ∧ t ∈ g ∧ xs[p]? = some x ∧ Represents schema scan g x

/-- Two trees are shown by different instances. -/
def ShownApart (schema : Schema ι) (scan : ScanPlan ι) (groups : List (List (Tree ι)))
    (xs : List (Instance ι)) (t u : Tree ι) : Prop :=
  ∃ p q, p ≠ q ∧ ShownAt schema scan groups xs p t ∧ ShownAt schema scan groups xs q u

theorem shownApart_of_ne {κ : Type} [DecidableEq κ] {slot : Tree ι → κ} {ts : List (Tree ι)}
    {xs : List (Instance ι)} (h : List.Forall₂ (Represents schema scan) (groupsBy slot ts) xs)
    {t u : Tree ι} (ht : t ∈ ts) (hu : u ∈ ts) (hne : slot t ≠ slot u) :
    ShownApart schema scan (groupsBy slot ts) xs t u := by
  obtain ⟨p, x, hp, hg, hx, hrep⟩ := exists_of_mem_groupsBy h ht
  obtain ⟨q, y, hq, hg', hy, hrep'⟩ := exists_of_mem_groupsBy h hu
  refine ⟨p, q, ?_, ⟨_, x, hg, by simp [ht], hx, hrep⟩, ⟨_, y, hg', by simp [hu], hy, hrep'⟩⟩
  rintro rfl
  exact hne (Option.some.inj (hp.symm.trans hq))

/-- What a collection takes is shown apart where the keys are not the same. -/
theorem Represents.children_apart {ts : List (Tree ι)} {x : Instance ι}
    (h : Represents schema scan ts x) {j : Nat} (hj : scan.collects j = true) {c d : Tree ι}
    (hc : c ∈ Tree.childrenAt ts j) (hd : d ∈ Tree.childrenAt ts j) (hne : c.key ≠ d.key) :
    ∃ f ys, scan.relationAt j = some f ∧ x.relatedMany schema f.name = .ok ys ∧
      ShownApart schema scan (Tree.groupsAt scan ts j) ys c d := by
  cases h with
  | intro behind _ _ _ _ hbehind hgroups =>
    obtain ⟨f, hf, hys⟩ := hbehind j (List.ne_nil_of_mem hc)
    rw [hj] at hys
    refine ⟨f, behind j, hf, hys, shownApart_of_ne (hgroups j) hc hd ?_⟩
    simpa [Tree.keyAt, hj] using hne

/-! ## All rows -/

theorem forall₂_markRows {rows : List (List Value)} {trees : List (Tree ι)}
    (h : List.Forall₂ (fun row t => rowTree schema scan row = .ok t) rows trees) (i : Nat) :
    List.Forall₂ (fun r t => Tree.OfRow schema scan r.1 r.2 t) (rows.zipIdx i) (markRows i trees) := by
  induction h generalizing i with
  | nil => exact .nil
  | cons hrow _ ih => exact .cons (.of_rowTree hrow i) (ih (i + 1))

section

variable [DecidableEq ι]

/-- Grouped rows give one instance for each root key, and one for each row without. -/
theorem materialize_marked {calledOff : CalledOff} {rows : List (List Value)}
    {out : List (Instance ι)} (hg : scan.groupRows = true) (hs : scan.SiblingsDistinct)
    (h : materialize schema scan rows calledOff = .ok out) :
    ∃ trees, List.Forall₂ (fun r t => Tree.OfRow schema scan r.1 r.2 t) rows.zipIdx trees ∧
      List.Forall₂ (Represents schema scan) (groupsBy Tree.key trees) out := by
  obtain ⟨merged, hmerged, hout⟩ := bind_eq_ok.1 h
  obtain ⟨trees, htrees, rfl⟩ := rowTrees_ok hmerged
  have hrows := forall₂_markRows htrees 0
  have hfrom : ∀ t ∈ trees, ∃ row, t.Every (Tree.FromRow schema scan row) :=
    forall_mem_of_forall₂ htrees fun row _ t ht => ⟨row, (rowTree_fromRow ht).2⟩
  have hproper : ∀ t ∈ markRows 0 trees, t.index = 0 ∧ t.Every (Tree.Proper schema scan) :=
    forall_mem_of_forall₂ hrows fun r _ t ht => by
      obtain ⟨u, hu, rfl⟩ := ht.marked
      obtain ⟨hindex, hu⟩ := rowTree_fromRow hu
      exact ⟨(Tree.marked_index _ u).trans hindex, hu.marked fun v hv => hv.marked_proper⟩
  have hnone : LackFrom 0 ([] : List (Tree ι)) := fun t ht => absurd ht List.not_mem_nil
  have hmarked := foldl_placeTree_marked hg hfrom hnone
  rw [List.map_nil] at hmarked
  rw [← hmarked] at hout
  have hattached := List.forall₂_map_left_iff.1 (forall₂_of_mapM_eq_ok hout)
  refine ⟨markRows 0 trees, hrows, ?_⟩
  refine forall₂_trans (forall₂_gatherAll (Tree.merge_key scan) _) hattached
    fun g hg u _ x hu hx => ?_
  rw [Tree.attach_unmarked] at hx
  exact Tree.represents_of_attach hs u hu ⟨0, fun t ht => hproper t (mem_of_mem_groupsBy hg ht)⟩ hx

/--
Rows that have trees are materialized, and grouped rows are merged by their keys only. Each instance
stands for the trees of one root key, or for the one of a row without. Rows whose root keys are told
apart are shown by different instances, and so are, in the collections of one instance, trees whose keys
are.
-/
theorem materialize_keeps_apart :
    (∀ (scan : ScanPlan ι) (root : ι) (calledOff : CalledOff) (rows : List (List Value)),
      FieldNamesDistinct schema → scan.WellFormed schema root →
      (∀ row ∈ rows, ∃ t, rowTree schema scan row = .ok t) →
      (∀ i, i < rows.length → calledOff i = false) →
      ∃ out, materialize schema scan rows calledOff = .ok out) ∧
    ∀ (scan : ScanPlan ι) (calledOff : CalledOff) (rows : List (List Value)) (out : List (Instance ι)),
      scan.groupRows = true → scan.SiblingsDistinct →
      materialize schema scan rows calledOff = .ok out →
      ∃ trees, List.Forall₂ (fun r t => Tree.OfRow schema scan r.1 r.2 t) rows.zipIdx trees ∧
        List.Forall₂ (Represents schema scan) (groupsBy Tree.key trees) out ∧
        (∀ r ∈ rows.zipIdx, ∀ r' ∈ rows.zipIdx, scan.DifferAt r.1 r'.1 0 →
          ∃ t u, Tree.OfRow schema scan r.1 r.2 t ∧ Tree.OfRow schema scan r'.1 r'.2 u ∧
            ShownApart schema scan (groupsBy Tree.key trees) out t u) ∧
        ∀ ts x, Represents schema scan ts x → ∀ j, scan.collects j = true →
          ∀ c ∈ Tree.childrenAt ts j, ∀ d ∈ Tree.childrenAt ts j, ∀ row i row' i',
          c.key = some (scan.markIn row i j) → d.key = some (scan.markIn row' i' j) →
          scan.DifferAt row row' j →
          ∃ f ys, scan.relationAt j = some f ∧ x.relatedMany schema f.name = .ok ys ∧
            ShownApart schema scan (Tree.groupsAt scan ts j) ys c d := by
  constructor
  · exact fun scan root calledOff rows hn hw hrows hoff => materialize_total hn hw hrows hoff
  intro scan calledOff rows out hg hs h
  obtain ⟨trees, htrees, hout⟩ := materialize_marked hg hs h
  have hof : ∀ r ∈ rows.zipIdx, ∃ t ∈ trees, Tree.OfRow schema scan r.1 r.2 t :=
    forall_mem_of_forall₂ (List.Forall₂.flip htrees) fun t ht _ hr => ⟨t, ht, hr⟩
  refine ⟨trees, htrees, hout, fun r hr r' hr' hdiffer => ?_, ?_⟩
  · obtain ⟨t, ht, hrt⟩ := hof r hr
    obtain ⟨u, hu, hru⟩ := hof r' hr'
    refine ⟨t, u, hrt, hru, shownApart_of_ne hout ht hu fun heq => ?_⟩
    rw [hrt.key, hru.key] at heq
    exact hdiffer.markIn_ne r.2 r'.2 (Option.some.inj heq)
  · intro ts x hx j hj c hc d hd row i row' i' hck hdk hdiffer
    refine hx.children_apart hj hc hd fun heq => ?_
    rw [hck, hdk] at heq
    exact hdiffer.markIn_ne i i' (Option.some.inj heq)

end

/-! ## Samples -/

theorem ScanPlan.differAt_of_int {row row' : List Value} {j : Nat} {m n : Int64}
    (hm : (scan.keyValueIn row j).bind Value.int? = some m)
    (hn : (scan.keyValueIn row' j).bind Value.int? = some n) (hne : m ≠ n) :
    scan.DifferAt row row' j := by
  have hint : ∀ {o : Option Value} {k : Int64}, o.bind Value.int? = some k → o = some (.int k) := by
    rintro (_ | v) k h
    · cases h
    · cases v <;> cases h
      rfl
  exact ⟨.int m, .int n, hint hm, hint hn, rfl, fun heq => hne (Value.int.inj heq)⟩

/-- The tree of a row has one at a node right below its root. -/
theorem Tree.OfRow.child {row : List Value} {i j : Nat} {t : Tree ι}
    (h : Tree.OfRow schema scan row i t)
    (hj : (rowTree schema scan row).toOption.any (·.children.any (·.index == j)) = true) :
    ∃ c ∈ t.children, c.index = j ∧ c.key = some (scan.markIn row i j) := by
  obtain ⟨u, hu, rfl⟩ := h.marked
  rw [hu] at hj
  obtain ⟨c, hc, hindex⟩ := List.any_eq_true.1 hj
  have hmem : c.marked (rowMark i) ∈ (u.marked (rowMark i)).children := by
    rw [marked_children]
    exact List.mem_map_of_mem hc
  have hkey := (h.keys.under _ hmem).here
  rw [marked_index, beq_iff_eq.1 hindex] at hkey
  exact ⟨_, hmem, by rw [marked_index, beq_iff_eq.1 hindex], hkey⟩

/-- A user's todo, without tags. -/
def todoOf (user todo : Int64) : List Value :=
  [.string "Ann", .int todo, .string "wash", .null, .null, .int user]

theorem todosOfUsers_keeps_apart : ∃ c out trees,
    compileSelect Sample.schema todosOfUsers = .ok c ∧ c.scan.groupRows = true ∧
    materialize Sample.schema c.scan [todoOf 1 5, todoOf 2 6, todoOf 1 7] (fun _ => false) = .ok out ∧
    List.Forall₂ (Represents Sample.schema c.scan) (groupsBy Tree.key trees) out ∧
    (∃ t u, Tree.OfRow Sample.schema c.scan (todoOf 1 5) 0 t ∧
      Tree.OfRow Sample.schema c.scan (todoOf 2 6) 1 u ∧
      ShownApart Sample.schema c.scan (groupsBy Tree.key trees) out t u) ∧
    ∃ (ts : List (Tree Sample)) (x : Instance Sample) (f : FieldDef Sample) (ys : List (Instance Sample))
      (c' d : Tree Sample), x ∈ out ∧ Represents Sample.schema c.scan ts x ∧
      c.scan.relationAt 1 = some f ∧ x.relatedMany Sample.schema f.name = .ok ys ∧
      c'.key = some (c.scan.markIn (todoOf 1 5) 0 1) ∧ d.key = some (c.scan.markIn (todoOf 1 7) 2 1) ∧
      ShownApart Sample.schema c.scan (Tree.groupsAt c.scan ts 1) ys c' d := by
  obtain ⟨c, hc⟩ : ∃ c, compileSelect Sample.schema todosOfUsers = .ok c :=
    exists_eq_ok (by decide +kernel)
  have hchecked : (compileSelect Sample.schema todosOfUsers).toOption.all (fun c =>
      c.scan.groupRows && c.scan.collects 1 &&
      [todoOf 1 5, todoOf 2 6, todoOf 1 7].all (fun row =>
        (rowTree Sample.schema c.scan row).toOption.any (·.children.any (·.index == 1))) &&
      (c.scan.keyValueIn (todoOf 1 5) 0).bind Value.int? == some 1 &&
      (c.scan.keyValueIn (todoOf 2 6) 0).bind Value.int? == some 2 &&
      (c.scan.keyValueIn (todoOf 1 5) 1).bind Value.int? == some 5 &&
      (c.scan.keyValueIn (todoOf 1 7) 1).bind Value.int? == some 7 &&
      c.scan.keyIn (todoOf 1 5) 0 == some "v:1" && c.scan.keyIn (todoOf 1 7) 0 == some "v:1") = true := by
    decide +kernel
  rw [hc] at hchecked
  simp only [Except.toOption, Option.all_some, Bool.and_eq_true, beq_iff_eq] at hchecked
  obtain ⟨⟨⟨⟨⟨⟨⟨⟨hgroup, hcollects⟩, hrows⟩, h₁⟩, h₂⟩, h₅⟩, h₇⟩, hkey⟩, hkey'⟩ := hchecked
  rw [List.all_eq_true] at hrows
  have hclean : Clean Sample.schema Sample.user []
      (todosOfUsers.scope Sample.schema).aliases := ⟨by decide +kernel, by simp⟩
  have hsiblings : c.scan.SiblingsDistinct :=
    compileSelect_siblingsDistinct sample_fieldNamesDistinct sample_joinKeysDistinct hclean hc
  have hwell : c.scan.WellFormed Sample.schema .user :=
    compileSelect_wellFormed sample_joinKeysDistinct sample_keysOwnColumns (by decide +kernel) hc
  obtain ⟨out, hout⟩ := materialize_keeps_apart.1 c.scan Sample.user (fun _ => false)
    [todoOf 1 5, todoOf 2 6, todoOf 1 7] sample_fieldNamesDistinct hwell
    (fun row hrow => by
      have hrow := hrows row hrow
      cases htree : rowTree Sample.schema c.scan row with
      | error e => simp [htree] at hrow
      | ok t => exact ⟨t, rfl⟩)
    fun _ _ => rfl
  obtain ⟨trees, htrees, hreps, hroots, hbelow⟩ :=
    materialize_keeps_apart.2 c.scan (fun _ => false) _ out hgroup hsiblings hout
  refine ⟨c, out, trees, hc, hgroup, hout, hreps, ?_, ?_⟩
  · exact hroots (todoOf 1 5, 0) (by simp) (todoOf 2 6, 1) (by simp)
      (ScanPlan.differAt_of_int h₁ h₂ (by decide))
  · have hof : ∀ r ∈ [todoOf 1 5, todoOf 2 6, todoOf 1 7].zipIdx,
        ∃ t ∈ trees, Tree.OfRow Sample.schema c.scan r.1 r.2 t :=
      forall_mem_of_forall₂ (List.Forall₂.flip htrees) fun t ht _ hr => ⟨t, ht, hr⟩
    obtain ⟨t, ht, hrt⟩ := hof (todoOf 1 5, 0) (by simp)
    obtain ⟨u, hu, hru⟩ := hof (todoOf 1 7, 2) (by simp)
    have hsame : u.key = t.key := by
      rw [hrt.key, hru.key, ScanPlan.markIn, ScanPlan.markIn, hkey, hkey']
      rfl
    obtain ⟨p, x, -, -, hx, hrep⟩ := exists_of_mem_groupsBy hreps ht
    obtain ⟨c', hc', hindex, hck⟩ := hrt.child (hrows _ (by simp))
    obtain ⟨d, hd, hindex', hdk⟩ := hru.child (hrows _ (by simp))
    have hfilter : ∀ v ∈ trees, v.key = t.key → v ∈ trees.filter (Tree.key · = t.key) :=
      fun v hv hkey => List.mem_filter.2 ⟨hv, decide_eq_true hkey⟩
    obtain ⟨f, ys, hf, hys, hapart⟩ := hbelow _ x hrep 1 hcollects
      c' (Tree.mem_childrenAt (hfilter t ht rfl) hc' hindex)
      d (Tree.mem_childrenAt (hfilter u hu hsame) hd hindex') (todoOf 1 5) 0 (todoOf 1 7) 2
      hck hdk (ScanPlan.differAt_of_int h₅ h₇ (by decide))
    exact ⟨_, x, f, ys, c', d, List.mem_of_getElem? hx, hrep, hf, hys, hck, hdk, hapart⟩

/-! ## Bytes -/

/-- Passports, whose key is the person they belong to, with their visas. -/
def visasOfPassports : Plan Sample where
  model := .passport
  select := ["person", "number", "visas.id"]

/-- A passport whose person is given by two bytes, with a visa. -/
def passportOf (a b : UInt8) (number : String) (visa : Int64) : List Value :=
  [.bytes [a, b], .string number, .int visa]

/-- The text of bytes is their number: two passports are one, with both visas. -/
theorem bytes_merged : ∃ c out, compileSelect Sample.schema visasOfPassports = .ok c ∧
    c.scan.groupRows = true ∧
    c.scan.keyValueIn (passportOf 0x31 0x32 "A" 1) 0 = some (.bytes [0x31, 0x32]) ∧
    c.scan.keyValueIn (passportOf 0x33 0x34 "B" 2) 0 = some (.bytes [0x33, 0x34]) ∧
    materialize Sample.schema c.scan [passportOf 0x31 0x32 "A" 1, passportOf 0x33 0x34 "B" 2]
      (fun _ => false) = .ok out ∧
    out.map (fun x => ((x.value Sample.schema "number").toOption.bind Value.string?,
      (x.relatedMany Sample.schema "visas").toOption.map List.length)) = [(some "A", some 2)] := by
  obtain ⟨c, hc⟩ : ∃ c, compileSelect Sample.schema visasOfPassports = .ok c :=
    exists_eq_ok (by decide +kernel)
  have hchecked : (compileSelect Sample.schema visasOfPassports).toOption.all (fun c =>
      c.scan.groupRows &&
      (c.scan.keyValueIn (passportOf 0x31 0x32 "A" 1) 0).any (·.same (.bytes [0x31, 0x32])) &&
      (c.scan.keyValueIn (passportOf 0x33 0x34 "B" 2) 0).any (·.same (.bytes [0x33, 0x34])) &&
      (materialize Sample.schema c.scan [passportOf 0x31 0x32 "A" 1, passportOf 0x33 0x34 "B" 2]
        fun _ => false).toOption.any (fun out => out.map (fun x =>
          ((x.value Sample.schema "number").toOption.bind Value.string?,
            (x.relatedMany Sample.schema "visas").toOption.map List.length)) ==
          [(some "A", some 2)])) = true := by
    decide +kernel
  rw [hc] at hchecked
  simp only [Except.toOption, Option.all_some, Bool.and_eq_true] at hchecked
  obtain ⟨⟨⟨hgroup, hA⟩, hB⟩, hout⟩ := hchecked
  have hbytes : ∀ {o : Option Value} {b : List UInt8}, o.any (·.same (.bytes b)) = true →
      o = some (.bytes b) := by
    rintro (_ | v) b h
    · cases h
    · cases v <;> simp [Value.same] at h ⊢
      exact h
  cases hm : materialize Sample.schema c.scan [passportOf 0x31 0x32 "A" 1, passportOf 0x33 0x34 "B" 2]
      (fun _ => false) with
  | error e => simp [hm] at hout
  | ok out =>
    rw [hm] at hout
    exact ⟨c, out, hc, hgroup, hbytes hA, hbytes hB, hm, beq_iff_eq.1 hout⟩

end Orm
