import Orm.Proofs.Count.Answers
import Orm.Proofs.Legible.Key
import Orm.Proofs.Place.Planning

/-
How many instances the rows of a SELECT give: as many as there are rows, or where they are grouped as there
are keys among them (`materialize_keys`). Where no row is left out by a window, these are the keys of the
rows of the root that the SELECT finds (`Engine.Answers.instances`), and those that are counted if it is
nested in a count (`Engine.Answers.counted`).
-/

namespace Orm

section

variable {ι : Type} {schema : Schema ι} {scan : ScanPlan ι}

/-! ## Rows and instances -/

theorem foldl_placeTree_ungrouped (hg : scan.groupRows = false) (acc trees : List (Tree ι)) :
    trees.foldl (placeTree scan) acc = acc ++ trees := by
  induction trees generalizing acc with
  | nil => exact (List.append_nil acc).symm
  | cons t trees ih =>
    rw [List.foldl_cons, ih, placeTree, hg, Bool.false_and, if_neg Bool.false_ne_true,
      List.append_assoc]
    rfl

variable [DecidableEq ι] {calledOff : CalledOff} {rows : List (List Value)} {out : List (Instance ι)}

/-- Rows that are not grouped give an instance each. -/
theorem materialize_length (hg : scan.groupRows = false)
    (h : materialize schema scan rows calledOff = .ok out) : out.length = rows.length := by
  obtain ⟨placed, hplaced, hout⟩ := bind_eq_ok.1 h
  obtain ⟨trees, htrees, rfl⟩ := rowTrees_ok hplaced
  rw [foldl_placeTree_ungrouped hg, List.nil_append] at hout
  rw [htrees.length_eq, (forall₂_of_mapM_eq_ok hout).length_eq]

omit [DecidableEq ι] in
theorem groupsBy_keys {α κ : Type} [DecidableEq κ] (slot : α → κ) (l : List α) :
    ∃ keys : List κ, keys.Nodup ∧ (∀ k, k ∈ keys ↔ k ∈ l.map slot) ∧
      (groupsBy slot l).length = keys.length :=
  ⟨_, nodup_eraseDups (l.map slot), fun _ => List.mem_eraseDups, List.length_map _⟩

/-- Grouped rows give an instance for each key. -/
theorem materialize_keys (hg : scan.groupRows = true)
    (hk : ∀ row ∈ rows, (scan.keyIn row 0).isSome = true)
    (h : materialize schema scan rows calledOff = .ok out) :
    ∃ keys : List (Option String), keys.Nodup ∧ (∀ k, k ∈ keys ↔ ∃ row ∈ rows, k = scan.keyIn row 0) ∧
      out.length = keys.length := by
  obtain ⟨merged, hmerged, hout⟩ := bind_eq_ok.1 h
  obtain ⟨trees, htrees, rfl⟩ := rowTrees_ok hmerged
  have hkeys : trees.map Tree.key = rows.map (scan.keyIn · 0) := by
    clear hmerged hout h hk
    induction htrees with
    | nil => rfl
    | cons ht _ ih =>
      obtain ⟨hindex, hfrom⟩ := rowTree_fromRow ht
      rw [List.map_cons, List.map_cons, ih, hfrom.here.key, hindex]
  have hsome : ∀ t ∈ trees, t.key.isSome = true := by
    intro t ht
    have hmem : t.key ∈ rows.map (scan.keyIn · 0) := hkeys ▸ List.mem_map_of_mem ht
    obtain ⟨row, hrow, hkey⟩ := List.mem_map.1 hmem
    exact hkey ▸ hk row hrow
  rw [foldl_placeTree hg hsome] at hout
  have hgathered := forall₂_gatherAll (Tree.merge_key scan) trees
  obtain ⟨keys, hnodup, hmem, hlength⟩ := groupsBy_keys Tree.key trees
  refine ⟨keys, hnodup, fun k => ?_, ?_⟩
  · rw [hmem, hkeys, List.mem_map]
    simp only [eq_comm]
  · rw [← (forall₂_of_mapM_eq_ok hout).length_eq, ← hgathered.length_eq, hlength]

end

section

variable {ι : Type} {schema : Schema ι} {root : ι} {a : Aliases} {s : ScanPlan ι}
  {places : List (List (Hop ι))}

/-! ## The column of the root's key -/

/-- A column holds the key of the root. -/
structure ScanPlan.KeyedBy (schema : Schema ι) (root : ι) (s : ScanPlan ι) (k : Nat) (e : ScanEntry ι)
    (f : FieldDef ι) : Prop where
  rootKey : s.rootKey = some k
  entry : s.entries[k]? = some e
  target : e.target = .field 0 f
  field : f ∈ (schema root).fields
  primaryKey : f.primaryKey = true
  table : (s.nodes[0]?.map (·.tableAlias)).getD "" = (schema root).table

theorem ScanAt.keyedBy (h : ScanAt schema root a s places) (hk : s.rootKey.isSome = true) :
    ∃ k e f, s.KeyedBy schema root k e f := by
  obtain ⟨k, hk⟩ := Option.isSome_iff_exists.1 hk
  have hroot := hk
  rw [ScanPlan.rootKey, List.head?_eq_getElem?, Option.bind_eq_some_iff] at hroot
  obtain ⟨n, hn, hkey⟩ := hroot
  obtain ⟨e, f, he, ⟨m, hm, hf, -, rfl⟩, hpk⟩ := h.pkEntry 0 n k hn hkey
  obtain rfl := Option.some.inj (hn.symm.trans hm)
  obtain ⟨c, hc, hat⟩ := h.place_of_node hn
  obtain rfl := Option.some.inj (hc.symm.trans h.head)
  refine ⟨k, _, f, hk, he, rfl, hat.model rfl ▸ hf, hpk, ?_⟩
  rw [hn, Option.map_some, Option.getD_some, hat.tableAlias]
  rfl

/-- Rows are grouped wherever joins multiply those of the root. -/
theorem ScanAt.keyed_groupRows (h : ScanAt schema root a s places) {all : List (List (Hop ι))}
    (hd : DistinctColumns schema root a all) (hall : ∀ c ∈ places, c ∈ all) {pk : FieldDef ι}
    (hpk : (schema root).pk? = some pk) (multiplied : Bool) :
    (s.keyed schema root true multiplied).groupRows = multiplied := by
  rw [ScanPlan.keyed, hpk]
  cases multiplied with
  | false => rfl
  | true =>
    cases hkey : s.rootKey with
    | some k => simp [hkey]
    | none => simp [h.project_rootKey hd hall hpk]

namespace ScanPlan.KeyedBy

variable {k : Nat} {e : ScanEntry ι} {f : FieldDef ι}

theorem lt (h : s.KeyedBy schema root k e f) : k < s.entries.length :=
  (List.getElem?_eq_some_iff.1 h.entry).1

theorem full {r : ResolvedSelect ι} (h : r.scan.KeyedBy schema root k e f) :
    r.fullScan.KeyedBy schema root k e f where
  rootKey := h.rootKey
  entry := getElem?_append_of_some h.entry _
  target := h.target
  field := h.field
  primaryKey := h.primaryKey
  table := h.table

theorem keyIn (h : s.KeyedBy schema root k e f) {row : List Value} {v : Value}
    (hv : row[k]? = some v) : s.keyIn row 0 = f.keyOf v := by
  have hpair : (s.entries.zip row)[k]? = some (e, v) :=
    List.getElem?_zip_eq_some.2 ⟨h.entry, hv⟩
  have hkey : s.nodes[0]?.bind (·.pkEntry) = some k := by
    rw [← List.head?_eq_getElem?]
    exact h.rootKey
  simp only [ScanPlan.keyIn, ScanPlan.keyAmong, hkey, hpair, h.target, ScanTarget.fieldAt,
    Option.bind_some, if_true]

end ScanPlan.KeyedBy

/-- A name stands for the first value that goes by it. -/
theorem lookup_zip {names : List String} {row : List Value} {k : Nat} {name : String} {v : Value}
    (hname : names[k]? = some name) (hnew : name ∉ names.take k) (hv : row[k]? = some v) :
    (names.zip row).lookup name = some v := by
  induction names generalizing row k with
  | nil => simp at hname
  | cons n names ih =>
    cases row with
    | nil => simp at hv
    | cons w row =>
      cases k with
      | zero =>
        obtain rfl := Option.some.inj hname
        obtain rfl := Option.some.inj hv
        simp
      | succ k =>
        rw [List.take_succ_cons, List.mem_cons, not_or] at hnew
        have hne : (name == n) = false := beq_eq_false_iff_ne.2 hnew.1
        rw [List.zip_cons_cons, List.lookup_cons, hne]
        exact ih hname hnew.2 hv

theorem ResolvedSelect.lookup_key {r : ResolvedSelect ι} {k : Nat} {e : ScanEntry ι} {f : FieldDef ι}
    (h : r.scan.KeyedBy schema root k e f) (ho : r.scan.Once) {row : List Value} {v : Value}
    (hv : row[k]? = some v) :
    ((r.fullScan.columnAliases.zip row).lookup e.columnAlias).getD .null = v := by
  have hname : r.fullScan.columnAliases[k]? = some e.columnAlias := by
    rw [ScanPlan.columnAliases, List.getElem?_map, h.full.entry]
    rfl
  have hnew : e.columnAlias ∉ r.fullScan.columnAliases.take k := by
    have hfields : r.fullScan.columnAliases.take k = (r.scan.entries.map (·.columnAlias)).take k := by
      rw [ScanPlan.columnAliases, ResolvedSelect.fullScan, List.map_append,
        List.take_append_of_le_length (by simpa using Nat.le_of_lt h.lt)]
    rw [hfields]
    intro hmem
    obtain ⟨j, hj⟩ := List.mem_iff_getElem?.1 hmem
    rw [List.getElem?_take] at hj
    split at hj
    case isFalse => cases hj
    rename_i hjk
    have hk : (r.scan.entries.map (·.columnAlias))[k]? = some e.columnAlias := by
      rw [List.getElem?_map, h.entry]
      rfl
    have hlt := (List.getElem?_eq_some_iff.1 hj).1
    exact Nat.ne_of_lt hjk ((List.getElem?_inj hlt ho.nodup).1 (hj.trans hk.symm))
  rw [lookup_zip hname hnew hv, Option.getD_some]

end

/-! ## Answers and their keys -/

namespace Engine

variable {ι : Type} {schema : Schema ι}

/-- What a schema asks of a database: no row is without its key, no key occurs twice, and a relation that is
one to one is so backwards. -/
structure Fits (E : Engine ι) (db : Contents) (schema : Schema ι) : Prop where
  present : ∀ i, ∀ f ∈ (schema i).fields, f.primaryKey = true →
    ∀ r ∈ db (schema i).table, r f.column ≠ .null
  key : ∀ i, ∀ f ∈ (schema i).fields, f.primaryKey = true →
    E.Unrepeated (db (schema i).table) f.column
  backward : ∀ i, ∀ f ∈ (schema i).fields, ∀ r, f.relation = some r → r.kind = .oneToOne →
    ∀ name g, r.relatedField = some name → (schema r.target).field name = .ok g →
      E.Unrepeated (db (schema r.target).table) g.column

/-- The keys that instances of a model would have are there, and tell its rows apart. -/
structure KeysTold (db : Contents) (schema : Schema ι) (root : ι) : Prop where
  present : ∀ f ∈ (schema root).fields, f.primaryKey = true →
    ∀ r ∈ db (schema root).table, (f.keyOf (r f.column)).isSome = true
  nodup : ∀ f ∈ (schema root).fields, f.primaryKey = true →
    ((db (schema root).table).map fun r => f.keyOf (r f.column)).Nodup

variable {E : Engine ι} {db : Contents} {p : Plan ι} {r : ResolvedSelect ι} {joins : List Join}
  {rows : List (List Value)} {a : Aliases} {places : List (List (Hop ι))}

/-- Keys that fit tell rows apart if fields read them as they are and their texts tell them apart. -/
theorem Fits.keysTold {root : ι} (h : E.Fits db schema)
    (hread : ∀ f ∈ (schema root).fields, f.primaryKey = true → ∀ r ∈ db (schema root).table,
      f.type.normalize (r f.column) = .ok (r f.column))
    (htold : ∀ f ∈ (schema root).fields, f.primaryKey = true → ∀ r ∈ db (schema root).table,
      ∀ s ∈ db (schema root).table, (r f.column).toldApart (s f.column) = true) :
    KeysTold db schema root := by
  have hkey : ∀ f ∈ (schema root).fields, f.primaryKey = true → ∀ r ∈ db (schema root).table,
      f.keyOf (r f.column) = some (r f.column).groupKey := by
    intro f hf hpk r hr
    have hnull := h.present root f hf hpk r hr
    rw [FieldDef.keyOf, hread f hf hpk r hr]
    cases hval : r f.column <;> simp_all [Value.isNull, Except.toOption]
  refine ⟨fun f hf hpk r hr => by rw [hkey f hf hpk r hr]; rfl, fun f hf hpk => ?_⟩
  refine List.pairwise_map.2 ((h.key root f hf hpk).imp_of_mem fun {r s} hr hs hne heq => hne ?_)
  rw [hkey f hf hpk r hr, hkey f hf hpk s hs, Option.some_inj] at heq
  have hval := Value.groupKey_inj (htold f hf hpk r hr s hs) heq
  exact (E.equal_iff _ _).2 ⟨h.present root f hf hpk r hr, h.present root f hf hpk s hs,
    hval ▸ E.equivalence.refl _⟩

/-- The row of the root is one of those that a statement keeps. -/
def Root (E : Engine ι) (db : Contents) (table : String) (joins : List Join)
    (filters : List (Expression ι)) (u : TableRow) : Prop :=
  ∃ x ∈ E.matched db table joins filters, x table = u

theorem shows_key {root : ι} {k : Nat} {e : ScanEntry ι} {f : FieldDef ι}
    (h : r.scan.KeyedBy schema root k e f) (x : JoinedRow) :
    (E.shows (schema root).table r x)[k]? = some (x (schema root).table f.column) := by
  rw [shows, List.getElem?_append_left (by simpa using h.lt), List.getElem?_map, h.entry,
    Option.map_some, shown, h.target]
  dsimp only
  rw [h.table, reads]

theorem Answers.keyColumn {k : Nat} {e : ScanEntry ι} {f : FieldDef ι}
    (h : E.Answers db schema p r joins rows) (hp : p.paged = false)
    (hk : r.scan.KeyedBy schema p.model k e f) :
    E.KeyColumn (E.Root db (schema p.model).table joins r.filters) f.column
      (rows.map fun row => (row[k]?).getD .null) := by
  obtain ⟨hrow, hall⟩ := h.unpaged hp
  refine ⟨fun v hv => ?_, ?_⟩
  · obtain ⟨row, hmem, rfl⟩ := List.mem_map.1 hv
    obtain ⟨x, hx, rfl⟩ := hrow row hmem
    refine ⟨_, ⟨x, hx, rfl⟩, ?_⟩
    rw [shows_key hk, Option.getD_some]
  · rintro _ ⟨x, hx, rfl⟩
    obtain ⟨row, hmem, halike⟩ := hall x hx
    obtain ⟨v, hv, hxv⟩ := getElem?_of_forall₂ halike (shows_key hk x)
    refine ⟨v, List.mem_map.2 ⟨row, hmem, ?_⟩, hxv⟩
    rw [hv, Option.getD_some]

variable (hroots : ∀ u, E.Root db (schema p.model).table joins r.filters u → u ∈ db (schema p.model).table)
  (hfits : E.Fits db schema)

include hroots hfits

/-- One instance for each row of the root that a SELECT finds. -/
theorem Answers.instances [DecidableEq ι] {calledOff : CalledOff} {out : List (Instance ι)}
    (h : E.Answers db schema p r joins rows) (hp : p.paged = false)
    (hs : ScanAt schema p.model a r.scan places) (hkey : r.scan.rootKey.isSome = true)
    (hg : r.scan.groupRows = true) (htold : KeysTold db schema p.model)
    (hm : materialize schema r.fullScan rows calledOff = .ok out) :
    ∃ (Q : Option String → TableRow → Prop) (keys : List (Option String)), out.length = keys.length ∧
      OnePerRow (E.Root db (schema p.model).table joins r.filters) Q keys := by
  obtain ⟨k, e, f, hk⟩ := hs.keyedBy hkey
  have hcolumn := h.keyColumn hp hk
  obtain ⟨hrow, -⟩ := h.unpaged hp
  have hkeyIn : ∀ row ∈ rows, r.fullScan.keyIn row 0 = f.keyOf ((row[k]?).getD .null) := by
    intro row hmem
    obtain ⟨x, -, rfl⟩ := hrow row hmem
    rw [hk.full.keyIn (shows_key hk x), shows_key hk, Option.getD_some]
  have hgroup : r.fullScan.groupRows = true := hg
  obtain ⟨keys, hnodup, hmem, hlength⟩ := materialize_keys hgroup (fun row hr => by
    obtain ⟨u, hu, hv⟩ := hcolumn.row _ (List.mem_map_of_mem hr)
    rw [hkeyIn row hr, hv]
    exact htold.present f hk.field hk.primaryKey u (hroots u hu)) hm
  refine ⟨_, keys, hlength, hcolumn.texts hroots (hfits.present _ f hk.field hk.primaryKey)
    (hfits.key _ f hk.field hk.primaryKey) (htold.nodup f hk.field hk.primaryKey) hnodup fun key => ?_⟩
  simp only [hmem, List.mem_map, exists_exists_and_eq_and]
  exact exists_congr fun row => and_congr_right fun hr => by rw [hkeyIn row hr]

/-- A nested SELECT has one distinct key for each row of the root that it finds. -/
theorem Answers.counted {n : Nat} (h : E.Answers db schema p r joins rows) (hp : p.paged = false)
    {k : Nat} {e : ScanEntry ι} {f : FieldDef ι} (hk : r.scan.KeyedBy schema p.model k e f)
    (ho : r.scan.Once) (hn : E.CountsDistinct (rows.map fun row =>
      ((r.fullScan.columnAliases.zip row).lookup e.columnAlias).getD .null) n) :
    ∃ (Q : Value → TableRow → Prop) (keys : List Value), n = keys.length ∧
      OnePerRow (E.Root db (schema p.model).table joins r.filters) Q keys := by
  have hvalues : rows.map (fun row =>
      ((r.fullScan.columnAliases.zip row).lookup e.columnAlias).getD .null) =
        rows.map fun row => (row[k]?).getD .null := by
    refine List.map_congr_left fun row hrow => ?_
    obtain ⟨x, -, rfl⟩ := (h.unpaged hp).1 row hrow
    rw [ResolvedSelect.lookup_key hk ho (shows_key hk x), shows_key hk, Option.getD_some]
  rw [hvalues] at hn
  obtain ⟨out, hlength, hout⟩ := (h.keyColumn hp hk).onePerRow hroots
    (hfits.present _ f hk.field hk.primaryKey) (hfits.key _ f hk.field hk.primaryKey) hn
  exact ⟨_, out, hlength, hout⟩

omit hroots hfits in
/-- A plain count of distinct keys is one for each row of the root that is kept. -/
theorem CountsDistinct.onePerRow {root : ι} {filters : List (Expression ι)} {pk : FieldDef ι} {n : Nat}
    (hpk : (schema root).pk? = some pk) (hfits : E.Fits db schema)
    (hroots : ∀ u, E.Root db (schema root).table joins filters u → u ∈ db (schema root).table)
    (hn : E.CountsDistinct ((E.matched db (schema root).table joins filters).map fun x =>
      E.reads x [(schema root).table, pk.column]) n) :
    ∃ (Q : Value → TableRow → Prop) (keys : List Value), n = keys.length ∧
      OnePerRow (E.Root db (schema root).table joins filters) Q keys := by
  have hcolumn : E.KeyColumn (E.Root db (schema root).table joins filters) pk.column
      ((E.matched db (schema root).table joins filters).map fun x =>
        E.reads x [(schema root).table, pk.column]) := by
    refine ⟨fun v hv => ?_, ?_⟩
    · obtain ⟨x, hx, rfl⟩ := List.mem_map.1 hv
      exact ⟨_, ⟨x, hx, rfl⟩, rfl⟩
    · rintro _ ⟨x, hx, rfl⟩
      exact ⟨_, List.mem_map_of_mem hx, E.equivalence.refl _⟩
  have hmem := Model.pk_mem (Model.pk_eq_ok.2 hpk)
  have hkey := Model.pk_primaryKey (Model.pk_eq_ok.2 hpk)
  obtain ⟨out, hlength, hout⟩ := hcolumn.onePerRow hroots (hfits.present _ pk hmem hkey)
    (hfits.key _ pk hmem hkey) hn
  exact ⟨_, out, hlength, hout⟩

omit hroots hfits in
/-- The rows that are kept are one for each row of the root if none of these occurs twice. -/
theorem matched_onePerRow {table : String} {filters : List (Expression ι)}
    (h : ((E.matched db table joins filters).map (· table)).Nodup) :
    OnePerRow (E.Root db table joins filters) (fun x u => x table = u)
      (E.matched db table joins filters) where
  row x hx := ⟨x table, ⟨x, hx, rfl⟩, rfl⟩
  all _ hu := hu
  same _ _ _ _ _ hr hs := hr.symm.trans hs
  apart := (List.pairwise_map.1 h).imp fun hne _ _ hx hy => hne (hx.trans hy.symm)

end Engine

end Orm
