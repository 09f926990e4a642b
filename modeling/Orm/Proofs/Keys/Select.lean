import Orm.Proofs.Keys.Row
import Orm.Proofs.Fault.Materialize
import Orm.Proofs.Presence.Select

/-
What a key reads as in the instances of a SELECT. The instance that is attached behind a relation takes
the place of the one to which the relation's own column wrote the key, so the key is read where the
instances behind it end (`Tree.ReadsAt`, `select_keys`).
-/

namespace Orm

variable {ι : Type} {schema : Schema ι} {scan : ScanPlan ι}

/--
Where a field of a tree's instance is read: in the instance itself, or if the tree of a related one
hangs there, where the key of that is read.
-/
inductive Tree.ReadsAt (schema : Schema ι) (scan : ScanPlan ι) :
    Tree ι → FieldDef ι → Tree ι → FieldDef ι → Prop
  | here {u : Tree ι} {f : FieldDef ι} : Unnamed scan f.name u.children → ReadsAt schema scan u f u f
  | behind {u c v : Tree ι} {f pk g : FieldDef ι} {r : Relation ι} : c ∈ u.children →
      scan.relationAt c.index = some f → f.relation = some r → r.ownsColumn = true →
      (schema r.target).pk? = some pk → ReadsAt schema scan c pk v g → ReadsAt schema scan u f v g

/-! ## The columns of a SELECT -/

theorem declares_of_scanAt {root : ι} {a : Aliases} {s : ScanPlan ι} {places : List (List (Hop ι))}
    {names : List String} (h : ScanAt schema root a s places)
    (hscan : scan = { s with entries := s.entries ++ names.map fun name => ⟨name, .computed name⟩ })
    (row : List Value) : scan.Declares schema (scan.entries.zip row) := by
  intro c hc i f hf
  have hentry : c.1 ∈ scan.entries := (List.of_mem_zip hc).1
  subst hscan
  rcases List.mem_append.1 hentry with hentry | hentry
  · obtain ⟨j, g, n, hn, hg, -, he⟩ := h.entry _ hentry
    rw [he] at hf
    obtain ⟨rfl, rfl⟩ := ScanTarget.field.inj hf
    exact ⟨n, hn, hg⟩
  · obtain ⟨name, -, he⟩ := List.mem_map.1 hentry
    rw [← he] at hf
    cases hf

/-- The instances at a node are of the model to which the node's relation leads. -/
def ScanPlan.Targeted (scan : ScanPlan ι) : Prop :=
  ∀ (i : Nat) n f r, scan.nodes[i]? = some n → n.relation = some f → f.relation = some r →
    n.model = r.target

theorem targeted_of_scanAt {root : ι} {a : Aliases} {s : ScanPlan ι} {places : List (List (Hop ι))}
    (h : ScanAt schema root a s places) : s.Targeted := by
  intro i n f r hn hf hr
  obtain ⟨c, hc, hat⟩ := h.place_of_node hn
  cases hat with
  | root _ hnone _ _ => cases hnone.symm.trans hf
  | @below _ p _ c x hlt hplace _ hrelation hmodel _ =>
    obtain ⟨m, hl⟩ := (h.placed _ (List.mem_of_getElem? hc)).joinable.leads
    obtain ⟨k, -, -, -, hx, -⟩ := hl.of_append
    obtain rfl := Option.some.inj (hrelation.symm.trans hf)
    obtain rfl := Option.some.inj (hx.symm.trans hr)
    exact hmodel

theorem compileSelect_unrepeated {p : Plan ι} {c : Compiled ι} (hc : compileSelect schema p = .ok c)
    (row : List Value) : Unrepeated (c.scan.entries.zip row) := by
  refine List.pairwise_iff_getElem.2 fun a b ha hb hlt i f hf hf' => ?_
  rw [List.getElem_zip] at hf hf'
  have hsame : a = b :=
    compileSelect_once hc (List.getElem?_eq_getElem _) (List.getElem?_eq_getElem _) hf hf'
  omega

/-! ## Reading a key -/

/-- A relation reads as the key of the instance behind it. -/
theorem Instance.value_of_related {x z : Instance ι} {f : FieldDef ι}
    (hf : (schema x.model).field? f.name = some f) (hc : f.hasColumn = true)
    (h : x.related schema f.name = .ok (some z)) : x.value schema f.name = z.key schema := by
  rw [related] at h
  split at h
  case h_1 hs =>
    obtain rfl := Except.ok.inj h
    rw [value_eq, hf, hs]
    dsimp only
    rw [if_pos hc, slotValue]
  case h_2 => cases h

theorem ScanPlan.collects_eq {i : Nat} {f : FieldDef ι} {r : Relation ι}
    (hf : scan.relationAt i = some f) (hr : f.relation = some r) : scan.collects i = r.toMany := by
  obtain ⟨n, hn, hrelation⟩ := Option.bind_eq_some_iff.1 hf
  rw [collects, hn, Option.any_some, ScanNode.toMany, hrelation, Option.any_some, hr, Option.any_some]

variable [DecidableEq ι]

/-- A key is read where the instances behind it end. -/
theorem value_of_readsAt (hn : FieldNamesDistinct schema) (hs : scan.SiblingsDistinct)
    (ht : scan.Targeted) {columns : List (ScanEntry ι × Value)} {row : List Value} {u v : Tree ι}
    {f g : FieldDef ι} {a : Value} (h : Tree.ReadsAt schema scan u f v g) (hg : g.hasColumn = true)
    (ha : Brings columns v.index g a) :
    ∀ {x : Instance ι},
      u.Every (fun w => w.FromRow schema scan row ∧ w.Shows schema scan columns) →
      Tree.attach schema scan u = .ok x → f ∈ (schema x.model).fields →
      ∃ w, x.value schema f.name = .ok w ∧ g.Coerces schema a w ∧
        (a.isNull = false → f.Coerces schema a w) := by
  induction h with
  | @here u f hname =>
    intro x hu hx hf
    obtain ⟨-, n, -, hshows⟩ := hu.here
    rw [Tree.attach_eq] at hx
    have hmodel : x.model = u.root.model := (Tree.attachAll_model hx).1
    rw [hmodel, hshows.model] at hf
    obtain ⟨w, hw, hvalue⟩ := hshows.brought f hf hg a ha
    refine ⟨w, ?_, hw, fun _ => hw⟩
    rw [Instance.value_congr hmodel (Tree.attachAll_slot hname hx)]
    exact hvalue
  | @behind u c v f pk g r hc hrelation hr hown hpk _ ih =>
    intro x hu hx hf
    obtain ⟨f', z, hrelation', hz, hbehind⟩ := Tree.attach_behind hs hu.here.1 hx hc
    obtain rfl := Option.some.inj (hrelation.symm.trans hrelation')
    -- the instance behind is one of the relation's target
    have hzmodel : z.model = r.target := by
      obtain ⟨-, n, hnode, hshows⟩ := (hu.under c hc).here
      rw [Tree.attach_eq] at hz
      rw [ScanPlan.relationAt, hnode, Option.bind_some] at hrelation
      rw [(Tree.attachAll_model hz).1, hshows.model]
      exact ht c.index n f r hnode hrelation hr
    have hzpk : (schema z.model).pk? = some pk := hzmodel ▸ hpk
    obtain ⟨w, hw, hcoerces, hkey⟩ := ih hg ha (hu.under c hc) hz (List.mem_of_find?_eq_some hzpk)
    refine ⟨w, ?_, hcoerces, fun hnull => .key hr hnull hpk (hkey hnull)⟩
    have hrelated : x.related schema f.name = .ok (some z) := by
      rw [ScanPlan.collects_eq hrelation hr, Relation.toMany_eq_false hown, Instance.behind,
        if_neg Bool.false_ne_true] at hbehind
      cases hx' : x.related schema f.name with
      | error e =>
        rw [hx'] at hbehind
        cases hbehind
      | ok o =>
        rw [hx'] at hbehind
        have hlist : o.toList = [z] := Except.ok.inj hbehind
        rw [Option.toList_eq_singleton_iff.1 hlist]
    have hcol : f.hasColumn = true := by rwa [FieldDef.hasColumn, hr]
    rw [Instance.value_of_related (hn.field?_eq hf) hcol hrelated, Instance.key_eq, hzpk]
    exact hw

/--
In the instances of a SELECT a field has the value of the column at which it is read: of its own, or if
an instance is attached behind it, of the column of that one's key, whatever its own column holds. Where
that column is not projected, or NULL, it has what NULL is read as.
-/
theorem select_keys (hn : FieldNamesDistinct schema) (hk : JoinKeysDistinct schema) {p : Plan ι}
    {c : Compiled ι} {row : List Value} {t u v : Tree ι} {y x : Instance ι} {f g : FieldDef ι}
    {a : Value} (hr : (schema p.model).table ∉ (p.scope schema).aliases.used)
    (hc : compileSelect schema p = .ok c) (ht : rowTree schema c.scan row = .ok t)
    (hy : Tree.attach schema c.scan t = .ok y) (hx : StandsIn schema c.scan t y u x)
    (hf : f ∈ (schema x.model).fields) (hs : Tree.ReadsAt schema c.scan u f v g)
    (hg : g.hasColumn = true) (ha : Brings (c.scan.entries.zip row) v.index g a) :
    ∃ w, x.value schema f.name = .ok w ∧ g.Coerces schema a w ∧
      (a.isNull = false → f.Coerces schema a w) := by
  obtain ⟨aliases, s, places, names, hat, hscan⟩ := compileSelect_scanAt hk hr hc
  have hsiblings : c.scan.SiblingsDistinct := by
    rw [hscan]
    exact hat.siblingsDistinct hn
  have htargeted : s.Targeted := targeted_of_scanAt hat
  have hshows := rowTree_shows hn (declares_of_scanAt hat hscan row)
    (compileSelect_unrepeated hc row) ht
  obtain ⟨hu, hattach⟩ := hx.attached hy
  have hevery := ((rowTree_fromRow ht).2.and hshows).all_within hu
  exact value_of_readsAt hn hsiblings (hscan ▸ htargeted) hs hg ha hevery hattach hf

/-! ## To-dos and their users -/

/-- To-dos with the key of their user twice, as theirs and as the user's own, and the user's name. -/
def todosWithUser : Plan Sample where
  model := .todo
  select := ["id", "user", "user.id", "user.name"]

/-- To-dos with the key of their user and the user's name. -/
def todosWithUserName : Plan Sample where
  model := .todo
  select := ["id", "user", "user.name"]

/-- A to-do of user 7. -/
def todoOfAnn : List Value := [.int 1, .int 7, .int 7, .string "Ann"]

/-- The same, without the user's own key. -/
def todoOfNamed : List Value := [.int 1, .int 7, .string "Ann"]

/-- The field of a to-do that refers to its user. -/
def userOfTodo : FieldDef Sample := (Sample.refersTo "user" "user_id" .user).asNullable

theorem userOfTodo_coerces : userOfTodo.Coerces Sample.schema (.int 7) (.int 7) :=
  .key rfl rfl (by decide) (.scalar (f := Sample.key) rfl rfl)

theorem todosWithUser_keys : ∃ c t y, compileSelect Sample.schema todosWithUser = .ok c ∧
    rowTree Sample.schema c.scan todoOfAnn = .ok t ∧
    Tree.attach Sample.schema c.scan t = .ok y ∧ t.children.length = 1 ∧
    y.value Sample.schema "user" = .ok (.int 7) := by
  obtain ⟨c, hc⟩ := exists_eq_ok (x := compileSelect Sample.schema todosWithUser) (by decide +kernel)
  have hchecked : (compileSelect Sample.schema todosWithUser).toOption.all (fun c =>
      decide (c.scan.relationAt 1 = some userOfTodo) &&
      decide ((c.scan.entries[2]?).bind (·.target.fieldAt 1) = some Sample.key) &&
      (rowTree Sample.schema c.scan todoOfAnn).toOption.any fun t =>
        decide (t.root.model = .todo) && decide (t.children.length = 1) &&
        t.children.all (fun d => decide (d.index = 1) && d.children.isEmpty) &&
        (Tree.attach Sample.schema c.scan t).toBool) = true := by
    decide +kernel
  rw [hc] at hchecked
  simp only [Except.toOption, Option.all_some, Bool.and_eq_true, decide_eq_true_eq] at hchecked
  obtain ⟨⟨hrelation, hkey⟩, hrow⟩ := hchecked
  cases ht : rowTree Sample.schema c.scan todoOfAnn with
  | error e => simp [ht] at hrow
  | ok t =>
    simp only [ht, Option.any_some, Bool.and_eq_true, decide_eq_true_eq, List.all_eq_true] at hrow
    obtain ⟨⟨⟨hmodel, hone⟩, hchildren⟩, hattached⟩ := hrow
    obtain ⟨y, hy⟩ := exists_eq_ok (x := Tree.attach Sample.schema c.scan t) hattached
    obtain ⟨d, hd⟩ := List.length_eq_one_iff.1 hone
    have hmem : d ∈ t.children := by rw [hd]; exact List.mem_cons_self
    obtain ⟨hindex, hnone⟩ := hchildren d hmem
    obtain ⟨e, he, hfield⟩ := Option.bind_eq_some_iff.1 hkey
    have hreads : Tree.ReadsAt Sample.schema c.scan t userOfTodo d Sample.key := by
      refine .behind hmem (hindex ▸ hrelation) rfl rfl (by decide) (.here fun b hb => ?_)
      rw [List.isEmpty_iff.1 hnone] at hb
      exact absurd hb List.not_mem_nil
    have hbrings : Brings (c.scan.entries.zip todoOfAnn) d.index
        Sample.key (.int 7) := by
      refine .value (c := (e, .int 7)) (List.mem_of_getElem? (i := 2) ?_) ?_ rfl rfl
      · rw [List.getElem?_zip_eq_some]
        exact ⟨he, rfl⟩
      · rw [hindex]
        exact ScanTarget.fieldAt_eq_some.1 hfield
    have hymodel : y.model = .todo := by
      rw [Tree.attach_eq] at hy
      rw [(Tree.attachAll_model hy).1, hmodel]
    obtain ⟨w, hw, -, hcoerces⟩ := select_keys sample_fieldNamesDistinct sample_joinKeysDistinct
      (by decide +kernel) hc ht hy .here (hymodel ▸ (by decide : userOfTodo ∈ (Sample.schema .todo).fields))
      hreads rfl hbrings
    refine ⟨c, t, y, hc, ht, hy, hone, hw.trans ?_⟩
    rw [(hcoerces rfl).unique userOfTodo_coerces]

/-- The user of a to-do whose name is projected, but not its key, has the key of a new user. -/
theorem userName_hides_key : ¬ ∀ (p : Plan Sample) (c : Compiled Sample) (row : List Value)
    (t : Tree Sample) (y : Instance Sample) (f : FieldDef Sample) (a : Value),
    compileSelect Sample.schema p = .ok c → rowTree Sample.schema c.scan row = .ok t →
    Tree.attach Sample.schema c.scan t = .ok y → f ∈ (Sample.schema y.model).fields →
    f.relation.isSome = true → Brings (c.scan.entries.zip row) t.index f a → a.isNull = false →
    (∀ d ∈ t.children, ∀ r pk, c.scan.relationAt d.index = some f → f.relation = some r →
      (Sample.schema r.target).pk? = some pk →
      ∀ e ∈ c.scan.entries.zip row, e.1.target = .field d.index pk → e.2 = a) →
    ∃ w, f.Coerces Sample.schema a w ∧ y.value Sample.schema f.name = .ok w := by
  intro hclaim
  obtain ⟨c, hc⟩ := exists_eq_ok (x := compileSelect Sample.schema todosWithUserName)
    (by decide +kernel)
  have hchecked : (compileSelect Sample.schema todosWithUserName).toOption.all (fun c =>
      decide ((c.scan.entries[1]?).bind (·.target.fieldAt 0) = some userOfTodo) &&
      c.scan.entries.all (fun e => decide (e.target.fieldAt 1 ≠ some Sample.key)) &&
      (rowTree Sample.schema c.scan todoOfNamed).toOption.any fun t =>
        decide (t.index = 0) && t.children.all (fun d => decide (d.index = 1)) &&
        (Tree.attach Sample.schema c.scan t).toOption.any fun y =>
          decide (y.model = .todo) && (y.value Sample.schema "user").toOption.any fun v =>
            decide (v.groupKey ≠ (Value.int 7).groupKey)) = true := by
    decide +kernel
  rw [hc] at hchecked
  simp only [Except.toOption, Option.all_some, Bool.and_eq_true, decide_eq_true_eq,
    List.all_eq_true] at hchecked
  obtain ⟨⟨hkey, hunread⟩, hrow⟩ := hchecked
  obtain ⟨e, he, hfield⟩ := Option.bind_eq_some_iff.1 hkey
  cases ht : rowTree Sample.schema c.scan todoOfNamed with
  | error e => simp [ht] at hrow
  | ok t =>
    simp only [ht, Option.any_some, Bool.and_eq_true, decide_eq_true_eq, List.all_eq_true] at hrow
    obtain ⟨⟨hindex, hchildren⟩, hattached⟩ := hrow
    cases hy : Tree.attach Sample.schema c.scan t with
    | error e => simp [hy] at hattached
    | ok y =>
      simp only [hy, Option.any_some, Bool.and_eq_true, decide_eq_true_eq] at hattached
      obtain ⟨hmodel, hvalue⟩ := hattached
      have hbrings : Brings (c.scan.entries.zip todoOfNamed) t.index userOfTodo
          (.int 7) := by
        refine .value (c := (e, .int 7)) (List.mem_of_getElem? (i := 1) ?_) ?_ rfl rfl
        · rw [List.getElem?_zip_eq_some]
          exact ⟨he, rfl⟩
        · rw [hindex]
          exact ScanTarget.fieldAt_eq_some.1 hfield
      -- the user's own key is not projected, so there is none to differ from that of the to-do
      have hagrees : ∀ d ∈ t.children, ∀ r pk, c.scan.relationAt d.index = some userOfTodo →
          userOfTodo.relation = some r → (Sample.schema r.target).pk? = some pk →
          ∀ e ∈ c.scan.entries.zip todoOfNamed,
            e.1.target = .field d.index pk → e.2 = Value.int 7 := by
        intro d hd r pk _ hr hpk b hb htarget
        have huser : r.target = .user := (congrArg Relation.target (Option.some.inj hr)).symm
        rw [huser] at hpk
        obtain rfl : pk = Sample.key := (Option.some.inj hpk).symm
        rw [hchildren d hd] at htarget
        exact absurd (ScanTarget.fieldAt_eq_some.2 htarget) (hunread b.1 (List.of_mem_zip hb).1)
      obtain ⟨w, hw, hread⟩ := hclaim todosWithUserName c _ t y userOfTodo (.int 7) hc ht hy
        (hmodel ▸ (by decide : userOfTodo ∈ (Sample.schema .todo).fields)) rfl hbrings rfl hagrees
      rw [show userOfTodo.name = "user" from rfl, hw.unique userOfTodo_coerces] at hread
      simp [hread] at hvalue

end Orm
