import Mathlib.Data.List.Forall2
import Orm.Proofs.Tree.Row

/-
What attaching leaves in an instance: in a collection the instances of the trees at its node, behind a
single relation the one of the tree at its node, and everything else as it was.
-/

namespace Orm

variable {ι : Type} {schema : Schema ι} {scan : ScanPlan ι}

/-- The relation field that leads to a node. -/
def ScanPlan.relationAt (scan : ScanPlan ι) (i : Nat) : Option (FieldDef ι) :=
  scan.nodes[i]?.bind (·.relation)

/-- The instances behind a relation: those of a collection, or the one of a single relation. -/
def Instance.behind (schema : Schema ι) (x : Instance ι) (name : String) (toMany : Bool) :
    Result (List (Instance ι)) :=
  if toMany then x.relatedMany schema name else (x.related schema name).map Option.toList

namespace Tree

/-- None of the trees stands at a node to which a relation of that name leads. -/
def Unnamed (scan : ScanPlan ι) (name : String) (ts : List (Tree ι)) : Prop :=
  ∀ c ∈ ts, ∀ f, scan.relationAt c.index = some f → f.name ≠ name

/-- The relation of that name leads to one node only, among the nodes of the trees. -/
def OnlyAt (scan : ScanPlan ι) (name : String) (j : Nat) (ts : List (Tree ι)) : Prop :=
  ∀ c ∈ ts, ∀ f, scan.relationAt c.index = some f → f.name = name → c.index = j

theorem OnlyAt.tail {name : String} {j : Nat} {c : Tree ι} {rest : List (Tree ι)}
    (h : OnlyAt scan name j (c :: rest)) : OnlyAt scan name j rest :=
  fun d hd => h d (List.mem_cons_of_mem c hd)

variable [DecidableEq ι]

/-- Attaching one instance: the collection that it joins, or the relation that it comes to stand behind. -/
inductive Attached (schema : Schema ι) (x z : Instance ι) (name : String) : Bool → Slot ι → Prop
  | pushed {r : Relation ι} {rs : List (Instance ι)} : x.relation? schema name true = some r →
      x.slot? name = some (.many rs) → Attached schema x z name true (.many (rs ++ [z]))
  | set {r : Relation ι} : x.relation? schema name false = some r →
      Attached schema x z name false (.one (some z))

theorem attached_iff {x y z : Instance ι} {name : String} {toMany : Bool} :
    (if toMany then x.pushRelated schema name z else x.setRelated schema name (some z)) =
        (y, .ok ()) ↔
      ∃ s, Attached schema x z name toMany s ∧
        (∀ r, x.relation? schema name toMany = some r → z.model = r.target) ∧
        y = x.withSlot name s := by
  constructor
  · intro h
    cases toMany with
    | true =>
      obtain ⟨r, rs, hr, hrs, rfl⟩ := Instance.pushRelated_ok h
      refine ⟨_, .pushed hr hrs, fun r' hr' => ?_, rfl⟩
      obtain rfl := Option.some.inj (hr.symm.trans hr')
      by_contra hne
      simp [Instance.pushRelated, Instance.ofModel, hr, hrs, hne] at h
    | false =>
      obtain ⟨r, hr, rfl⟩ := Instance.setRelated_ok h
      refine ⟨_, .set hr, fun r' hr' => ?_, rfl⟩
      obtain rfl := Option.some.inj (hr.symm.trans hr')
      by_contra hne
      simp [Instance.setRelated, Instance.ofModel, hr, hne] at h
  · rintro ⟨s, ⟨hr, hrs⟩ | ⟨hr⟩, hmodel, rfl⟩
    · simp [Instance.pushRelated, Instance.ofModel, hr, hrs, hmodel _ hr]
    · simp [Instance.setRelated, Instance.ofModel, hr, hmodel _ hr]

theorem attachAll_cons_iff {x y : Instance ι} {c : Tree ι} {rest : List (Tree ι)} :
    attachAll schema scan x (c :: rest) = .ok y ↔
      ∃ f z s, scan.relationAt c.index = some f ∧ attach schema scan c = .ok z ∧
        Attached schema x z f.name (scan.collects c.index) s ∧
        (∀ r, x.relation? schema f.name (scan.collects c.index) = some r → z.model = r.target) ∧
        attachAll schema scan (x.withSlot f.name s) rest = .ok y := by
  cases c with
  | node i k r below =>
    rw [attachAll, ScanPlan.relationAt, ScanPlan.collects, index]
    cases hn : scan.nodes[i]? with
    | none => simp
    | some n =>
      cases hf : n.relation with
      | none => simp [hf]
      | some f =>
        rw [Option.bind_some, Option.any_some, hf]
        dsimp only
        rw [hf]
        constructor
        · intro h
          obtain ⟨z, hz, h⟩ := bind_eq_ok.1 h
          obtain ⟨⟨⟩, hresult, h⟩ := bind_eq_ok.1 h
          obtain ⟨s, hs, hmodel, heq⟩ := attached_iff.1 (Prod.ext rfl hresult)
          exact ⟨f, z, s, rfl, hz, hs, hmodel, heq ▸ h⟩
        · rintro ⟨f', z, s, hf', hz, hs, hmodel, h⟩
          obtain rfl := Option.some.inj hf'
          refine bind_eq_ok.2 ⟨z, hz, ?_⟩
          rw [attached_iff.2 ⟨s, hs, hmodel, rfl⟩]
          exact h

theorem attachAll_cons_ok {x y : Instance ι} {c : Tree ι} {rest : List (Tree ι)}
    (h : attachAll schema scan x (c :: rest) = .ok y) :
    ∃ f z s, scan.relationAt c.index = some f ∧ attach schema scan c = .ok z ∧
      Attached schema x z f.name (scan.collects c.index) s ∧
      attachAll schema scan (x.withSlot f.name s) rest = .ok y := by
  obtain ⟨f, z, s, hf, hz, hs, -, h⟩ := attachAll_cons_iff.1 h
  exact ⟨f, z, s, hf, hz, hs, h⟩

/-! ## What stays -/

theorem attachAll_model {x y : Instance ι} {ts : List (Tree ι)}
    (h : attachAll schema scan x ts = .ok y) :
    y.model = x.model ∧ y.annotations = x.annotations := by
  induction ts generalizing x with
  | nil =>
    rw [attachAll] at h
    obtain rfl := Except.ok.inj h
    exact ⟨rfl, rfl⟩
  | cons c rest ih =>
    obtain ⟨f, z, s, -, -, -, h⟩ := attachAll_cons_ok h
    exact ih (x := x.withSlot f.name s) h

theorem attachAll_slot {x y : Instance ι} {ts : List (Tree ι)} {name : String}
    (hname : Unnamed scan name ts) (h : attachAll schema scan x ts = .ok y) :
    y.slot? name = x.slot? name := by
  induction ts generalizing x with
  | nil =>
    rw [attachAll] at h
    rw [Except.ok.inj h]
  | cons c rest ih =>
    obtain ⟨f, z, s, hf, -, -, h⟩ := attachAll_cons_ok h
    have hne : name ≠ f.name := Ne.symm (hname c List.mem_cons_self f hf)
    rw [ih (fun d hd => hname d (List.mem_cons_of_mem c hd)) h, Instance.slot?_withSlot, if_neg hne]

/-! ## What is attached -/

theorem attachAll_relation {x y : Instance ι} {ts : List (Tree ι)}
    (h : attachAll schema scan x ts = .ok y) :
    ∀ c ∈ ts, ∃ f, scan.relationAt (index c) = some f := by
  induction ts generalizing x with
  | nil => exact fun c hc => absurd hc List.not_mem_nil
  | cons c rest ih =>
    obtain ⟨f, z, s, hf, -, -, h⟩ := attachAll_cons_ok h
    exact List.forall_mem_cons.2 ⟨⟨f, hf⟩, ih h⟩

/-- A collection gets the instances of the trees at its node, in their order. -/
theorem attachAll_collected {x y : Instance ι} {ts : List (Tree ι)} {j : Nat} {f : FieldDef ι}
    (hf : scan.relationAt j = some f) (hj : scan.collects j = true) (honly : OnlyAt scan f.name j ts)
    (h : attachAll schema scan x ts = .ok y) :
    ∃ ys, List.Forall₂ (fun c z => attach schema scan c = .ok z) (ts.filter (·.index == j)) ys ∧
      (∀ rs, x.slot? f.name = some (.many rs) → y.slot? f.name = some (.many (rs ++ ys))) ∧
      (ts.filter (·.index == j) ≠ [] → ∃ r rs, x.relation? schema f.name true = some r ∧
        x.slot? f.name = some (.many rs)) := by
  induction ts generalizing x with
  | nil =>
    rw [attachAll] at h
    obtain rfl := Except.ok.inj h
    exact ⟨[], .nil, by simp, by simp⟩
  | cons c rest ih =>
    obtain ⟨g, z, s, hg, hz, hattached, h⟩ := attachAll_cons_ok h
    obtain ⟨ys, hys, hslot, hsome⟩ := ih honly.tail h
    by_cases hc : c.index = j
    · subst hc
      obtain rfl := Option.some.inj (hf.symm.trans hg)
      rw [hj] at hattached
      cases hattached with
      | @pushed r rs hr hrs =>
        rw [List.filter_cons_of_pos (by simp)]
        refine ⟨z :: ys, .cons hz hys, fun rs' hrs' => ?_, fun _ => ⟨r, rs, hr, hrs⟩⟩
        obtain rfl := (Slot.many.inj (Option.some.inj (hrs.symm.trans hrs')))
        rw [hslot (rs ++ [z]) (by rw [Instance.slot?_withSlot, if_pos rfl, hrs]; rfl)]
        simp
    · have hne : f.name ≠ g.name := fun he => hc (honly c List.mem_cons_self g hg he.symm)
      rw [List.filter_cons_of_neg (by simpa using hc)]
      rw [Instance.slot?_withSlot, if_neg hne] at hslot hsome
      exact ⟨ys, hys, hslot, hsome⟩

/-- A single relation gets the instance of the tree at its node. -/
theorem attachAll_single {x y : Instance ι} {ts : List (Tree ι)} {j : Nat} {f : FieldDef ι}
    {c : Tree ι} (hf : scan.relationAt j = some f) (hj : scan.collects j = false)
    (honly : OnlyAt scan f.name j ts) (hc : ts.filter (·.index == j) = [c])
    (hn : x.slots.map (·.1) = (schema x.model).fields.map (·.name))
    (h : attachAll schema scan x ts = .ok y) :
    ∃ z r, attach schema scan c = .ok z ∧ x.relation? schema f.name false = some r ∧
      y.slot? f.name = some (.one (some z)) := by
  induction ts generalizing x with
  | nil => simp at hc
  | cons d rest ih =>
    obtain ⟨g, z, s, hg, hz, hattached, h⟩ := attachAll_cons_ok h
    by_cases hd : d.index = j
    · subst hd
      rw [List.filter_cons_of_pos (by simp)] at hc
      obtain ⟨rfl, hrest⟩ := List.cons.inj hc
      obtain rfl := Option.some.inj (hf.symm.trans hg)
      rw [hj] at hattached
      cases hattached with
      | @set r hr =>
        obtain ⟨s, hs⟩ := Instance.exists_slot hn hr
        refine ⟨z, r, hz, hr, ?_⟩
        have hunnamed : Unnamed scan f.name rest := by
          intro e he k hk hname
          have hindex := honly.tail e he k hk hname
          exact List.filter_eq_nil_iff.1 hrest e he (by simpa using hindex)
        rw [attachAll_slot hunnamed h, Instance.slot?_withSlot, if_pos rfl, hs]
        rfl
    · have hne : f.name ≠ g.name := fun he => hd (honly d List.mem_cons_self g hg he.symm)
      rw [List.filter_cons_of_neg (by simpa using hd)] at hc
      exact ih (x := x.withSlot g.name s) honly.tail hc ((setSlot_names x.slots g.name s).trans hn) h

/-- Behind a relation come to stand the instances of the trees at its node. -/
theorem attachAll_behind {x y : Instance ι} {ts : List (Tree ι)} {j : Nat} {f : FieldDef ι}
    (hx : x.Bare schema) (hf : scan.relationAt j = some f) (honly : OnlyAt scan f.name j ts)
    (hne : ts.filter (·.index == j) ≠ [])
    (hsingle : scan.collects j = false → ∃ c, ts.filter (·.index == j) = [c])
    (h : attachAll schema scan x ts = .ok y) :
    ∃ ys, List.Forall₂ (fun c z => attach schema scan c = .ok z) (ts.filter (·.index == j)) ys ∧
      y.behind schema f.name (scan.collects j) = .ok ys := by
  have hrelation : ∀ toMany, y.relation? schema f.name toMany = x.relation? schema f.name toMany :=
    fun toMany => by rw [Instance.relation?, Instance.relation?, (attachAll_model h).1]
  cases hj : scan.collects j with
  | true =>
    obtain ⟨ys, hys, hslot, hsome⟩ := attachAll_collected hf hj honly h
    obtain ⟨r, rs, hr, hrs⟩ := hsome hne
    obtain rfl := hx.collections f.name rs hrs
    refine ⟨ys, hys, ?_⟩
    rw [Instance.behind, if_pos rfl, Instance.relatedMany, hrelation, hr, hslot [] hrs]
    rfl
  | false =>
    obtain ⟨c, hc⟩ := hsingle hj
    obtain ⟨z, r, hz, hr, hslot⟩ := attachAll_single hf hj honly hc hx.names h
    refine ⟨[z], hc ▸ .cons hz .nil, ?_⟩
    rw [Instance.behind, if_neg (by decide), Instance.related, hrelation, hr, hslot]
    rfl

end Tree

end Orm
