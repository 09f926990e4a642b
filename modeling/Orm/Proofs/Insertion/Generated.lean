import Orm.Proofs.First
import Orm.Proofs.Hooks.Final
import Orm.Proofs.Insertion.Answer
import Orm.Proofs.Insertion.Settled
import Orm.Proofs.Values.Columns

/-
What a successful insertion leaves in an instance. The columns to which its INSERT binds values are as
they were. The others have what the database brought back for them: for each value of the answer the
field at its place among those that were asked for, for a lone key the field of the key, and for a row
that was selected again all of them (`Environment.RoundTrip`, `createInstance_roundTrip`).
-/

namespace Orm

variable {ι ρ σ : Type} {schema : Schema ι}

/-! ## Values that arrive -/

namespace Environment

variable [DecidableEq ι] {env : Environment ι ρ σ} {db : Executor} {x x' : Instance ι}
  {c : Compiled ι} {w v : World ρ σ}

section

variable {bound : List (FieldDef ι × Value)} {l : List (FieldDef ι × Result Value)}

/-- The fields that are written hold what has come for them, and all other columns are as they were. -/
theorem Brought.holds (hn : FieldNamesDistinct env.schema) (hx : x.Typed env.schema)
    (hsplit : x.Split env.schema bound c) (h : Brought env db x c w l v)
    (hfill : x.fillAll env.schema l = (x', .ok ())) :
    (∀ p ∈ l, ∃ n u, p.2 = .ok n ∧ p.1.Coerces env.schema n u ∧
      x'.value env.schema p.1.name = .ok u) ∧
    ∀ f ∈ (env.schema x.model).columnFields, f ∉ l.map (·.1) →
      x'.value env.schema f.name = x.value env.schema f.name := by
  have hcolumns : (l.map (·.1)).Sublist (env.schema x.model).columnFields :=
    h.sublist.trans hsplit.returning
  have hfields : (l.map (·.1)).Sublist (env.schema x.model).fields :=
    hcolumns.trans List.filter_sublist
  constructor
  · refine Instance.fillAll_holds hn hx (fun p hp => ?_) ?_ hfill
    · exact hcolumns.subset (List.mem_map_of_mem hp)
    · have hnames := (hn x.model).sublist (hfields.map (·.name))
      rwa [List.map_map] at hnames
  · intro f hf hout
    refine (Instance.fillAll_sameBut hfill).value fun hname => hout ?_
    obtain ⟨p, hp, hname⟩ := List.mem_map.1 hname
    have hpf : p.1 = f := hn.eq (hfields.subset (List.mem_map_of_mem hp)) (List.mem_filter.1 hf).1 hname
    exact hpf ▸ List.mem_map_of_mem hp

end

end Environment

/-! ## Tags -/

end Orm
