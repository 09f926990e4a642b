import Orm.Proofs.Path
import Orm.Sample

/-
Paths, segment by segment. What follows a segment is walked from the target of the relation that the
segment names, so a path that goes on from another is walked as the first and then, from where that
leads, as the rest (`walkSegments_append`). The mistake reported is that of the first segment that leads
nowhere.
-/

namespace Orm

variable {ι : Type} {schema : Schema ι}

/-! ## Cutting -/

theorem Text.pieces_append (sep : Char) (cs ds : List Char) :
    pieces sep (cs ++ sep :: ds) = pieces sep cs ++ pieces sep ds := by
  induction cs with
  | nil => simp [pieces]
  | cons c cs ih =>
    rw [List.cons_append, pieces, pieces, ih]
    split
    · rfl
    · cases hp : pieces sep cs with
      | nil => exact absurd hp (pieces_ne_nil sep cs)
      | cons p ps => rfl

/-- The parts of two texts with a separator between them. -/
theorem Text.split_append (sep : Char) (s t : String) :
    split sep (s ++ String.singleton sep ++ t) = split sep s ++ split sep t := by
  have hlist : (s ++ String.singleton sep ++ t).toList = s.toList ++ sep :: t.toList := by simp
  rw [split, hlist, pieces_append, List.map_append]
  rfl

theorem Text.split_ne_nil (sep : Char) (s : String) : split sep s ≠ [] := fun h =>
  pieces_ne_nil sep s.toList (List.map_eq_nil_iff.1 h)

/-! ## Segments -/

/-- What a walk over segments gives: the relations crossed, the model reached and the last field. -/
abbrev Crossed (ι : Type) := List (Hop ι) × ι × Option (FieldDef ι)

/-- The same with relations that were crossed before. -/
def Crossed.behind (chain : List (Hop ι)) (c : Crossed ι) : Crossed ι := (chain ++ c.1, c.2)

theorem Crossed.behind_behind (a b : List (Hop ι)) (c : Crossed ι) :
    behind a (behind b c) = behind (a ++ b) c := by
  simp [behind]

/-- The segments behind a field are walked from its target. -/
def walkFrom (schema : Schema ι) (segments : List String) (chain : List (Hop ι)) (reached : ι)
    (field : FieldDef ι) : Result (Crossed ι) :=
  match field.relation with
  | none => .error (.unreachableRelation (schema reached).table field.name)
  | some relation =>
    Crossed.behind (chain ++ [⟨reached, field, relation⟩]) <$>
      walkSegments schema relation.target segments

/-- The segments that follow others. In front of them `*` is the name of a field like any other. -/
def walkOn (schema : Schema ι) (segments : List String) : Crossed ι → Result (Crossed ι)
  | (chain, reached, some field) => walkFrom schema segments chain reached field
  | (chain, reached, none) =>
    (schema reached).field "*" >>= walkFrom schema segments chain reached

theorem walkFrom_behind (segments : List String) (before chain : List (Hop ι)) (reached : ι)
    (field : FieldDef ι) : walkFrom schema segments (before ++ chain) reached field =
      Crossed.behind before <$> walkFrom schema segments chain reached field := by
  unfold walkFrom
  cases field.relation with
  | none => rfl
  | some r => simp [Crossed.behind_behind]

theorem walkOn_behind (segments : List String) (before : List (Hop ι)) (c : Crossed ι) :
    walkOn schema segments (c.behind before) =
      Crossed.behind before <$> walkOn schema segments c := by
  match c with
  | (chain, reached, some field) => exact walkFrom_behind segments before chain reached field
  | (chain, reached, none) =>
    simp only [Crossed.behind, walkOn, map_bind]
    exact bind_congr fun field => walkFrom_behind segments before chain reached field

theorem walkSegments_cons (m : ι) (segment : String) {rest : List String} (h : rest ≠ []) :
    walkSegments schema m (segment :: rest) =
      (schema m).field segment >>= walkFrom schema rest [] m := by
  rw [walkSegments]
  swap
  · exact h
  cases hf : (schema m).field segment with
  | error e => rfl
  | ok f =>
    obtain ⟨-, rfl⟩ := Model.field?_eq_some (Model.field_eq_ok.1 hf)
    change _ = walkFrom schema rest [] m f
    unfold walkFrom
    cases hr : f.relation with
    | none =>
      simp only [bind, Except.bind, hr]
      rfl
    | some r =>
      simp only [bind, Except.bind, hr]
      cases walkSegments schema r.target rest <;> rfl

theorem walkSegments_append {ps qs : List String} (hp : ps ≠ []) (hq : qs ≠ []) (m : ι) :
    walkSegments schema m (ps ++ qs) = walkSegments schema m ps >>= walkOn schema qs := by
  induction ps generalizing m with
  | nil => exact absurd rfl hp
  | cons segment ps ih =>
    rw [List.cons_append, walkSegments_cons m segment (by simp [hq])]
    by_cases hps : ps = []
    · subst hps
      rw [walkSegments]
      split
      · next hstar =>
        subst hstar
        rfl
      · rw [bind_assoc]
        rfl
    · rw [walkSegments_cons m segment hps, bind_assoc]
      refine bind_congr fun field => ?_
      unfold walkFrom
      cases field.relation with
      | none => rfl
      | some r =>
        simp only
        rw [ih hps, map_bind, bind_map_left]
        simp only [walkOn_behind]

/-- All segments but the last name the relations that are crossed. The last names a field, or it is `*`. -/
theorem walkSegments_names {segments : List String} {m reached : ι} {chain : List (Hop ι)}
    {last : Option (FieldDef ι)} (h : walkSegments schema m segments = .ok (chain, reached, last)) :
    ∃ name, segments = chain.map (·.field.name) ++ [name] ∧
      (last = none ∧ name = "*" ∨ ∃ f, last = some f ∧ f.name = name ∧ name ≠ "*") := by
  induction segments generalizing m chain with
  | nil => cases h
  | cons segment rest ih =>
    by_cases hrest : rest = []
    · subst hrest
      rw [walkSegments] at h
      split at h
      · next hstar =>
        cases h
        exact ⟨segment, rfl, .inl ⟨rfl, hstar⟩⟩
      · next hnamed =>
        simp only [bind_eq_ok, pure_eq_ok, Prod.mk.injEq] at h
        obtain ⟨f, hf, rfl, -, rfl⟩ := h
        obtain ⟨-, hname⟩ := Model.field?_eq_some (Model.field_eq_ok.1 hf)
        exact ⟨segment, rfl, .inr ⟨f, rfl, hname, hnamed⟩⟩
    · rw [walkSegments_cons m segment hrest, bind_eq_ok] at h
      obtain ⟨f, hf, h⟩ := h
      obtain ⟨-, rfl⟩ := Model.field?_eq_some (Model.field_eq_ok.1 hf)
      unfold walkFrom at h
      split at h
      · cases h
      · next r hr =>
        obtain ⟨⟨chain', reached', last'⟩, hw, hc⟩ := map_eq_ok.1 h
        simp only [Crossed.behind, Prod.mk.injEq] at hc
        obtain ⟨rfl, rfl, rfl⟩ := hc
        obtain ⟨name, hsegments, hlast⟩ := ih hw
        exact ⟨name, by simp [hsegments], hlast⟩

/-! ## Paths -/

def Walk.ofCrossed (path : String) (root : ι) (c : Crossed ι) : Walk ι :=
  { path, root, chain := c.1, model := c.2.1, field := c.2.2 }

theorem walk_eq (root : ι) (path : String) : walk schema root path =
    Walk.ofCrossed path root <$> walkSegments schema root (Text.split '.' path) := by
  unfold walk
  cases walkSegments schema root (Text.split '.' path) <;> rfl

theorem walk_eq_ok {root : ι} {path : String} {w : Walk ι} : walk schema root path = .ok w ↔
    ∃ c, walkSegments schema root (Text.split '.' path) = .ok c ∧ Walk.ofCrossed path root c = w := by
  rw [walk_eq]
  exact map_eq_ok

theorem walk_eq_error {root : ι} {path : String} {e : Error} : walk schema root path = .error e ↔
    walkSegments schema root (Text.split '.' path) = .error e := by
  rw [walk_eq]
  cases walkSegments schema root (Text.split '.' path) <;> simp

theorem walk_append (root : ι) (p q : String) : walk schema root (p ++ "." ++ q) =
    Walk.ofCrossed (p ++ "." ++ q) root <$>
      (walkSegments schema root (Text.split '.' p) >>= walkOn schema (Text.split '.' q)) := by
  have hsplit : Text.split '.' (p ++ "." ++ q) = Text.split '.' p ++ Text.split '.' q :=
    Text.split_append '.' p q
  rw [walk_eq, hsplit, walkSegments_append (Text.split_ne_nil '.' p) (Text.split_ne_nil '.' q)]

theorem walk_append_of_ok {root : ι} {p : String} {w : Walk ι} (h : walk schema root p = .ok w)
    (q : String) : walk schema root (p ++ "." ++ q) = Walk.ofCrossed (p ++ "." ++ q) root <$>
      walkOn schema (Text.split '.' q) (w.chain, w.model, w.field) := by
  obtain ⟨c, hc, rfl⟩ := walk_eq_ok.1 h
  rw [walk_append, hc]
  rfl

/-- The first mistake of a path is that of every path that goes on from it. -/
theorem walk_append_of_error {root : ι} {p : String} {e : Error} (h : walk schema root p = .error e)
    (q : String) : walk schema root (p ++ "." ++ q) = .error e := by
  rw [walk_append, walk_eq_error.1 h]
  rfl

/-- Behind a relation a path is walked as from the relation's target. -/
theorem walk_append_of_relation {root : ι} {p : String} {w : Walk ι} {f : FieldDef ι} {r : Relation ι}
    (h : walk schema root p = .ok w) (hf : w.field = some f) (hr : f.relation = some r) (q : String) :
    walk schema root (p ++ "." ++ q) = (fun v => { v with
      path := p ++ "." ++ q
      root := root
      chain := w.chain ++ ⟨w.model, f, r⟩ :: v.chain }) <$> walk schema r.target q := by
  have hfrom : walkFrom schema (Text.split '.' q) w.chain w.model f =
      Crossed.behind (w.chain ++ [⟨w.model, f, r⟩]) <$>
        walkSegments schema r.target (Text.split '.' q) := by
    rw [walkFrom, hr]
  rw [walk_append_of_ok h, hf, walkOn, hfrom, walk_eq, Functor.map_map, Functor.map_map]
  simp [Walk.ofCrossed, Crossed.behind]

theorem walk_append_of_scalar {root : ι} {p : String} {w : Walk ι} {f : FieldDef ι}
    (h : walk schema root p = .ok w) (hf : w.field = some f) (hr : f.relation = none) (q : String) :
    walk schema root (p ++ "." ++ q) =
      .error (.unreachableRelation (schema w.model).table f.name) := by
  rw [walk_append_of_ok h, hf, walkOn, walkFrom, hr]
  rfl

theorem walk_append_of_star {root : ι} {p : String} {w : Walk ι} (h : walk schema root p = .ok w)
    (hstar : w.star = true) (hnone : (schema w.model).field? "*" = none) (q : String) :
    walk schema root (p ++ "." ++ q) = .error (.unknownField (schema w.model).table "*") := by
  rw [walk_append_of_ok h, Option.isNone_iff_eq_none.1 hstar, walkOn, Model.field, hnone]
  rfl

/-- Only as the last segment `*` means all fields; the others are the names of the relations crossed. -/
theorem walk_names {root : ι} {path : String} {w : Walk ι} (h : walk schema root path = .ok w) :
    ∃ last, Text.split '.' path = w.chain.map (·.field.name) ++ [last] ∧
      (w.star = true ↔ last = "*") := by
  obtain ⟨⟨chain, reached, last⟩, hc, rfl⟩ := walk_eq_ok.1 h
  obtain ⟨name, hsegments, hlast⟩ := walkSegments_names hc
  refine ⟨name, hsegments, ?_⟩
  change last.isNone = true ↔ name = "*"
  obtain ⟨rfl, hname⟩ | ⟨f, rfl, -, hname⟩ := hlast
  · simp [hname]
  · simp [hname]

/-- A path `p.q` fails as `p` does, if it does. Where `p` ends at a relation, `p.q` is walked as `q` from
the relation's target: it ends where `q` ends, crosses the relations of `p`, that relation and those of
`q`, and fails as `q` does. Where `p` ends at a scalar, that scalar is reported, and where it ends in `*`,
that `*` is no field. For in front of others every segment is taken for the name of a relation, and `*`
means all fields as the last segment only. -/
theorem walk_composes (schema : Schema ι) (root : ι) (p q : String) :
    (∀ e, walk schema root p = .error e → walk schema root (p ++ "." ++ q) = .error e) ∧
    (∀ w f r, walk schema root p = .ok w → w.field = some f → f.relation = some r →
      (∀ v, walk schema r.target q = .ok v → ∃ u, walk schema root (p ++ "." ++ q) = .ok u ∧
        u.model = v.model ∧ u.field = v.field ∧ u.star = v.star ∧
        u.chain = w.chain ++ ⟨w.model, f, r⟩ :: v.chain ∧ u.crossedRelation = true) ∧
      ∀ e, walk schema r.target q = .error e → walk schema root (p ++ "." ++ q) = .error e) ∧
    (∀ w f, walk schema root p = .ok w → w.field = some f → f.relation = none →
      walk schema root (p ++ "." ++ q) =
        .error (.unreachableRelation (schema w.model).table f.name)) ∧
    (∀ w, walk schema root p = .ok w → w.star = true → (schema w.model).field? "*" = none →
      walk schema root (p ++ "." ++ q) = .error (.unknownField (schema w.model).table "*")) ∧
    ∀ w, walk schema root p = .ok w → ∃ last,
      Text.split '.' p = w.chain.map (·.field.name) ++ [last] ∧ (w.star = true ↔ last = "*") := by
  refine ⟨fun e he => walk_append_of_error he q, ?_, ?_, ?_, fun w hw => walk_names hw⟩
  · intro w f r hw hf hr
    have hthrough := walk_append_of_relation hw hf hr q
    constructor
    · intro v hv
      rw [hv] at hthrough
      exact ⟨_, hthrough, rfl, rfl, rfl, rfl, by simp [Walk.crossedRelation]⟩
    · intro e he
      rw [he] at hthrough
      exact hthrough
  · intro w f hw hf hr
    exact walk_append_of_scalar hw hf hr q
  · intro w hw hstar hnone
    exact walk_append_of_star hw hstar hnone q

/-- Messages refer to messages; the sender's name of what a reply replies to. -/
theorem repliedMessages_compose :
    (∃ u, walk Sample.schema .message "replies.reply_to.sender.name" = .ok u ∧ u.model = .user ∧
      u.chain.map (·.field.name) = ["replies", "reply_to", "sender"] ∧ u.crossedRelation = true) ∧
    walk Sample.schema .message "replies.reply_to.sender.ghost.name" =
      .error (.unknownField "users" "ghost") ∧
    walk Sample.schema .message "replies.reply_to.*.id" = .error (.unknownField "messages" "*") := by
  obtain ⟨-, through, -⟩ := walk_composes Sample.schema .message "replies.reply_to" "sender.name"
  obtain ⟨found, -⟩ := through _ _ _ rfl rfl rfl
  obtain ⟨u, hu, hmodel, -, -, hchain, hcrossed⟩ := found _ rfl
  obtain ⟨-, through, -⟩ :=
    walk_composes Sample.schema .message "replies.reply_to" "sender.ghost.name"
  obtain ⟨-, missing⟩ := through _ _ _ rfl rfl rfl
  obtain ⟨-, -, -, star, -⟩ := walk_composes Sample.schema .message "replies.reply_to.*" "id"
  exact ⟨⟨u, hu, hmodel, hchain ▸ rfl, hcrossed⟩, missing _ rfl, star _ rfl rfl rfl⟩

end Orm
